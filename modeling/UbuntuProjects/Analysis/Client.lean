import UbuntuProjects.Analysis.ClientRetry

/-!
# The addresses of the client

Both branches behind `connect_retry` return (client.c:52-59), so the loop over the list of
`getaddrinfo` has one turn.
-/

set_option autoImplicit false

namespace UbuntuProjects.Client

/-- A connection to the address comes about within the attempts of `connect_retry`. -/
def Reachable (a : Address) : Prop :=
  0 ≤ a.sockfd ∧ ∃ k, 0 < k ∧ k ≤ attemptsFor 120 ∧ a.connects k = true

/-- `main` returns `r` for the host with these addresses. -/
def Prints (ailist : List Address) (r : Result) : Prop :=
  ∃ fuel, main fuel 2 (.ok ailist) = some r

variable {a : Address} {rest : List Address} {r : Result}

/-- INTERNAL: `connect_retry` returns 0 for a reachable address. -/
theorem connect_retry_reachable (h : Reachable a) :
    ∃ fuel t, connect_retry fuel a.connect 120 = some t ∧ t.code = 0 := by
  obtain ⟨hsock, hex⟩ := h
  have hconnect : ∀ k, a.connect k = a.connects k := by
    intro k
    unfold Address.connect
    rw [decide_eq_true hsock, Bool.true_and]
  -- the first of the attempts that would succeed
  have hk := Nat.find_spec hex
  have hbefore : ∀ i, 0 < i → i < Nat.find hex → a.connect i = false := by
    intro i h0 hi
    have hmin := Nat.find_min hex hi
    rw [hconnect, ← Bool.not_eq_true]
    exact fun hi' => hmin ⟨h0, (hi.le).trans hk.2.1, hi'⟩
  have hthen : a.connect (Nat.find hex) = true := by
    rw [hconnect]
    exact hk.2.2
  obtain ⟨t, ⟨fuel, ht⟩, hcode, -⟩ := connect_retry_succeeds hk.1 hk.2.1 hbefore hthen
  exact ⟨fuel, t, ht, hcode⟩

/-- INTERNAL: it returns -1 for any other address. -/
theorem connect_retry_unreachable (h : ¬Reachable a) :
    ∃ fuel t, connect_retry fuel a.connect 120 = some t ∧ t.code = -1 := by
  have hfail : ∀ i, 0 < i → i ≤ attemptsFor 120 → a.connect i = false := by
    intro i h0 hi
    rw [← Bool.not_eq_true]
    intro htrue
    rw [Address.connect, Bool.and_eq_true, decide_eq_true_eq] at htrue
    exact h ⟨htrue.1, i, h0, hi, htrue.2⟩
  obtain ⟨t, ⟨fuel, ht⟩, hcode, -⟩ := connect_retry_fails (by decide) hfail
  exact ⟨fuel, t, ht, hcode⟩

/-- INTERNAL: the result for a list whose first address is reachable. -/
theorem prints_reachable (h : Reachable a) (hrecv : a.recvFails = false) :
    Prints (a :: rest) ⟨0, a.received.flatMap Piece.bytes, none, [a]⟩ := by
  obtain ⟨fuel, t, ht, hcode⟩ := connect_retry_reachable h
  refine ⟨fuel, ?_⟩
  show tryAddresses fuel (a :: rest) = _
  unfold tryAddresses
  dsimp only
  rw [ht, Option.bind_eq_bind, Option.bind_some, hcode, if_neg (by decide)]
  unfold print_uptime
  dsimp only
  rw [hrecv, if_neg Bool.false_ne_true]
  rfl

/-- INTERNAL: the result for a list whose first address is not reachable. -/
theorem prints_unreachable (h : ¬Reachable a) :
    Prints (a :: rest) ⟨-1, [], some (.cantConnect a.connectErrno), [a]⟩ := by
  obtain ⟨fuel, t, ht, hcode⟩ := connect_retry_unreachable h
  refine ⟨fuel, ?_⟩
  show tryAddresses fuel (a :: rest) = _
  unfold tryAddresses
  dsimp only
  rw [ht, Option.bind_eq_bind, Option.bind_some, hcode, if_pos (by decide)]
  rfl

/-- INTERNAL: a call of `connect_retry` has one result. -/
theorem connect_retry_unique {connect : ℕ → Bool} {seconds : UInt64} {fuel fuel' : ℕ}
    {t t' : Retry} (h : connect_retry fuel connect seconds = some t)
    (h' : connect_retry fuel' connect seconds = some t') : t = t' := by
  have hmore := retryLoop_mono (le_max_left fuel fuel') h
  have hmore' := retryLoop_mono (le_max_right fuel fuel') h'
  exact Option.some.inj (hmore.symm.trans hmore')

/-- INTERNAL: `main` has one result. -/
theorem Prints.unique {ailist : List Address} {r' : Result} (h : Prints ailist r)
    (h' : Prints ailist r') : r = r' := by
  obtain ⟨fuel, h⟩ := h
  obtain ⟨fuel', h'⟩ := h'
  change tryAddresses fuel ailist = some r at h
  change tryAddresses fuel' ailist = some r' at h'
  cases ailist with
  | nil => exact Option.some.inj (h.symm.trans h')
  | cons a rest =>
    obtain ⟨t, ht, hr⟩ := Option.bind_eq_some_iff.mp h
    obtain ⟨t', ht', hr'⟩ := Option.bind_eq_some_iff.mp h'
    rw [connect_retry_unique ht ht'] at hr
    exact Option.some.inj (hr.symm.trans hr')

/-- What `main` is to do with a list of addresses: it prints the uptime that a reachable one
sends if there is any, and an error is the result only when every address was tried. -/
structure TriesAll (ailist : List Address) (r : Result) : Prop where
  prints : (∃ a ∈ ailist, Reachable a) → r.code = 0 ∧
    ∃ a ∈ ailist, Reachable a ∧ r.printed = a.received.flatMap Piece.bytes
  exhausts : r.code ≠ 0 → r.tried = ailist

/-- INTERNAL: a list whose first address is reachable. -/
theorem triesAll_reachable (h : Reachable a) (hrecv : a.recvFails = false) :
    ∃ r, Prints (a :: rest) r ∧ TriesAll (a :: rest) r := by
  refine ⟨_, prints_reachable h hrecv, ?_, ?_⟩
  · exact fun _ => ⟨rfl, a, List.mem_cons_self, h, rfl⟩
  · exact fun hcode => absurd rfl hcode

/-- INTERNAL: a list with one address, which is not reachable. -/
theorem triesAll_single (h : ¬Reachable a) : ∃ r, Prints [a] r ∧ TriesAll [a] r := by
  refine ⟨_, prints_unreachable h, ?_, fun _ => rfl⟩
  rintro ⟨b, hb, hreach⟩
  rw [List.mem_singleton.mp hb] at hreach
  exact absurd hreach h

/-- **Which addresses are tried.** For the addresses of a host whose servers answer, `main`
tries them as it is to exactly when the first one is reachable or the only one.
SRCLINE: client.c:48-60 -/
theorem main_triesAll_iff (a : Address) (rest : List Address)
    (hrecv : Reachable a → a.recvFails = false) :
    (∃ r, Prints (a :: rest) r ∧ TriesAll (a :: rest) r) ↔ Reachable a ∨ rest = [] := by
  constructor
  · rintro ⟨r, hr, htries⟩
    by_cases h : Reachable a
    · exact .inl h
    · obtain rfl := hr.unique (prints_unreachable h)
      have htried := htries.exhausts (show (-1 : ℤ) ≠ 0 by decide)
      exact .inr (List.cons.inj htried).2.symm
  · intro h
    by_cases hreach : Reachable a
    · exact triesAll_reachable hreach (hrecv hreach)
    · obtain rfl := h.resolve_left hreach
      exact triesAll_single hreach

/-- A host with one address and a server there: the second attempt succeeds. -/
def served : Address := ⟨3, fun k => k == 2, 0, [⟨[117, 112, 10], by decide, by decide⟩], false⟩

/-- An address on which nothing listens (`ECONNREFUSED`). -/
def refused : Address := ⟨3, fun _ => false, 111, [], false⟩

theorem served_reachable : Reachable served :=
  ⟨by decide, 2, by decide, by decide, by decide⟩

theorem refused_not_reachable : ¬Reachable refused :=
  fun ⟨_, _, _, _, h⟩ => absurd h Bool.false_ne_true

theorem main_triesAll_iff_first :
    ∃ r, Prints [served, refused] r ∧ TriesAll [served, refused] r :=
  (main_triesAll_iff served [refused] fun _ => rfl).mpr (.inl served_reachable)

/-- The second address is reachable, the first is not: `main` returns -1. -/
theorem main_skips_second :
    ¬∀ ailist : List Address, ailist ≠ [] → (∀ b ∈ ailist, b.recvFails = false) →
      ∃ r, Prints ailist r ∧ TriesAll ailist r := by
  intro hall
  obtain ⟨r, hr, htries⟩ := hall [refused, served] (List.cons_ne_nil _ _) (by decide)
  obtain rfl := hr.unique (prints_unreachable refused_not_reachable)
  have hprints := htries.prints ⟨served, by simp, served_reachable⟩
  exact absurd hprints.1 (by decide)

end UbuntuProjects.Client
