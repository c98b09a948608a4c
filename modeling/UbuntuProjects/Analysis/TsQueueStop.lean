import UbuntuProjects.Analysis.TsQueueInvariant

/-!
# `stop_waitings` of `ts_queue` is final

The six waiting pops are one family (`Take` with `wait ≠ never`), and all read the flag
under `m_head_mut`. Once it is set, no waiting pop is about to park or to remove an
element (`Settled`): whoever is at such a point owns `m_head_mut`, and so does the thread
that sets the flag. The flag is never reset, so a waiting pop that locks `m_head_mut` from
then on goes straight to `interrupted` (`Pc.givesUp`), and when the notification of
`stop_waitings` has been sent, nobody is parked and nobody parks again.
-/

set_option autoImplicit false

namespace UbuntuProjects.TsQueue

open Concurrency

variable {Tid Q T : Type}

/-- A waiting pop on `q` that has found the flag clear and is about to park or to remove an
element. -/
def Pc.proceeds (q : Q) : Pc Q T → Prop
  | .park q' _ => q' = q
  | .popLoop q' k _ _ _ => q' = q ∧ k.wait ≠ .never
  | .popData q' k _ _ _ => q' = q ∧ k.wait ≠ .never
  | .popNode q' k _ _ _ => q' = q ∧ k.wait ≠ .never
  | _ => False

/-- If the flag of a queue is set, no waiting pop on it proceeds. -/
def Settled (c : Config Tid (Pc Q T) (Shared Tid Q T)) : Prop :=
  ∀ q Q', c.sh.queues q = some Q' → Q'.mInterruptWaiting = true → ∀ t, ¬(c.pc t).proceeds q

section Steps

variable [DecidableEq Q] {own : Owners Tid Q} {s s' : Shared Tid Q T} {t : Tid} {q : Q}
  {Q₁ Q₂ : Queue Tid} {p p' : Pc Q T}

/-! ## What a step does to the flag and to the parked threads -/

/-- What a step of thread `t` at `p` may do to the members of `q` that matter here: it sets
the flag in `stop_waitings` only, and adds only itself to `m_cb`, when it parks. -/
def FlagStep (q : Q) (p : Pc Q T) (Q₁ Q₂ : Queue Tid) : Prop :=
  (Q₁.mInterruptWaiting = true → Q₂.mInterruptWaiting = true) ∧
  (Q₂.mInterruptWaiting = true → Q₁.mInterruptWaiting = true ∨ p = .setStop q) ∧
  ∀ u ∈ Q₂.mCb, u ∈ Q₁.mCb ∨ ∃ k, p = .park q k

omit [DecidableEq Q] in
/-- INTERNAL: a step that leaves the queue objects as they are. -/
theorem flagStep_same (p : Pc Q T) (hq : s'.queues = s.queues) (hQ : s.queues q = some Q₁) :
    ∃ Q₂, s'.queues q = some Q₂ ∧ FlagStep q p Q₁ Q₂ :=
  ⟨Q₁, by rw [hq, hQ], id, .inl, fun _ hu => .inl hu⟩

/-- INTERNAL: a step that writes one queue object. -/
theorem flagStep_set {q' : Q} {D D' : Queue Tid}
    (hD : s.queues q' = some D) (hs : s'.queues = Function.update s.queues q' (some D'))
    (h : FlagStep q' p D D') (hQ : s.queues q = some Q₁) :
    ∃ Q₂, s'.queues q = some Q₂ ∧ FlagStep q p Q₁ Q₂ := by
  by_cases hqq : q = q'
  · subst hqq
    obtain rfl : D = Q₁ := by simpa using hD.symm.trans hQ
    exact ⟨D', by rw [hs, Function.update_self], h⟩
  · exact ⟨Q₁, by rw [hs, Function.update_of_ne hqq, hQ], id, .inl, fun _ hu => .inl hu⟩

/-- INTERNAL: a step that writes members other than the flag and `m_cb`. -/
theorem flagStep_keep {q' : Q} {D D' : Queue Tid}
    (hD : s.queues q' = some D) (hs : s'.queues = Function.update s.queues q' (some D'))
    (hf : D'.mInterruptWaiting = D.mInterruptWaiting) (hcb : D'.mCb = D.mCb)
    (hQ : s.queues q = some Q₁) : ∃ Q₂, s'.queues q = some Q₂ ∧ FlagStep q p Q₁ Q₂ :=
  flagStep_set hD hs ⟨fun h => hf.trans h, fun h => .inl (hf.symm.trans h),
    fun _ hu => .inl (hcb ▸ hu)⟩ hQ

/-- INTERNAL: a step that only takes threads out of `m_cb`. -/
theorem flagStep_wake {q' : Q} {D D' : Queue Tid}
    (hD : s.queues q' = some D) (hs : s'.queues = Function.update s.queues q' (some D'))
    (hf : D'.mInterruptWaiting = D.mInterruptWaiting) (hcb : D'.mCb ⊆ D.mCb)
    (hQ : s.queues q = some Q₁) : ∃ Q₂, s'.queues q = some Q₂ ∧ FlagStep q p Q₁ Q₂ :=
  flagStep_set hD hs ⟨fun h => hf.trans h, fun h => .inl (hf.symm.trans h),
    fun _ hu => .inl (hcb hu)⟩ hQ

/-- INTERNAL: a queue object that is constructed is not `q`, which exists already. -/
theorem flagStep_construct {q' : Q} {D' : Queue Tid} (hq' : s.queues q' = none)
    (hs : s'.queues = Function.update s.queues q' (some D')) (hQ : s.queues q = some Q₁) :
    ∃ Q₂, s'.queues q = some Q₂ ∧ FlagStep q p Q₁ Q₂ := by
  have hqq : q ≠ q' := by
    rintro rfl
    simp [hQ] at hq'
  exact ⟨Q₁, by rw [hs, Function.update_of_ne hqq, hQ], id, .inl, fun _ hu => .inl hu⟩

variable [DecidableEq Tid]

theorem clientStep_flag {l : Lab Q T} (hs : ClientStep t p s l p' s')
    (hQ : s.queues q = some Q₁) : ∃ Q₂, s'.queues q = some Q₂ ∧ FlagStep q p Q₁ Q₂ := by
  cases hs with
  | call | ret | notifyNobody => exact flagStep_same _ rfl hQ
  | create hq => exact flagStep_construct hq rfl hQ
  | notifyOne hD => exact flagStep_wake hD rfl rfl List.erase_subset hQ
  | notifyAll hD => exact flagStep_wake hD rfl rfl (List.nil_subset _) hQ
  | lockStop hD | unlockStop hD => exact flagStep_keep hD rfl rfl rfl hQ
  | setStop hD =>
    exact flagStep_set hD rfl ⟨fun _ => rfl, fun _ => .inr rfl, fun _ hu => .inl hu⟩ hQ

omit [DecidableEq Tid] in
theorem pushStep_flag (hs : PushStep t p s p' s') (hQ : s.queues q = some Q₁) :
    ∃ Q₂, s'.queues q = some Q₂ ∧ FlagStep q p Q₁ Q₂ := by
  cases hs with
  | lockTail hD | moveTail hD | moveTailRange hD | unlockTail hD =>
    exact flagStep_keep hD rfl rfl rfl hQ
  | _ => exact flagStep_same _ rfl hQ

theorem popStep_flag (hs : PopStep t p s p' s') (hQ : s.queues q = some Q₁) :
    ∃ Q₂, s'.queues q = some Q₂ ∧ FlagStep q p Q₁ Q₂ := by
  cases hs with
  | lockHead hD | lockTailMut hD | unlockTailMut hD | relock hD | unlockHead hD =>
    exact flagStep_keep hD rfl rfl rfl hQ
  | popNode hD => exact flagStep_keep hD rfl rfl rfl hQ
  | park hD => exact flagStep_set hD rfl ⟨id, .inl, fun _ _ => .inr ⟨_, rfl⟩⟩ hQ
  | spurious hD | timeout hD => exact flagStep_wake hD rfl rfl List.erase_subset hQ
  | testInterrupt | readTail | testEmpty | notified | popLoop | popData =>
    exact flagStep_same _ rfl hQ

omit [DecidableEq Tid] in
/-- INTERNAL: a move writes the first and last node of two queue objects, the first of which
it may have constructed. -/
theorem flagStep_move {this other : Q} {O O' D' : Queue Tid} (hO : s.queues other = some O)
    (hs : s'.queues = Function.update (Function.update s.queues other (some O')) this (some D'))
    (hO' : O'.mInterruptWaiting = O.mInterruptWaiting ∧ O'.mCb = O.mCb)
    (hD' : ∀ D, s.queues this = some D →
      D'.mInterruptWaiting = D.mInterruptWaiting ∧ D'.mCb = D.mCb)
    (hQ : s.queues q = some Q₁) : ∃ Q₂, s'.queues q = some Q₂ ∧ FlagStep q p Q₁ Q₂ := by
  have hsame : ∀ Q₂ : Queue Tid, Q₂.mInterruptWaiting = Q₁.mInterruptWaiting →
      Q₂.mCb = Q₁.mCb → FlagStep q p Q₁ Q₂ := fun Q₂ hf hcb =>
    ⟨fun h => hf.trans h, fun h => .inl (hf.symm.trans h), fun _ hu => .inl (hcb ▸ hu)⟩
  by_cases hthis : q = this
  · subst hthis
    obtain ⟨hf, hcb⟩ := hD' Q₁ hQ
    exact ⟨D', by rw [hs, Function.update_self], hsame D' hf hcb⟩
  · by_cases hother : q = other
    · subst hother
      obtain rfl : O = Q₁ := by simpa using hO.symm.trans hQ
      exact ⟨O', by rw [hs, Function.update_of_ne hthis, Function.update_self],
        hsame O' hO'.1 hO'.2⟩
    · exact ⟨Q₁, by rw [hs, Function.update_of_ne hthis, Function.update_of_ne hother, hQ],
        hsame Q₁ rfl rfl⟩

omit [DecidableEq Tid] in
theorem lockedStep_flag (hs : LockedStep t p s p' s') (hQ : s.queues q = some Q₁) :
    ∃ Q₂, s'.queues q = some Q₂ ∧ FlagStep q p Q₁ Q₂ := by
  cases hs with
  | acquireHead _ hD | acquireTail _ hD | backOffHead _ hD | backOffTail _ hD
  | releaseHead _ hD | releaseTail _ hD => exact flagStep_keep hD rfl rfl rfl hQ
  | clearNode hD => exact flagStep_keep hD rfl rfl rfl hQ
  | enter | cleared | testQueue | released => exact flagStep_same _ rfl hQ
  | moveConstruct hthis hO =>
    exact flagStep_move hO rfl ⟨rfl, rfl⟩ (fun D hD => by simp [hthis] at hD) hQ
  | moveAssign hD hO =>
    refine flagStep_move hO rfl ⟨rfl, rfl⟩ (fun D' hD' => ?_) hQ
    obtain rfl := Option.some.inj (hD.symm.trans hD')
    exact ⟨rfl, rfl⟩

theorem queueStep_flag {l : Lab Q T} (hs : QueueStep t p s l p' s')
    (hQ : s.queues q = some Q₁) : ∃ Q₂, s'.queues q = some Q₂ ∧ FlagStep q p Q₁ Q₂ := by
  cases hs with
  | client hs => exact clientStep_flag hs hQ
  | push hs => exact pushStep_flag hs hQ
  | pop hs => exact popStep_flag hs hQ
  | locked hs => exact lockedStep_flag hs hQ

/-! ## Nobody proceeds once the flag is set -/

omit [DecidableEq Q] [DecidableEq Tid] in
/-- INTERNAL: a waiting pop that proceeds owns `m_head_mut`. -/
theorem Pc.proceeds.holdsHead (h : p.proceeds q) (has : assertion own t p s) :
    HoldsHead s t q := by
  cases p with
  | park q' k =>
    obtain rfl : q' = q := h
    exact has
  | popLoop q' =>
    obtain ⟨rfl, -⟩ := h
    exact IsAhead.holdsHead has
  | popData q' | popNode q' =>
    obtain ⟨rfl, -⟩ := h
    exact (IsStrictlyAhead.isAhead has).holdsHead
  | _ => exact h.elim

omit [DecidableEq Q] [DecidableEq Tid] in
/-- INTERNAL: the test of the predicate lets a waiting pop proceed only with the flag clear. -/
theorem afterTest_proceeds {k : Take} {last : Bool} {pt : Addr} {q' : Q} {D : Queue Tid}
    (h : (afterTest q' k last pt D : Pc Q T).proceeds q) :
    q' = q ∧ D.mInterruptWaiting ≠ true := by
  have hstart : (popStart q' k pt : Pc Q T).proceeds q → q' = q ∧ k.wait ≠ .never := by
    unfold popStart
    cases k.amount <;> exact id
  cases hk : k.wait with
  | never =>
    simp only [afterTest, hk] at h
    split at h
    · exact h.elim
    · exact absurd hk (hstart h).2
  | forever | timed =>
    simp only [afterTest, hk] at h
    split at h
    · split at h
      · exact h.elim
      · rename_i hf
        exact ⟨(hstart h).1, hf⟩
    · rename_i hor
      split at h
      · exact h.elim
      · exact ⟨h, fun hf => hor (.inr hf)⟩

/-- INTERNAL: with the flag set nobody comes to proceed on `q`. -/
theorem queueStep_proceeds {l : Lab Q T} (hs : QueueStep t p s l p' s')
    (hf : ∀ D, s.queues q = some D → D.mInterruptWaiting = true) (hp' : p'.proceeds q) :
    p.proceeds q := by
  cases hs with
  | client hs =>
    cases hs with
    | call _ op => cases op <;> exact hp'.elim
    | _ => exact hp'.elim
  | push hs =>
    cases hs with
    | makeSubNil _ _ n => cases n <;> exact hp'.elim
    | @unlockTail _ _ n => cases n <;> exact hp'.elim
    | _ => exact hp'.elim
  | pop hs =>
    cases hs with
    | lockHead =>
      simp only [afterLockHead] at hp'
      split at hp' <;> exact hp'.elim
    | testInterrupt =>
      split at hp' <;> exact hp'.elim
    | testEmpty hQ' =>
      obtain ⟨rfl, hclear⟩ := afterTest_proceeds hp'
      exact absurd (hf _ hQ') hclear
    | popLoop =>
      simp only [afterLoopTest] at hp'
      split at hp'
      · exact hp'.elim
      · exact hp'
    | popData => exact hp'
    | popNode =>
      simp only [afterPop] at hp'
      split at hp'
      · exact hp'.elim
      · exact hp'
    | _ => exact hp'.elim
  | locked hs =>
    cases hs with
    | @enter _ c => cases c <;> exact hp'.elim
    | @cleared _ c => cases c <;> exact hp'.elim
    | _ => exact hp'.elim

end Steps

/-! ## A waiting pop that gives up -/

/-- The elements that have been written to `ret` or through `out`. -/
def Res.output : Res T → List T
  | .status _ ret => ret.toList
  | .range out _ => out
  | _ => []

/-- The elements a thread has written to `ret` or through `out` in its call. -/
def Pc.output : Pc Q T → List T
  | .popLoop _ _ _ _ out => out
  | .popData _ _ _ _ out => out
  | .popNode _ _ _ _ out => out
  | .unlockHead _ r => r.output
  | .returning r => r.output
  | _ => []

/-- The control points of the waiting pop `k` on `q` that returns `interrupted`. -/
def Pc.givesUp (q : Q) (k : Take) : Pc Q T → Prop
  | .lockHead q' k' => q' = q ∧ k' = k
  | .testInterrupt q' k' => q' = q ∧ k' = k
  | .lockTailMut q' k' _ => q' = q ∧ k' = k
  | .readTail q' k' _ => q' = q ∧ k' = k
  | .unlockTailMut q' k' _ _ => q' = q ∧ k' = k
  | .testEmpty q' k' _ _ => q' = q ∧ k' = k
  | .parked q' k' => q' = q ∧ k' = k
  | .relock q' k' _ => q' = q ∧ k' = k
  | .unlockHead q' r => q' = q ∧ r = k.result .interrupted []
  | .returning r => r = k.result .interrupted []
  | _ => False

/-- How many steps such a pop takes until it returns. -/
def Pc.stepsLeft : Pc Q T → ℕ
  | .lockHead _ _ => 3
  | .testInterrupt _ _ => 2
  | .parked _ _ => 7
  | .relock _ _ _ => 6
  | .lockTailMut _ _ _ => 5
  | .readTail _ _ _ => 4
  | .unlockTailMut _ _ _ _ => 3
  | .testEmpty _ _ _ _ => 2
  | .unlockHead _ _ => 1
  | _ => 0

/-- No element was removed or added: the nodes are the same, and every queue object has its
first and last node where they were. -/
def SameElements (s s' : Shared Tid Q T) : Prop :=
  s'.heap = s.heap ∧ ∀ q Q₁, s.queues q = some Q₁ → ∃ Q₂, s'.queues q = some Q₂ ∧
    Q₂.mHead = Q₁.mHead ∧ Q₂.mTail = Q₁.mTail

theorem Take.result_output (k : Take) (st : PopStatus) :
    (k.result st [] : Res T).output = [] := by
  unfold Take.result
  cases k.amount <;> rfl

/-- INTERNAL: nothing is written on the way. -/
theorem Pc.givesUp.output {q : Q} {k : Take} {p : Pc Q T} (h : p.givesUp q k) :
    p.output = [] := by
  cases p with
  | unlockHead q' r =>
    obtain ⟨-, rfl⟩ := h
    exact k.result_output .interrupted
  | returning r =>
    obtain rfl : r = k.result .interrupted [] := h
    exact k.result_output .interrupted
  | popLoop | popData | popNode => exact h.elim
  | _ => rfl

section Steps

variable [DecidableEq Q] {s s' : Shared Tid Q T} {t : Tid} {q : Q} {Q₁ Q₂ : Queue Tid}
  {p p' : Pc Q T} {k : Take}

omit [DecidableEq Q] in
theorem SameElements.refl (s : Shared Tid Q T) : SameElements s s :=
  ⟨rfl, fun _ Q₁ h => ⟨Q₁, h, rfl, rfl⟩⟩

/-- INTERNAL: writing the mutexes or `m_cb` leaves the elements alone. -/
theorem sameElements_setQueue (hQ : s.queues q = some Q₁) (hh : Q₂.mHead = Q₁.mHead)
    (ht : Q₂.mTail = Q₁.mTail) : SameElements s (s.setQueue q Q₂) := by
  refine ⟨rfl, fun q' D hD => ?_⟩
  by_cases hqq : q' = q
  · subst hqq
    obtain rfl : Q₁ = D := by simpa using hQ.symm.trans hD
    exact ⟨Q₂, Function.update_self .., hh, ht⟩
  · exact ⟨D, by simpa [Function.update_of_ne hqq] using hD, rfl, rfl⟩

omit [DecidableEq Q] in
theorem afterLockHead_waiting (hk : k.wait ≠ .never) :
    (afterLockHead q k : Pc Q T) = .testInterrupt q k := by
  unfold afterLockHead
  cases hw : k.wait with
  | never => exact absurd hw hk
  | forever | timed => rfl

omit [DecidableEq Q] in
theorem afterTest_interrupted {last : Bool} {pt : Addr} (hk : k.wait ≠ .never)
    (hf : Q₁.mInterruptWaiting = true) :
    (afterTest q k last pt Q₁ : Pc Q T) = .unlockHead q (k.result .interrupted []) := by
  unfold afterTest
  cases hw : k.wait with
  | never => exact absurd hw hk
  | forever | timed => simp [hf]

/-- INTERNAL: with the flag set, a step of a waiting pop that gives up changes no element
and brings it closer to its return. -/
theorem popStep_givesUp [DecidableEq Tid] (hs : PopStep t p s p' s') (hk : k.wait ≠ .never)
    (hp : p.givesUp q k) (hQ : s.queues q = some Q₁) (hf : Q₁.mInterruptWaiting = true) :
    p'.givesUp q k ∧ p'.stepsLeft < p.stepsLeft ∧ SameElements s s' := by
  have hflag : ∀ {q' : Q} {Q' : Queue Tid}, q' = q → s.queues q' = some Q' →
      Q'.mInterruptWaiting = true := by
    rintro q' Q' rfl hQ'
    obtain rfl := Option.some.inj (hQ.symm.trans hQ')
    exact hf
  cases hs with
  | lockHead hQ' =>
    obtain ⟨rfl, rfl⟩ := hp
    rw [afterLockHead_waiting hk]
    exact ⟨⟨rfl, rfl⟩, by simp [Pc.stepsLeft], sameElements_setQueue hQ' rfl rfl⟩
  | testInterrupt hQ' =>
    obtain ⟨rfl, rfl⟩ := hp
    rw [if_pos (hflag rfl hQ')]
    exact ⟨⟨rfl, rfl⟩, by simp [Pc.stepsLeft], SameElements.refl s⟩
  | lockTailMut hQ' | unlockTailMut hQ' | spurious hQ' | timeout hQ' | relock hQ' =>
    exact ⟨hp, by simp [Pc.stepsLeft], sameElements_setQueue hQ' rfl rfl⟩
  | readTail | notified => exact ⟨hp, by simp [Pc.stepsLeft], SameElements.refl s⟩
  | testEmpty hQ' =>
    obtain ⟨rfl, rfl⟩ := hp
    rw [afterTest_interrupted hk (hflag rfl hQ')]
    exact ⟨⟨rfl, rfl⟩, by simp [Pc.stepsLeft], SameElements.refl s⟩
  | unlockHead hQ' =>
    obtain ⟨rfl, rfl⟩ := hp
    exact ⟨rfl, by simp [Pc.stepsLeft], sameElements_setQueue hQ' rfl rfl⟩
  | park | popLoop | popData | popNode => exact hp.elim

theorem queueStep_givesUp [DecidableEq Tid] (hs : QueueStep t p s none p' s')
    (hk : k.wait ≠ .never) (hp : p.givesUp q k) (hQ : s.queues q = some Q₁)
    (hf : Q₁.mInterruptWaiting = true) :
    p'.givesUp q k ∧ p'.stepsLeft < p.stepsLeft ∧ SameElements s s' := by
  cases hs with
  | pop hs => exact popStep_givesUp hs hk hp hQ hf
  | client hs | push hs | locked hs => cases hs <;> exact hp.elim

end Steps

/-! ## Runs -/

section Runs

variable {c c' : Config Tid (Pc Q T) (Shared Tid Q T)} {q : Q} {t u : Tid}

/-- The interrupt flag of `q` is set. -/
def Flagged (q : Q) (s : Shared Tid Q T) : Prop :=
  ∃ Q', s.queues q = some Q' ∧ Q'.mInterruptWaiting = true

/-- The interrupt flag of `q` is set and nobody is parked un-notified in `m_cb`. -/
def Stopped (q : Q) (s : Shared Tid Q T) : Prop :=
  ∃ Q', s.queues q = some Q' ∧ Q'.mInterruptWaiting = true ∧ Q'.mCb = []

/-- Thread `t` neither makes a call nor returns from one. -/
def WithinCall (t : Tid) (_ : Config Tid (Pc Q T) (Shared Tid Q T)) (e : Tid × Lab Q T) : Prop :=
  e.1 = t → e.2 = none

variable [DecidableEq Tid] [DecidableEq Q]

/-- The steps of the queue, of which those of thread `t` change no element. -/
def Harmless (t : Tid) : Program Tid (Pc Q T) (Shared Tid Q T) (Lab Q T) :=
  fun u p s l p' s' => QueueStep u p s l p' s' ∧ (u = t → SameElements s s')

theorem Flagged.step {e : Tid × Lab Q T} (h : Flagged q c.sh) (hs : Step QueueStep c e c') :
    Flagged q c'.sh := by
  obtain ⟨Q₁, hQ₁, hf⟩ := h
  obtain ⟨hs⟩ := hs
  obtain ⟨Q₂, hQ₂, hset, -⟩ := queueStep_flag hs hQ₁
  exact ⟨Q₂, hQ₂, hset hf⟩

/-- Once everybody is awake and the flag is set, it stays so. -/
theorem Stopped.step {e : Tid × Lab Q T} (h : Stopped q c.sh) (hsettled : Settled c)
    (hs : Step QueueStep c e c') : Stopped q c'.sh := by
  obtain ⟨Q₁, hQ₁, hf, hcb⟩ := h
  obtain ⟨hs⟩ := hs
  rename_i t l p' s'
  obtain ⟨Q₂, hQ₂, hset, -, hpark⟩ := queueStep_flag hs hQ₁
  refine ⟨Q₂, hQ₂, hset hf, List.eq_nil_iff_forall_not_mem.mpr fun u hu => ?_⟩
  rcases hpark u hu with hmem | ⟨k, hk⟩
  · simp [hcb] at hmem
  · have hstay := hsettled q Q₁ hQ₁ hf t
    rw [hk] at hstay
    exact hstay rfl

/-- The step lemma: whoever sets the flag owns `m_head_mut`, and so would a waiting pop that
proceeds. -/
theorem Settled.step {e : Tid × Lab Q T} (h : Settled c) (hO : (outline Tid Q T).Holds c)
    (hs : Step QueueStep c e c') : Settled c' := by
  obtain ⟨own, hI, hA⟩ := hO
  obtain ⟨hs⟩ := hs
  rename_i t l p' s'
  intro q Q' hQ' hf u hproc
  have hheld : ∀ v, (c.pc v).proceeds q → HoldsHead c.sh v q := fun v hv => hv.holdsHead (hA v)
  have hset : ∀ D, c.sh.queues q = some D →
      D.mInterruptWaiting = true ∨ c.pc t = .setStop q := by
    intro D hD
    obtain ⟨Q₂, hQ₂, -, hset, -⟩ := queueStep_flag hs hD
    obtain rfl := Option.some.inj (hQ₂.symm.trans hQ')
    exact hset hf
  by_cases hstop : c.pc t = .setStop q
  · have hown : HoldsHead c.sh t q := by
      have hat := hA t
      rw [hstop] at hat
      exact hat
    by_cases hut : u = t
    · subst hut
      rw [hstop] at hs
      cases hs with
      | client hs =>
        cases hs
        simp [Pc.proceeds] at hproc
      | push hs | pop hs | locked hs => cases hs
    · have hprev : (c.pc u).proceeds q := by simpa [Function.update_of_ne hut] using hproc
      obtain ⟨D, hD, hm⟩ := hheld u hprev
      exact hut (Option.some.inj (hm.symm.trans (hown.of_queue hD)))
  · have hflag : ∀ D, c.sh.queues q = some D → D.mInterruptWaiting = true := fun D hD =>
      (hset D hD).resolve_right hstop
    have hprev : (c.pc u).proceeds q := by
      by_cases hut : u = t
      · subst hut
        exact queueStep_proceeds hs hflag (by simpa using hproc)
      · simpa [Function.update_of_ne hut] using hproc
    obtain ⟨D, hD, -⟩ := hheld u hprev
    exact h q D hD (hflag D hD) u hprev

/-- What holds in every configuration of every run. -/
structure StopInv (c : Config Tid (Pc Q T) (Shared Tid Q T)) : Prop where
  outline : (outline Tid Q T).Holds c
  locks : LocksExact c
  settled : Settled c

theorem StopInv.step {e : Tid × Lab Q T} (h : StopInv c) (hs : Step QueueStep c e c') :
    StopInv c' := by
  have hrun : Run QueueStep anyStep c ([] ++ [e]) c' := .step .nil trivial hs
  exact ⟨outline_run h.outline h.locks hrun, h.locks.step hs, h.settled.step h.outline hs⟩

theorem stopInv_run {tr : List (Tid × Lab Q T)}
    (h : Run QueueStep anyStep (noQueues Tid Q T) tr c) : StopInv c :=
  h.invariant StopInv
    ⟨outline_noQueues, locksExact_noQueues, fun q Q' hQ' => by simp [noQueues] at hQ'⟩
    fun _ _ _ hI _ hs => hI.step hs

/-! ## `stop_waitings` -/

/-- What `stop_waitings` on `q` has done so far. -/
def Stopping (q : Q) (s : Shared Tid Q T) : Pc Q T → Prop
  | .lockStop q' => q' = q
  | .setStop q' => q' = q
  | .unlockStop q' => q' = q ∧ Flagged q s
  | .notify q' n => q' = q ∧ n = .all ∧ Flagged q s
  | .returning _ => Stopped q s
  | _ => False

/-- INTERNAL: each step of `stop_waitings` does its part. -/
theorem clientStep_stopping {s s' : Shared Tid Q T} {p p' : Pc Q T}
    (hs : ClientStep t p s none p' s') (h : Stopping q s p) : Stopping q s' p' := by
  cases hs with
  | lockStop => exact h
  | create => exact h.elim
  | setStop hQ =>
    obtain rfl := h
    exact ⟨rfl, _, Function.update_self .., rfl⟩
  | unlockStop hQ =>
    obtain ⟨rfl, Q₁, hQ₁, hf⟩ := h
    obtain rfl := Option.some.inj (hQ.symm.trans hQ₁)
    exact ⟨rfl, rfl, _, Function.update_self .., hf⟩
  | notifyAll hQ =>
    obtain ⟨rfl, -, Q₁, hQ₁, hf⟩ := h
    obtain rfl := Option.some.inj (hQ.symm.trans hQ₁)
    exact ⟨_, Function.update_self .., hf, rfl⟩
  | notifyOne | notifyNobody =>
    obtain ⟨-, hn, -⟩ := h
    cases hn

theorem queueStep_stopping {s s' : Shared Tid Q T} {p p' : Pc Q T}
    (hs : QueueStep t p s none p' s') (h : Stopping q s p) : Stopping q s' p' := by
  cases hs with
  | client hs => exact clientStep_stopping hs h
  | push hs | pop hs | locked hs => cases hs <;> exact h.elim

/-- INTERNAL: the steps of other threads undo nothing of it. -/
theorem Stopping.keep {e : Tid × Lab Q T} {p : Pc Q T} (h : Stopping q c.sh p)
    (hsettled : Settled c) (hs : Step QueueStep c e c') : Stopping q c'.sh p := by
  cases p with
  | lockStop | setStop => exact h
  | unlockStop => exact ⟨h.1, h.2.step hs⟩
  | notify => exact ⟨h.1, h.2.1, h.2.2.step hs⟩
  | returning => exact Stopped.step h hsettled hs
  | _ => exact h.elim

/-- When `stop_waitings` returns, the flag is set and nobody is parked un-notified. -/
theorem stopped_of_returning {tr : List (Tid × Lab Q T)} {r : Res T} (hI : StopInv c)
    (hcall : c.pc u = (Op.stopWaitings q).entry) (h : Run QueueStep (WithinCall u) c tr c')
    (hret : c'.pc u = .returning r) : Stopped q c'.sh := by
  suffices hinv : StopInv c' ∧ Stopping q c'.sh (c'.pc u) by
    have hstop := hinv.2
    rw [hret] at hstop
    exact hstop
  refine h.invariant (fun c' => StopInv c' ∧ Stopping q c'.sh (c'.pc u)) ⟨hI, ?_⟩ ?_
  · rw [hcall]
    exact rfl
  · rintro c₁ ⟨t, l⟩ c₂ ⟨h₁, hstop⟩ hg hs
    refine ⟨h₁.step hs, ?_⟩
    have hkeep := hstop.keep h₁.settled hs
    obtain ⟨hs⟩ := hs
    by_cases hut : u = t
    · subst hut
      obtain rfl : l = none := hg rfl
      simpa using queueStep_stopping hs hstop
    · simpa [Function.update_of_ne hut] using hkeep

/-! ## Waiting pops after `stop_waitings` -/

/-- Thread `t` waits for a mutex of `q` that another thread owns. -/
def WaitsForMutex (s : Shared Tid Q T) (t : Tid) (q : Q) : Prop :=
  ∃ Q' v, s.queues q = some Q' ∧ v ≠ t ∧ (Q'.mHeadMut = some v ∨ Q'.mTailMut = some v)

/-- INTERNAL: nothing but a mutex holds up a waiting pop that gives up. -/
theorem givesUp_progress {k : Take} (h : StopInv c) (hstop : Stopped q c.sh)
    (hp : (c.pc t).givesUp q k) :
    (∃ r, c.pc t = .returning r) ∨ (∃ p' s', QueueStep t (c.pc t) c.sh none p' s') ∨
      WaitsForMutex c.sh t q := by
  obtain ⟨Q₁, hQ₁, hf, hcb⟩ := hstop
  obtain ⟨own, hI, hA⟩ := h.outline
  have howns := h.locks t q Q₁ hQ₁
  have hfree : ∀ m : Option Tid, m ≠ some t → m = none ∨ ∃ v, v ≠ t ∧ m = some v := by
    intro m hm
    cases m with
    | none => exact .inl rfl
    | some v => exact .inr ⟨v, fun hv => hm (congrArg some hv), rfl⟩
  cases hpc : c.pc t with
  | lockHead q' k' =>
    rw [hpc] at hp howns
    obtain ⟨rfl, rfl⟩ := hp
    rcases hfree Q₁.mHeadMut (fun hm => howns.1 hm) with hnone | ⟨v, hv, hm⟩
    · exact .inr (.inl ⟨_, _, .pop (.lockHead hQ₁ hnone)⟩)
    · exact .inr (.inr ⟨Q₁, v, hQ₁, hv, .inl hm⟩)
  | testInterrupt q' k' =>
    rw [hpc] at hp
    obtain ⟨rfl, rfl⟩ := hp
    exact .inr (.inl ⟨_, _, .pop (.testInterrupt hQ₁)⟩)
  | lockTailMut q' k' last =>
    rw [hpc] at hp howns
    obtain ⟨rfl, rfl⟩ := hp
    rcases hfree Q₁.mTailMut (fun hm => howns.2 hm) with hnone | ⟨v, hv, hm⟩
    · exact .inr (.inl ⟨_, _, .pop (.lockTailMut hQ₁ hnone)⟩)
    · exact .inr (.inr ⟨Q₁, v, hQ₁, hv, .inr hm⟩)
  | readTail q' k' last =>
    rw [hpc] at hp
    obtain ⟨rfl, rfl⟩ := hp
    obtain ⟨hd, tl, xs, hrep⟩ := hI.rep _ Q₁ hQ₁
    exact .inr (.inl ⟨_, _, .pop (.readTail hQ₁ hrep.tail)⟩)
  | unlockTailMut q' k' last pt =>
    rw [hpc] at hp
    obtain ⟨rfl, rfl⟩ := hp
    exact .inr (.inl ⟨_, _, .pop (.unlockTailMut hQ₁)⟩)
  | testEmpty q' k' last pt =>
    rw [hpc] at hp
    obtain ⟨rfl, rfl⟩ := hp
    exact .inr (.inl ⟨_, _, .pop (.testEmpty hQ₁)⟩)
  | parked q' k' =>
    rw [hpc] at hp
    obtain ⟨rfl, rfl⟩ := hp
    exact .inr (.inl ⟨_, _, .pop (.notified hQ₁ (by simp [hcb]))⟩)
  | relock q' k' last =>
    rw [hpc] at hp howns
    obtain ⟨rfl, rfl⟩ := hp
    rcases hfree Q₁.mHeadMut (fun hm => howns.1 hm) with hnone | ⟨v, hv, hm⟩
    · exact .inr (.inl ⟨_, _, .pop (.relock hQ₁ hnone)⟩)
    · exact .inr (.inr ⟨Q₁, v, hQ₁, hv, .inl hm⟩)
  | unlockHead q' r =>
    rw [hpc] at hp
    obtain ⟨rfl, -⟩ := hp
    exact .inr (.inl ⟨_, _, .pop (.unlockHead hQ₁)⟩)
  | returning r => exact .inl ⟨r, rfl⟩
  | _ =>
    rw [hpc] at hp
    exact hp.elim

/-- INTERNAL: what holds while a waiting pop gives up: it has taken `n` steps since `c`. -/
structure GivingUp (q : Q) (k : Take) (t : Tid) (c₀ : Config Tid (Pc Q T) (Shared Tid Q T))
    (tr : List (Tid × Lab Q T)) (c : Config Tid (Pc Q T) (Shared Tid Q T)) : Prop where
  inv : StopInv c
  stopped : Stopped q c.sh
  givesUp : (c.pc t).givesUp q k
  steps : tr.countP (fun e => e.1 = t) + (c.pc t).stepsLeft ≤ (c₀.pc t).stepsLeft
  harmless : Run (Harmless t) (WithinCall t) c₀ tr c

theorem givingUp_run {k : Take} {tr : List (Tid × Lab Q T)} (hI : StopInv c)
    (hstop : Stopped q c.sh) (hk : k.wait ≠ .never) (hp : (c.pc t).givesUp q k)
    (h : Run QueueStep (WithinCall t) c tr c') : GivingUp q k t c tr c' := by
  refine h.trace_invariant (GivingUp q k t c) ⟨hI, hstop, hp, by simp, .nil⟩ ?_
  rintro tr c₁ ⟨u, l⟩ c₂ - ⟨hinv, hst, hgives, hsteps, hharm⟩ hg hs
  have hinv' := hinv.step hs
  have hst' := hst.step hinv.settled hs
  obtain ⟨Q₁, hQ₁, hf, -⟩ := hst
  obtain ⟨hs⟩ := hs
  by_cases hut : u = t
  · subst hut
    obtain rfl : l = none := hg rfl
    obtain ⟨hgives', hlt, hsame⟩ := queueStep_givesUp hs hk hgives hQ₁ hf
    refine ⟨hinv', hst', by simpa using hgives', ?_, hharm.step hg (.mk ⟨hs, fun _ => hsame⟩)⟩
    simp only [List.countP_append, List.countP_singleton, Function.update_self, decide_true,
      if_true]
    omega
  · refine ⟨hinv', hst', ?_, ?_, hharm.step hg (.mk ⟨hs, fun h => absurd h hut⟩)⟩
    · simpa [Function.update_of_ne (Ne.symm hut)] using hgives
    · simpa [Function.update_of_ne (Ne.symm hut), hut] using hsteps

/-- **`stop_waitings` is final.** In every run, once a call of `stop_waitings` on `q` has come
to its return (`c₁`), in every later configuration `c₂` the flag is set and nobody is parked
un-notified in `m_cb`; and a waiting pop of any kind that is yet to lock `m_head_mut` then, be it
newly called, parked, woken or timed out, writes neither `ret` nor `out` and changes no element
as long as it runs, and returns `interrupted`: after at most seven steps of its thread, which
only a mutex owned by another thread can hold up. -/
theorem stop_waitings_final {tr tr₁ tr₂ : List (Tid × Lab Q T)}
    {c c₁ c₂ : Config Tid (Pc Q T) (Shared Tid Q T)} {u : Tid} {q : Q} {r : Res T}
    (h : Run QueueStep anyStep (noQueues Tid Q T) tr c)
    (hcall : c.pc u = (Op.stopWaitings q).entry)
    (hstop : Run QueueStep (WithinCall u) c tr₁ c₁) (hret : c₁.pc u = .returning r)
    (hlater : Run QueueStep anyStep c₁ tr₂ c₂) :
    Stopped q c₂.sh ∧
    ∀ (t : Tid) (k : Take), k.wait ≠ .never →
      (c₂.pc t = .lockHead q k ∨ c₂.pc t = .parked q k ∨ ∃ last, c₂.pc t = .relock q k last) →
      ∀ tr₃ c₃, Run QueueStep (WithinCall t) c₂ tr₃ c₃ →
        (c₃.pc t).output = [] ∧ Run (Harmless t) (WithinCall t) c₂ tr₃ c₃ ∧
        (∀ r, c₃.pc t = .returning r → r = k.result .interrupted []) ∧
        tr₃.countP (fun e => e.1 = t) ≤ 7 ∧
        ((∃ r, c₃.pc t = .returning r) ∨
          (∃ p' s', QueueStep t (c₃.pc t) c₃.sh none p' s') ∨ WaitsForMutex c₃.sh t q) := by
  have hc := stopInv_run h
  have hc₁ : StopInv c₁ := hstop.invariant StopInv hc fun _ _ _ hI _ hs => hI.step hs
  have hst₁ := stopped_of_returning hc hcall hstop hret
  obtain ⟨hc₂, hst₂⟩ : StopInv c₂ ∧ Stopped q c₂.sh :=
    hlater.invariant (fun c => StopInv c ∧ Stopped q c.sh) ⟨hc₁, hst₁⟩
      fun _ _ _ hI _ hs => ⟨hI.1.step hs, hI.2.step hI.1.settled hs⟩
  refine ⟨hst₂, fun t k hk hpc tr₃ c₃ hrun => ?_⟩
  have hgives : (c₂.pc t).givesUp q k ∧ (c₂.pc t).stepsLeft ≤ 7 := by
    rcases hpc with hpc | hpc | ⟨last, hpc⟩ <;> rw [hpc]
    · exact ⟨⟨rfl, rfl⟩, by simp [Pc.stepsLeft]⟩
    · exact ⟨⟨rfl, rfl⟩, by simp [Pc.stepsLeft]⟩
    · exact ⟨⟨rfl, rfl⟩, by simp [Pc.stepsLeft]⟩
  have hend := givingUp_run hc₂ hst₂ hk hgives.1 hrun
  refine ⟨hend.givesUp.output, hend.harmless, fun r hr => ?_, ?_,
    givesUp_progress hend.inv hend.stopped hend.givesUp⟩
  · have hg := hend.givesUp
    rw [hr] at hg
    exact hg
  · have hsteps := hend.steps
    omega

end Runs

/-- Thread `false` is parked in `wait_and_pop` when thread `true` stops the waiting: it is
woken and returns `interrupted`. -/
theorem stop_waitings_final_parked :
    ∃ (tr₃ : List (Bool × Lab Unit ℕ)) (c₂ c₃ : Config Bool (Pc Unit ℕ) (Shared Bool Unit ℕ)),
      c₂.pc false = .parked () ⟨.forever, .one⟩ ∧ Stopped () c₂.sh ∧
      Run QueueStep (WithinCall false) c₂ tr₃ c₃ ∧ (c₃.pc false).output = [] ∧
      ∃ r, c₃.pc false = .returning r ∧ r = .status .interrupted none := by
  have h₁ := (Run.nil : Run QueueStep anyStep (noQueues Bool Unit ℕ) [] _).snoc
    true trivial (.client (.call _ (.create ())))
  have h₂ := h₁.snoc true trivial (.client (.create (a := 0) rfl rfl))
  have h₃ := h₂.snoc true trivial (.client (.ret _ _))
  have h₄ := h₃.snoc false trivial (.client (.call _ (.waitAndPop ())))
  have h₅ := h₄.snoc false trivial (.pop (.lockHead rfl rfl))
  have h₆ := h₅.snoc false trivial (.pop (.testInterrupt rfl))
  have h₇ := h₆.snoc false trivial (.pop (.lockTailMut rfl rfl))
  have h₈ := h₇.snoc false trivial (.pop (.readTail rfl rfl))
  have h₉ := h₈.snoc false trivial (.pop (.unlockTailMut rfl))
  have h₁₀ := h₉.snoc false trivial (.pop (.testEmpty rfl))
  have h₁₁ := h₁₀.snoc false trivial (.pop (.park rfl))
  have h₁₂ := h₁₁.snoc true trivial (.client (.call _ (.stopWaitings ())))
  have hfree : ∀ (c : Config Bool (Pc Unit ℕ) (Shared Bool Unit ℕ)) (t u : Bool),
      WithinCall t c (u, none) := fun _ _ _ _ => rfl
  have k₀ : Run QueueStep (WithinCall true) _ _ _ := h₁₂.onward
  have k₁ := k₀.snoc true (hfree _ _ _) (.client (.lockStop rfl rfl))
  have k₂ := k₁.snoc true (hfree _ _ _) (.client (.setStop rfl))
  have k₃ := k₂.snoc true (hfree _ _ _) (.client (.unlockStop rfl))
  have k₄ := k₃.snoc true (hfree _ _ _) (.client (.notifyAll rfl))
  have w₀ : Run QueueStep (WithinCall false) _ _ _ := k₄.onward
  have w₁ := w₀.snoc false (hfree _ _ _) (.pop (.notified rfl (by decide)))
  have w₂ := w₁.snoc false (hfree _ _ _) (.pop (.relock rfl rfl))
  have w₃ := w₂.snoc false (hfree _ _ _) (.pop (.lockTailMut rfl rfl))
  have w₄ := w₃.snoc false (hfree _ _ _) (.pop (.readTail rfl rfl))
  have w₅ := w₄.snoc false (hfree _ _ _) (.pop (.unlockTailMut rfl))
  have w₆ := w₅.snoc false (hfree _ _ _) (.pop (.testEmpty rfl))
  have w₇ := w₆.snoc false (hfree _ _ _) (.pop (.unlockHead rfl))
  obtain ⟨hstopped, hpops⟩ := stop_waitings_final h₁₂ rfl k₄ rfl .nil
  obtain ⟨houtput, -, hres, -⟩ := hpops false ⟨.forever, .one⟩ (by decide) (.inr (.inl rfl)) _ _ w₇
  exact ⟨_, _, _, rfl, hstopped, w₇, houtput, _, rfl, hres _ rfl⟩

end UbuntuProjects.TsQueue
