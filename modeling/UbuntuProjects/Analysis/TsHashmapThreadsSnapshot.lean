import UbuntuProjects.Analysis.TsHashmapThreadsLinearizable

/-!
# `ts_hashmap`: what `copy` writes while other threads work

`copy` holds one mutex at a time, so what it writes need not be the map at any moment. It is
the buckets at successive moments of the call, one moment for each bucket (`Taken`): a bucket
does not change while `copy` shares its mutex. As every key stays in its bucket, no key is
written twice, and a key that was in the map all the time is written
(`copy_is_bucketwise`).
-/

set_option autoImplicit false

namespace UbuntuProjects.TsHashmap

open Concurrency (Config Run Step Passes anyStep)
open Hashmap
open Maps (KeyEq)

variable {Tid K V : Type}

/-! ## Buckets at moments -/

/-- The pairs are the entries of the first `i` buckets, each at its moment. -/
def Taken (cs : List (Config Tid (Pc K V) (Shared Tid K V))) (i : ℕ) (out : List (K × V)) :
    Prop :=
  ∃ (moments : List (Config Tid (Pc K V) (Shared Tid K V))) (ds : List (List (K × V))),
    moments.Sublist cs ∧ moments.length = i ∧ ds.length = i ∧ out = ds.flatten ∧
      ∀ j c, moments[j]? = some c → entriesAt c.sh j = ds[j]?

/-- What a thread in `copy` has written, when the configurations `cs` have been left. -/
def Copying (n : ℕ) (cs : List (Config Tid (Pc K V) (Shared Tid K V))) (s : Shared Tid K V) :
    Pc K V → Prop
  | .copyTest i out => Taken cs i out
  | .copyLock i out => Taken cs i out
  | .copyEntry i it out =>
    ∃ done d, Taken cs i done ∧ entriesAt s i = some d ∧ out = done ++ d.take it
  | .copyUnlock i out => Taken cs (i + 1) out
  | .unlock _ _ r => ∀ out, r ≠ .copied out
  | .returning r => ∀ out, r = .copied out → Taken cs n out
  | _ => True

section Moments

variable {cs : List (Config Tid (Pc K V) (Shared Tid K V))}
  {c : Config Tid (Pc K V) (Shared Tid K V)} {n i : ℕ} {out d : List (K × V)} {p : Pc K V}
  {s s' : Shared Tid K V}

/-- INTERNAL: before the first bucket. -/
theorem taken_zero : Taken cs 0 ([] : List (K × V)) :=
  ⟨[], [], List.nil_sublist _, rfl, rfl, rfl, nofun⟩

/-- INTERNAL: one more moment passes. -/
theorem Taken.later (h : Taken cs i out) (c : Config Tid (Pc K V) (Shared Tid K V)) :
    Taken (cs ++ [c]) i out := by
  obtain ⟨moments, ds, hsub, hrest⟩ := h
  exact ⟨moments, ds, hsub.trans (List.sublist_append_left cs [c]), hrest⟩

/-- INTERNAL: the next bucket is written. -/
theorem Taken.snoc (h : Taken cs i out) (hd : entriesAt c.sh i = some d) :
    Taken (cs ++ [c]) (i + 1) (out ++ d) := by
  obtain ⟨moments, ds, hsub, hlen, hlen', rfl, hall⟩ := h
  refine ⟨moments ++ [c], ds ++ [d], hsub.append (List.Sublist.refl _), by simp [hlen],
    by simp [hlen'], by simp, fun j c' hj => ?_⟩
  by_cases hji : j < i
  · rw [List.getElem?_append_left (by omega)] at hj
    rw [List.getElem?_append_left (by omega)]
    exact hall j c' hj
  · have hlt := (List.getElem?_eq_some_iff.mp hj).1
    rw [List.length_append, List.length_singleton] at hlt
    obtain rfl : j = i := by omega
    rw [List.getElem?_append_right (by omega), hlen, Nat.sub_self] at hj
    rw [List.getElem?_append_right (by omega), hlen', Nat.sub_self]
    obtain rfl := Option.some.inj hj
    exact hd

/-- INTERNAL: a step of another thread. -/
theorem Copying.other (h : Copying n cs s p) (c : Config Tid (Pc K V) (Shared Tid K V))
    (he : ∀ i, p.hold i ≠ .free → entriesAt s' i = entriesAt s i) :
    Copying n (cs ++ [c]) s' p := by
  cases p with
  | copyTest i out => exact Taken.later h c
  | copyLock i out => exact Taken.later h c
  | copyUnlock i out => exact Taken.later h c
  | copyEntry i it out =>
    obtain ⟨done, d, htaken, hd, hout⟩ := h
    refine ⟨done, d, htaken.later c, (he i ?_).trans hd, hout⟩
    rw [Pc.hold_self rfl]
    exact nofun
  | returning r => exact fun out hr => (h out hr).later c
  | unlock x i r => exact h
  | _ => trivial

end Moments

/-! ## Steps of the thread in `copy` -/

section Steps

variable [DecidableEq Tid] {H : LawfulKeys K} {n : ℕ}
  {cs : List (Config Tid (Pc K V) (Shared Tid K V))}
  {c : Config Tid (Pc K V) (Shared Tid K V)} {t : Tid} {p p' : Pc K V}
  {s' : Shared Tid K V}

/-- INTERNAL: `copy` itself. -/
theorem copyStep_copying {l : Lab K V} (hlen : c.sh.mBuckets.length = n)
    (h : Copying n cs c.sh p) (hs : CopyStep t p c.sh l p' s') :
    Copying n (cs ++ [c]) s' p' := by
  cases hs with
  | test _ i out =>
    unfold afterCopyTest
    split
    · rename_i hi
      intro out' hout
      cases hout
      rw [← hlen, ← hi]
      exact Taken.later h c
    · exact Taken.later h c
  | @lock _ i out b hget hg =>
    refine ⟨out, b.mData, Taken.later h c, ?_, by simp⟩
    exact (entriesAt_setBucket hget _ _).trans (if_pos rfl)
  | @entry _ i it out b e hget he =>
    obtain ⟨done, d, htaken, hd, hout⟩ := h
    rw [entriesAt_eq hget] at hd
    obtain rfl := Option.some.inj hd
    refine ⟨done, b.mData, htaken.later c, entriesAt_eq hget, ?_⟩
    rw [List.take_add_one, he, hout, List.append_assoc]
    rfl
  | threw => exact nofun
  | @copied _ i it out b hget he =>
    obtain ⟨done, d, htaken, hd, hout⟩ := h
    rw [entriesAt_eq hget] at hd
    obtain rfl := Option.some.inj hd
    rw [List.take_of_length_le (List.getElem?_eq_none_iff.mp he)] at hout
    rw [hout]
    exact htaken.snoc (entriesAt_eq hget)
  | unlock => exact Taken.later h c

/-- INTERNAL: a step inside the call. -/
theorem hashmapStep_copying (hlen : c.sh.mBuckets.length = n) (h : Copying n cs c.sh p)
    (hs : HashmapStep H.toKeys t p c.sh none p' s') : Copying n (cs ++ [c]) s' p' := by
  cases hs with
  | client hs =>
    cases hs with
    | countRead => exact nofun
  | lock hs =>
    cases hs with
    | bucketFor _ o =>
      unfold afterBucketFor
      split <;> trivial
    | hashThrew => exact nofun
    | @lock _ o i b hget hg => cases o <;> trivial
    | unlock => exact fun out hr => absurd hr (h out)
  | find hs => cases hs <;> first | trivial | exact nofun
  | bucket hs => cases hs <;> first | trivial | exact nofun
  | copy hs => exact copyStep_copying hlen h hs

end Steps

/-! ## The snapshot -/

/-- What is known of every configuration. -/
structure Sound (H : LawfulKeys K) (n : ℕ) (c : Config Tid (Pc K V) (Shared Tid K V)) :
    Prop where
  inv : Inv H n c
  parts : ∃ parts m, Parts H n c parts m

section Snapshot

variable {H : LawfulKeys K} {n : ℕ} {c : Config Tid (Pc K V) (Shared Tid K V)}
  {cs : List (Config Tid (Pc K V) (Shared Tid K V))} {i : ℕ} {out d : List (K × V)}

/-- INTERNAL: the keys in a bucket are distinct. -/
theorem Sound.distinct (h : Sound H n c) (hd : entriesAt c.sh i = some d) :
    H.keyEq.Distinct d := by
  obtain ⟨parts, m, hm⟩ := h.parts
  obtain ⟨d₀, hd₀, hbehind⟩ := hm.bucket i d hd
  have hdistinct : H.keyEq.Distinct d₀ :=
    Maps.distinct_bucket (m.distinct.perm hm.perm.symm) hd₀
  rcases hbehind with rfl | ⟨u, k, it, -, rfl⟩
  · exact hdistinct
  · exact KeyEq.distinct_erase hdistinct k

/-- INTERNAL: the keys in a bucket have the bucket as their place. -/
theorem Sound.place (h : Sound H n c) (hd : entriesAt c.sh i = some d) :
    ∀ e ∈ d, H.hasher e.1 % n = i :=
  h.inv.placed i d ((table_getElem? c.sh i).trans hd)

/-- INTERNAL: the moment of a bucket. -/
theorem Taken.moment (h : Taken cs n out) (hi : i < n) :
    ∃ c ∈ cs, ∃ d, entriesAt c.sh i = some d ∧ ∀ e ∈ d, e ∈ out := by
  obtain ⟨moments, ds, hsub, hlen, hlen', rfl, hall⟩ := h
  have hget : moments[i]? = some moments[i] := List.getElem?_eq_getElem (by omega)
  have hds : ds[i]? = some ds[i] := List.getElem?_eq_getElem (by omega)
  refine ⟨moments[i], hsub.subset (List.getElem_mem _), ds[i], (hall i _ hget).trans hds, ?_⟩
  intro e he
  exact List.mem_flatten.mpr ⟨_, List.getElem_mem _, he⟩

/-- INTERNAL: what has been written has distinct keys. -/
theorem Taken.distinct (h : Taken cs i out) (hsound : ∀ c ∈ cs, Sound H n c) :
    H.keyEq.Distinct out := by
  obtain ⟨moments, ds, hsub, hlen, hlen', rfl, hall⟩ := h
  have hat : ∀ j (hj : j < ds.length), ∃ c : Config Tid (Pc K V) (Shared Tid K V),
      Sound H n c ∧ entriesAt c.sh j = some ds[j] := by
    intro j hj
    have hget : moments[j]? = some moments[j] := List.getElem?_eq_getElem (by omega)
    refine ⟨moments[j], hsound _ (hsub.subset (List.getElem_mem _)), ?_⟩
    rw [hall j _ hget, List.getElem?_eq_getElem hj]
  rw [KeyEq.Distinct, List.pairwise_flatten]
  refine ⟨fun d hd => ?_, List.pairwise_iff_getElem.mpr fun j k hj hk hjk a ha b hb => ?_⟩
  · obtain ⟨j, hj, rfl⟩ := List.mem_iff_getElem.mp hd
    obtain ⟨c, hc, hentries⟩ := hat j hj
    exact hc.distinct hentries
  · -- the buckets of the two keys differ
    obtain ⟨c, hc, hentries⟩ := hat j hj
    obtain ⟨c', hc', hentries'⟩ := hat k hk
    by_contra hsame
    rw [Bool.not_eq_false] at hsame
    have hplace := place_congr H n a.1 b.1 hsame
    rw [hc.place hentries a ha, hc'.place hentries' b hb] at hplace
    omega

variable [DecidableEq Tid]

/-- INTERNAL: every step keeps what is known. -/
theorem Sound.step {c' : Config Tid (Pc K V) (Shared Tid K V)} {e : Tid × Lab K V}
    (hn : 0 < n) (h : Sound H n c) (hs : Step (HashmapStep H.toKeys) c e c') :
    Sound H n c' := by
  obtain ⟨parts, m, hm⟩ := h.parts
  refine ⟨h.inv.step hn hs, ?_⟩
  obtain ⟨hs⟩ := hs
  obtain ⟨-, m', parts', -, -, hm'⟩ := hashmapStep_follows hn h.inv hm hs
  exact ⟨parts', m', hm'⟩

/-- INTERNAL: it is known of every configuration of every run. -/
theorem sound_run (hn : 0 < n) {tr : List (Tid × Lab K V)}
    (h : Run (HashmapStep H.toKeys) anyStep (newMap Tid K V n) tr c) : Sound H n c := by
  refine h.invariant (Sound H n) ⟨inv_newMap, ?_⟩ fun _ _ _ hc _ hs => hc.step hn hs
  have hnew : MapRel H n (newMap Tid K V n) .empty fun _ => .idle := mapRel_newMap
  obtain ⟨-, parts, hm⟩ := hnew
  exact ⟨parts, _, hm⟩

/-- Thread `t` stays inside the call it has made. -/
def Inside (t : Tid) (_ : Config Tid (Pc K V) (Shared Tid K V)) (e : Tid × Lab K V) : Prop :=
  e.1 = t → e.2 = none

/-- **`copy` writes the buckets at successive moments.** In any run, between the moment at
which a thread has called `copy` and the moment at which this call returns: what is written
is one bucket after the other, each as it was at one moment between, and these moments are in
the order of the buckets. The pairs written have distinct keys, and every key that was in the
map at every moment between is written. -/
theorem copy_is_bucketwise (H : LawfulKeys K) (n : ℕ) (hn : 1 ≤ n) (t : Tid)
    {tr : List (Tid × Lab K V)} {c₁ c₂ : Config Tid (Pc K V) (Shared Tid K V)}
    {cs : List (Config Tid (Pc K V) (Shared Tid K V))} {out : List (K × V)}
    (h : Run (HashmapStep H.toKeys) anyStep (newMap Tid K V n) tr c₁)
    (hcall : c₁.pc t = .copyTest 0 [])
    (hpass : Passes (HashmapStep H.toKeys) (Inside t) c₁ cs c₂)
    (hret : c₂.pc t = .returning (.copied out)) :
    (∃ (moments : List (Config Tid (Pc K V) (Shared Tid K V))) (ds : List (List (K × V))),
      moments.Sublist cs ∧ moments.length = n ∧ ds.length = n ∧ out = ds.flatten ∧
        ∀ i c, moments[i]? = some c → entriesAt c.sh i = ds[i]?) ∧
    (out.Pairwise fun a b => H.keyEqual a.1 b.1 = false) ∧
    ∀ k, (∀ c ∈ cs, ∃ e ∈ (table c.sh).copy, H.keyEqual e.1 k) → ∃ e ∈ out, H.keyEqual e.1 k := by
  have hinv : (∀ c ∈ cs, Sound H n c) ∧
      ∃ left, cs = left ++ [c₂] ∧ Copying n left c₂.sh (c₂.pc t) := by
    refine hpass.invariant (fun cs c => (∀ c ∈ cs, Sound H n c) ∧
      ∃ left, cs = left ++ [c] ∧ Copying n left c.sh (c.pc t)) ⟨?_, [], rfl, ?_⟩ ?_
    · intro c hc
      obtain rfl := List.mem_singleton.mp hc
      exact sound_run hn h
    · rw [hcall]
      exact taken_zero
    · rintro cs c e c' hp ⟨hall, left, rfl, hcopying⟩ hinside hs
      have hc := hall c hp.last_mem
      refine ⟨fun d hd => ?_, left ++ [c], rfl, ?_⟩
      · rcases List.mem_append.mp hd with hd | hd
        · exact hall d hd
        · obtain rfl := List.mem_singleton.mp hd
          exact hc.step hn hs
      · obtain ⟨hs⟩ := hs
        rename_i u l p' s'
        by_cases hut : t = u
        · subst hut
          obtain rfl : l = none := hinside rfl
          simpa using hashmapStep_copying hc.inv.length hcopying hs
        · have hother := hcopying.other c fun i hi => by
            refine (hashmapStep_effect hs).entries i fun hex => hi ?_
            exact hc.inv.alone hex hut
          simpa [Function.update_of_ne hut] using hother
  obtain ⟨hsound, left, rfl, hcopying⟩ := hinv
  rw [hret] at hcopying
  have htaken : Taken (left ++ [c₂]) n out := Taken.later (hcopying out rfl) c₂
  refine ⟨htaken, htaken.distinct hsound, fun k hstays => ?_⟩
  -- the key is in its bucket at the moment of the bucket
  obtain ⟨c, hc, d, hd, hout⟩ := htaken.moment (Nat.mod_lt (H.hasher k) hn)
  obtain ⟨e, he, hk⟩ := hstays c hc
  obtain ⟨d', hd', hed'⟩ := List.mem_flatten.mp he
  obtain ⟨j, hj⟩ := List.mem_iff_getElem?.mp hd'
  rw [table_getElem?] at hj
  have hplace : j = H.hasher k % n := by
    rw [← (hsound c hc).place hj e hed']
    exact place_congr H n e.1 k hk
  subst hplace
  obtain rfl := Option.some.inj (hd.symm.trans hj)
  exact ⟨e, hout e hed', hk⟩

/-- A key is inserted into a bucket that `copy` has left, and then another one into a bucket
in front of it: only the second is written. -/
theorem copy_is_bucketwise_overtaken :
    ∃ (cs : List (Config Bool (Pc ℕ ℕ) (Shared Bool ℕ ℕ)))
      (c₁ c₂ : Config Bool (Pc ℕ ℕ) (Shared Bool ℕ ℕ)),
      Passes (HashmapStep natKeys.toKeys) (Inside false) c₁ cs c₂ ∧
      (table c₂.sh).copy = [(4, 1), (5, 2)] ∧ c₂.pc false = .returning (.copied [(5, 2)]) ∧
      Taken cs 2 [(5, 2)] := by
  have h₀ : Run (HashmapStep natKeys.toKeys) anyStep (newMap Bool ℕ ℕ 2) [] _ := .nil
  have h₁ := h₀.snoc false trivial (.client (.call _ .copy))
  have k₀ : Passes (HashmapStep natKeys.toKeys) (Inside false) _ _ _ := h₁.passes
  have k₁ := k₀.snoc false (fun _ => rfl) (.copy (.test _ _ _))
  have k₂ := k₁.snoc false (fun _ => rfl) (.copy (.lock rfl fun u => by cases u <;> decide))
  have k₃ := k₂.snoc false (fun _ => rfl) (.copy (.copied rfl rfl))
  have k₄ := k₃.snoc false (fun _ => rfl) (.copy (.unlock rfl))
  have l₁ := k₄.snoc true nofun (.client (.call _ (.key (.insert 4 1))))
  have l₂ := l₁.snoc true nofun (.lock (.bucketFor _ _))
  have l₃ := l₂.snoc true nofun (.lock (.lock rfl fun u => by cases u <;> rfl))
  have l₄ := l₃.snoc true nofun (.find (.endInsert rfl rfl))
  have l₅ := l₄.snoc true nofun (.bucket (.push rfl))
  have l₆ := l₅.snoc true nofun (.lock (.unlock rfl))
  have l₇ := l₆.snoc true nofun (.client (.ret _ _))
  have m₁ := l₇.snoc true nofun (.client (.call _ (.key (.insert 5 2))))
  have m₂ := m₁.snoc true nofun (.lock (.bucketFor _ _))
  have m₃ := m₂.snoc true nofun (.lock (.lock rfl fun u => by cases u <;> rfl))
  have m₄ := m₃.snoc true nofun (.find (.endInsert rfl rfl))
  have m₅ := m₄.snoc true nofun (.bucket (.push rfl))
  have m₆ := m₅.snoc true nofun (.lock (.unlock rfl))
  have k₅ := m₆.snoc false (fun _ => rfl) (.copy (.test _ _ _))
  have k₆ := k₅.snoc false (fun _ => rfl) (.copy (.lock rfl fun u => by cases u <;> decide))
  have k₇ := k₆.snoc false (fun _ => rfl) (.copy (.entry rfl rfl))
  have k₈ := k₇.snoc false (fun _ => rfl) (.copy (.copied rfl rfl))
  have k₉ := k₈.snoc false (fun _ => rfl) (.copy (.unlock rfl))
  have k₁₀ := k₉.snoc false (fun _ => rfl) (.copy (.test _ _ _))
  exact ⟨_, _, _, k₁₀, rfl, rfl,
    (copy_is_bucketwise natKeys 2 (by decide) false h₁ rfl k₁₀ rfl).1⟩

end Snapshot

end UbuntuProjects.TsHashmap
