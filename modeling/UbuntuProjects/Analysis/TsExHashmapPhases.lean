import UbuntuProjects.Analysis.TsExHashmapCounts

/-!
# `ts_ex_hashmap`: runs in which `rehash` may find an empty map

A `rehash` that finds all counters at zero swaps in a vector without buckets. Up to the
swap its thread could still give up as if the new vector could not be allocated, so the
configuration is one of the assertions but for the control point of that thread. After the
swap there is no bucket any more, and no call ever changes that.

So every run, with or without such a `rehash`, is in one of three phases (`Phase`): the
assertions, the finite map and the counters are kept (`Kept`), a `rehash` is emptying a
map without entries, or the map has no bucket.
-/

set_option autoImplicit false

namespace UbuntuProjects.TsExHashmap

open Concurrency (Config Run Step Hold SharedMutex anyStep)
open Hashmap
open Maps (KeyEq AssocMap)

variable {Tid K V : Type} [DecidableEq Tid]

/-! ## The phases -/

/-- The finite map has the entries of the buckets and those that a `rehash` has moved. -/
def Contents {E : KeyEq K} (c : Config Tid (Pc K V) (Shared Tid K V)) (m : AssocMap E V) :
    Prop :=
  ∃ moved, Moved c moved ∧ (c.sh.table.copy ++ moved).Perm m.entries

/-- The assertions hold, the entries are those of a finite map, and the counters cover
them. -/
structure Kept (H : LawfulKeys K) (c : Config Tid (Pc K V) (Shared Tid K V)) : Prop where
  outline : (outline Tid H.toKeys).Holds c
  map : ∃ m : AssocMap H.keyEq V, Contents c m
  tally : TallyInv False c

/-- The control points of `rehash` before the swap. -/
def Pc.beforeSwap : Pc K V → Prop
  | .rehashSum _ _ _ | .rehashMake _ _ | .rehashMove _ _ | .rehashSwap _ => True
  | _ => False

/-- A `rehash` has counted nothing and makes no bucket. -/
def Pc.bucketless : Pc K V → Prop
  | .rehashSum _ _ sz | .rehashMake _ sz => sz = 0
  | .rehashMove _ tmp | .rehashSwap tmp => tmp.mBuckets = []
  | _ => True

/-- The configuration in which thread `t` is at another control point. -/
def at' (c : Config Tid (Pc K V) (Shared Tid K V)) (t : Tid) (p : Pc K V) :
    Config Tid (Pc K V) (Shared Tid K V) :=
  ⟨Function.update c.pc t p, c.sh⟩

/-- The phases of a run. -/
inductive Phase (H : LawfulKeys K) (c : Config Tid (Pc K V) (Shared Tid K V)) : Prop
  | kept : Kept H c → Phase H c
  | emptying (t : Tid) : (c.pc t).beforeSwap → (c.pc t).bucketless → c.sh.table.size = 0 →
      Kept H (at' c t (.rehashUnlock .thrown)) → Phase H c
  | bucketless : c.sh.mBuckets = [] → (∀ t, (c.pc t).bucketless) → Phase H c

section Kept

variable {H : LawfulKeys K} {c c' : Config Tid (Pc K V) (Shared Tid K V)} {t : Tid}
  {e : Tid × Lab K V}

/-- A step keeps everything, if `rehash` finds that the counters are not all zero. -/
theorem Kept.step (h : Kept H c) (hne : RehashNonempty c e)
    (hs : Step (HashmapStep H.toKeys) c e c') : Kept H c' := by
  obtain ⟨t, l⟩ := e
  obtain ⟨m, moved, hmoved, hm⟩ := h.map
  have hrel : MapRel c m fun t => (c.pc t).status := ⟨rfl, moved, hmoved, hm⟩
  obtain ⟨-, m', f', -, -, hrel'⟩ := hrel.step h.outline hne hs
  obtain ⟨-, moved', hmoved', hm'⟩ := hrel'
  refine ⟨?_, ⟨m', moved', hmoved', hm'⟩, ?_⟩
  · obtain ⟨_, hI, hA⟩ := h.outline
    obtain ⟨hs⟩ := hs
    rename_i p' s'
    exact outline_of_guarantee hA (hashmapStep_guarantee hI (hA t) hne hs)
  · refine tallyInv_step h.outline h.tally hne ?_
    obtain ⟨hs⟩ := hs
    exact .mk ⟨hs, False.elim⟩

/-- INTERNAL: the counters cover the entries of every bucket while a thread could give up
`rehash`. -/
theorem Kept.covers {r : Result K V} (h : Kept H (at' c t (.rehashUnlock r))) :
    ∀ b ∈ c.sh.table.mBuckets, b.mData.length ≤ b.mSize := by
  have hheld := (h.tally.held t).all
  simp only [at', Function.update_self] at hheld
  exact fun b hb => (hheld trivial b hb).covers

/-- INTERNAL: whoever takes `m_mut` for `rehash` could give up at once. -/
theorem Kept.giveUp {lf : LoadFactor} (h : Kept H c) (hpc : c.pc t = .rehashLock lf)
    (hg : c.sh.mMut.Grants .exclusive) :
    Kept H ⟨Function.update c.pc t (.rehashUnlock .thrown), c.sh.holdMap t .exclusive⟩ := by
  obtain ⟨_, hI, hA⟩ := h.outline
  have ht := hA t
  rw [hpc] at ht
  have hno := SharedMutex.not_exclusive_of_free hg
  have hguar : Guarantee H.toKeys t c.sh (.rehashUnlock .thrown) (c.sh.holdMap t .exclusive) :=
    guarantee_map (.rehashUnlock .thrown) hI ht rfl rfl hg (fun h => by cases h)
      (hI.consistent hno)
  have hex : (c.sh.holdMap t .exclusive).mMut t = .exclusive := hguar.asserts.map
  refine ⟨outline_of_guarantee hA hguar, ?_, ⟨sharedTally_of_exclusive hex, fun u => ?_⟩⟩
  · obtain ⟨m, moved, hmoved, hm⟩ := h.map
    obtain rfl := hmoved.free hno
    exact ⟨m, [], moved_of_exclusive hguar.inv.map hex, hm⟩
  · by_cases hut : u = t
    · subst hut
      simp only [Function.update_self]
      exact ⟨fun i hi => by simp [Pc.bucketHeld] at hi, fun _ => h.tally.shared.all hI hg⟩
    · simpa [Function.update_of_ne hut] using (h.tally.held u).rely (hA u) (hguar.rely u hut)

omit [DecidableEq Tid] in
/-- A new map. -/
theorem kept_newMap (H : LawfulKeys K) {n : ℕ} (hn : 0 < n) : Kept H (newMap Tid K V n) := by
  have hrel : MapRel (newMap Tid K V n) (AssocMap.empty : AssocMap H.keyEq V) fun _ => .idle :=
    mapRel_newMap H.keyEq
  obtain ⟨-, moved, hmoved, hm⟩ := hrel
  exact ⟨outline_newMap H.toKeys hn, ⟨_, moved, hmoved, hm⟩, tallyInv_newMap⟩

end Kept

/-! ## Steps -/

section Steps

variable {H : LawfulKeys K} {c c' : Config Tid (Pc K V) (Shared Tid K V)} {t : Tid}
  {e : Tid × Lab K V} {s s' : Shared Tid K V} {p p' : Pc K V} {l : Lab K V}

/-- INTERNAL: the step of `rehash` that takes `m_mut`. -/
theorem step_rehashLock {lf : LoadFactor}
    (h : HashmapStep H.toKeys t (.rehashLock lf) s l p' s') :
    s.mMut.Grants .exclusive ∧ p' = .rehashSum lf s.begin 0 ∧
      s' = s.holdMap t .exclusive := by
  cases h with
  | client h => cases h
  | key h => cases h
  | bucket h => cases h
  | read h => cases h
  | rehash h =>
    cases h with
    | lock hg => exact ⟨hg, rfl, rfl⟩

omit [DecidableEq Tid] in
/-- INTERNAL: no reference points into a vector without buckets. -/
theorem deref_of_nil (h : s.mBuckets = []) (r : BucketRef) : s.deref r = none := by
  simp [Shared.deref, h]

/-- INTERNAL: without entries nothing is counted. -/
theorem rehashCount_zero (lf : LoadFactor) : rehashCount 0 lf = 0 := by
  simp [rehashCount]

/-- INTERNAL: a step of a `rehash` that empties a map without entries. -/
theorem emptying_step (hp : p.beforeSwap) (hb : p.bucketless) (hzero : s.table.size = 0)
    (hempty : ∀ b ∈ s.table.mBuckets, b.mData = []) (h : HashmapStep H.toKeys t p s l p' s') :
    (s' = s ∧ ((p'.beforeSwap ∧ p'.bucketless) ∨ p' = .rehashUnlock .thrown)) ∨
    (s'.mBuckets = [] ∧ p'.bucketless) := by
  cases h with
  | client h => cases h <;> exact absurd hp id
  | key h => cases h <;> exact absurd hp id
  | bucket h => cases h <;> exact absurd hp id
  | read h => cases h <;> exact absurd hp id
  | rehash h =>
    cases h with
    | @sum _ lf cur sz b hlast hr =>
      refine .inl ⟨rfl, .inl ⟨trivial, ?_⟩⟩
      have hmem : b.mSize ∈ s.table.mBuckets.map Bucket.mSize :=
        List.mem_map_of_mem (List.mem_of_getElem? (Shared.table_getElem? (Shared.deref_eq_some hr).2))
      have hz : b.mSize = 0 := List.sum_eq_zero_iff_forall_eq_nat.mp hzero _ hmem
      show sz + b.mSize = 0
      rw [hz]
      exact hb
    | @sumEnd _ lf cur sz hlast =>
      refine .inl ⟨rfl, .inl ⟨trivial, ?_⟩⟩
      obtain rfl : sz = 0 := hb
      exact rehashCount_zero lf
    | make _ lf sz =>
      obtain rfl : sz = 0 := hb
      exact .inl ⟨rfl, .inl ⟨trivial, rfl⟩⟩
    | makeThrow _ lf sz => exact .inl ⟨rfl, .inr rfl⟩
    | @move _ cur tmp b x oldData hlast hr hdata =>
      have hmem := List.mem_of_getElem? (Shared.table_getElem? (Shared.deref_eq_some hr).2)
      rw [hempty _ hmem] at hdata
      cases hdata
    | moveNext hlast hr hdata => exact .inl ⟨rfl, .inl ⟨trivial, hb⟩⟩
    | moveEnd hlast => exact .inl ⟨rfl, .inl ⟨trivial, hb⟩⟩
    | swap _ tmp =>
      have htmp : tmp.mBuckets = [] := hb
      exact .inr ⟨by simp [htmp], trivial⟩
    | _ => exact absurd hp id

/-- INTERNAL: a map without buckets stays one. -/
theorem bucketless_step (hs : s.mBuckets = []) (hp : p.bucketless)
    (h : HashmapStep H.toKeys t p s l p' s') : s'.mBuckets = [] ∧ p'.bucketless := by
  have hnone : ∀ {r : BucketRef} {b : LockedBucket Tid K V}, s.deref r = some b → False := by
    intro r b hr
    rw [deref_of_nil hs] at hr
    cases hr
  cases h with
  | client h =>
    cases h with
    | call _ op => exact ⟨hs, by cases op <;> trivial⟩
    | ret _ r => exact ⟨hs, trivial⟩
  | key h =>
    cases h with
    | bucketFor _ o =>
      refine ⟨hs, ?_⟩
      unfold afterBucketFor
      split <;> trivial
    | bucketLock hr hg => exact (hnone hr).elim
    | find hr => exact (hnone hr).elim
    | bucketUnlock hr => exact (hnone hr).elim
    | _ => exact ⟨hs, trivial⟩
  | bucket h =>
    cases h with
    | pushThrow _ k m r counted => exact ⟨hs, trivial⟩
    | _ => exact (hnone ‹_›).elim
  | read h =>
    cases h with
    | test _ q x =>
      refine ⟨hs, ?_⟩
      unfold afterReadTest
      split <;> trivial
    | bucketLock hr hg => exact (hnone hr).elim
    | bucket hr => exact (hnone hr).elim
    | bucketUnlock hr => exact (hnone hr).elim
    | _ => exact ⟨hs, trivial⟩
  | rehash h =>
    cases h with
    | sum hlast hr => exact (hnone hr).elim
    | @sumEnd _ lf cur sz hlast =>
      obtain rfl : sz = 0 := hp
      exact ⟨hs, rehashCount_zero lf⟩
    | make _ lf sz =>
      obtain rfl : sz = 0 := hp
      exact ⟨hs, rfl⟩
    | move hlast hr hdata => exact (hnone hr).elim
    | moveNext hlast hr hdata => exact (hnone hr).elim
    | moveEnd hlast => exact ⟨hs, hp⟩
    | swap _ tmp =>
      have htmp : tmp.mBuckets = [] := hp
      exact ⟨by simp [htmp], trivial⟩
    | lock hg => exact ⟨hs, rfl⟩
    | _ => exact ⟨hs, trivial⟩

omit [DecidableEq Tid] in
/-- INTERNAL: a thread that does not hold `m_mut` exclusively is not in `rehash`. -/
theorem bucketless_of_mapHold (h : p.mapHold ≠ .exclusive) : p.bucketless := by
  cases p <;> trivial

/-- INTERNAL: a step out of a configuration that keeps everything. -/
theorem Kept.phase_step (h : Kept H c) (hs : Step (HashmapStep H.toKeys) c e c') :
    Phase H c' := by
  by_cases hne : RehashNonempty c e
  · exact .kept (h.step hne hs)
  · -- a `rehash` takes `m_mut` and is about to count nothing
    unfold RehashNonempty at hne
    push Not at hne
    obtain ⟨lf, hpc, hzero⟩ := hne
    obtain ⟨hs⟩ := hs
    rename_i t l p' s'
    change c.pc t = _ at hpc
    rw [hpc] at hs
    obtain ⟨hg, rfl, rfl⟩ := step_rehashLock hs
    refine .emptying t ?_ ?_ hzero ?_
    · simp [Pc.beforeSwap]
    · simp [Pc.bucketless]
    · unfold at'
      rw [Function.update_idem]
      exact h.giveUp hpc hg

/-- Every step leads from a phase to a phase. -/
theorem Phase.step (h : Phase H c) (hs : Step (HashmapStep H.toKeys) c e c') : Phase H c' := by
  cases h with
  | kept h => exact h.phase_step hs
  | emptying t hbefore hless hzero hkept =>
    have hempty : ∀ b ∈ c.sh.table.mBuckets, b.mData = [] := by
      intro b hb
      have hz : b.mSize = 0 := List.sum_eq_zero_iff_forall_eq_nat.mp hzero _ (List.mem_map_of_mem hb)
      have hle := hkept.covers b hb
      rw [hz] at hle
      exact List.length_eq_zero_iff.mp (Nat.le_zero.mp hle)
    obtain ⟨_, hI, hA⟩ := hkept.outline
    change SharedInv H.toKeys c.sh at hI
    have hex : c.sh.mMut t = .exclusive := by
      have hmap := (hA t).map
      simpa [at', Pc.mapHold] using hmap
    obtain ⟨hs⟩ := hs
    rename_i u l p' s'
    by_cases hut : u = t
    · subst hut
      obtain ⟨rfl, ⟨hbefore', hless'⟩ | rfl⟩ | ⟨hnil, hless'⟩ :=
        emptying_step hbefore hless hzero hempty hs
      · refine .emptying u ?_ ?_ hzero ?_
        · simpa using hbefore'
        · simpa using hless'
        · unfold at'
          rw [Function.update_idem]
          exact hkept
      · exact .kept hkept
      · refine .bucketless hnil fun v => ?_
        by_cases hvu : v = u
        · subst hvu
          simpa using hless'
        · -- the other threads hold nothing
          have hmap : c.sh.mMut v = (c.pc v).mapHold := by
            simpa [at', Function.update_of_ne hvu] using (hA v).map
          have hno : (c.pc v).mapHold ≠ .exclusive := by
            rw [← hmap, (hI.alone hex).1 v hvu]
            decide
          simpa [Function.update_of_ne hvu] using bucketless_of_mapHold hno
    · -- a step of another thread, as if `rehash` had given up
      have hs' : HashmapStep H.toKeys u ((at' c t (.rehashUnlock .thrown)).pc u) c.sh l p' s' := by
        simpa [at', Function.update_of_ne hut] using hs
      have hne : RehashNonempty (at' c t (.rehashUnlock .thrown)) (u, l) := by
        intro lf hpc
        change (at' c t (.rehashUnlock .thrown)).pc u = _ at hpc
        rw [hpc] at hs'
        have hfree := (step_rehashLock hs').1 t
        rw [hex] at hfree
        cases hfree
      have htable := ((hashmapStep_guarantee hI (hA u) hne hs').rely t (Ne.symm hut)).table hex
      have hkept' := hkept.step hne (.mk hs')
      refine .emptying t ?_ ?_ ?_ ?_
      · simpa [Function.update_of_ne (Ne.symm hut)] using hbefore
      · simpa [Function.update_of_ne (Ne.symm hut)] using hless
      · show s'.table.size = 0
        rw [htable]
        exact hzero
      · unfold at' at hkept' ⊢
        rwa [Function.update_comm hut]
  | bucketless hnil hless =>
    obtain ⟨hs⟩ := hs
    rename_i u l p' s'
    obtain ⟨hnil', hless'⟩ := bucketless_step hnil (hless u) hs
    refine .bucketless hnil' fun v => ?_
    by_cases hvu : v = u
    · subst hvu
      simpa using hless'
    · simpa [Function.update_of_ne hvu] using hless v

/-- Every run is in one of the phases. -/
theorem phase_run {n : ℕ} {tr : List (Tid × Lab K V)}
    (h : Run (HashmapStep H.toKeys) anyStep (newMap Tid K V n) tr c) : Phase H c := by
  refine h.invariant (Phase H) ?_ fun c e c' hc _ hs => hc.step hs
  by_cases hn : 0 < n
  · exact .kept (kept_newMap H hn)
  · obtain rfl : n = 0 := Nat.eq_zero_of_not_pos hn
    exact .bucketless rfl fun t => trivial

end Steps

end UbuntuProjects.TsExHashmap
