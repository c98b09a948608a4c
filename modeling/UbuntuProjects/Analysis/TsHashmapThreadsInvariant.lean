import UbuntuProjects.Analysis.HashmapBuckets
import UbuntuProjects.Concurrency.Program
import UbuntuProjects.Model.TsHashmapThreads

/-!
# `ts_hashmap`: what holds while threads work

A step of a thread takes or releases the mutex of one bucket, changes the entries of a bucket
whose mutex the thread holds exclusively, or changes nothing that is shared (`Effect`). So
what a thread knows of the bucket it is in stays true until it leaves the bucket, and every
entry is in the bucket of its key. This holds in every configuration of every run of a map
with at least one bucket (`inv_run`).
-/

set_option autoImplicit false

namespace UbuntuProjects.TsHashmap

open Concurrency (Config Run Step Hold SharedMutex anyStep)
open Hashmap
open Maps (KeyEq Placed)

variable {Tid K V : Type}

/-! ## Mutexes -/

/-- How the threads hold the mutex of a bucket. -/
def holdAt (s : Shared Tid K V) (i : ℕ) : SharedMutex Tid :=
  match s.mBuckets[i]? with
  | some b => b.mMut
  | none => .unlocked

/-- The entries of a bucket. -/
def entriesAt (s : Shared Tid K V) (i : ℕ) : Option (List (K × V)) :=
  s.mBuckets[i]?.map LockedBucket.mData

/-- The bucket whose mutex a thread holds, and how. -/
def Pc.held : Pc K V → Option (ℕ × Hold)
  | .find o i _ => some (i, bucketHold o)
  | .assign _ _ i _ => some (i, .exclusive)
  | .push _ _ i _ => some (i, .exclusive)
  | .read _ i _ => some (i, .shared)
  | .removeIf _ i _ => some (i, .exclusive)
  | .unlock h i _ => some (i, h)
  | .copyEntry i _ _ => some (i, .shared)
  | .copyUnlock i _ => some (i, .shared)
  | _ => none

/-- How a thread holds the mutex of the bucket `i`. -/
def Pc.hold (p : Pc K V) (i : ℕ) : Hold :=
  match p.held with
  | some (j, h) => if i = j then h else .free
  | none => .free

section Mutexes

variable {s : Shared Tid K V} {i : ℕ} {b : LockedBucket Tid K V} {p : Pc K V}

theorem holdAt_eq (h : s.mBuckets[i]? = some b) : holdAt s i = b.mMut := by
  rw [holdAt, h]

theorem entriesAt_eq (h : s.mBuckets[i]? = some b) : entriesAt s i = some b.mData := by
  rw [entriesAt, h]
  rfl

theorem Pc.hold_of_none (h : p.held = none) (i : ℕ) : p.hold i = .free := by
  rw [Pc.hold, h]

theorem Pc.hold_self {h : Hold} (hp : p.held = some (i, h)) : p.hold i = h := by
  rw [Pc.hold, hp]
  exact if_pos rfl

theorem Pc.hold_of_ne {j : ℕ} {h : Hold} (hp : p.held = some (j, h)) (hij : i ≠ j) :
    p.hold i = .free := by
  rw [Pc.hold, hp]
  exact if_neg hij

/-- A bucket that has been written. -/
theorem holdAt_setBucket (h : s.mBuckets[i]? = some b) (b' : LockedBucket Tid K V) (j : ℕ) :
    holdAt (setBucket s i b') j = if j = i then b'.mMut else holdAt s j := by
  have hi := (List.getElem?_eq_some_iff.mp h).1
  unfold holdAt setBucket
  by_cases hj : j = i
  · subst hj
    simp [List.getElem?_set_self hi]
  · simp [List.getElem?_set_ne (Ne.symm hj), hj]

theorem entriesAt_setBucket (h : s.mBuckets[i]? = some b) (b' : LockedBucket Tid K V) (j : ℕ) :
    entriesAt (setBucket s i b') j = if j = i then some b'.mData else entriesAt s j := by
  have hi := (List.getElem?_eq_some_iff.mp h).1
  unfold entriesAt setBucket
  by_cases hj : j = i
  · subst hj
    simp [List.getElem?_set_self hi]
  · simp [List.getElem?_set_ne (Ne.symm hj), hj]

end Mutexes

/-! ## What a step does -/

/-- What a step of thread `t` does to the mutexes and the entries of the buckets. -/
structure Effect (t : Tid) (p : Pc K V) (s : Shared Tid K V) (p' : Pc K V)
    (s' : Shared Tid K V) : Prop where
  count : s'.mBucketsCount = s.mBucketsCount
  length : s'.mBuckets.length = s.mBuckets.length
  others : ∀ u, u ≠ t → ∀ i, holdAt s' i u = holdAt s i u
  own : (∀ i, holdAt s i t = p.hold i) → ∀ i, holdAt s' i t = p'.hold i
  valid : ∀ i, (holdAt s i).Valid → (holdAt s' i).Valid
  entries : ∀ i, p.hold i ≠ .exclusive → entriesAt s' i = entriesAt s i

section Effects

variable {s s' : Shared Tid K V} {t : Tid} {p p' : Pc K V} {i : ℕ} {b : LockedBucket Tid K V}

/-- INTERNAL: a step that changes the control point only. -/
theorem effect_local (h : p'.held = p.held) : Effect t p s p' s where
  count := rfl
  length := rfl
  others _ _ _ := rfl
  own hown i := by
    rw [hown, Pc.hold, Pc.hold, h]
  valid _ h := h
  entries _ _ := rfl

/-- INTERNAL: a step in a bucket that the thread holds exclusively. -/
theorem effect_entries (hget : s.mBuckets[i]? = some b) (hp : p.held = some (i, .exclusive))
    (hp' : p'.held = some (i, .exclusive)) (d : List (K × V)) :
    Effect t p s p' (setBucket s i { b with mData := d }) := by
  have hhold : ∀ j, holdAt (setBucket s i { b with mData := d }) j = holdAt s j := by
    intro j
    rw [holdAt_setBucket hget]
    split
    · subst_vars
      exact (holdAt_eq hget).symm
    · rfl
  refine ⟨rfl, List.length_set, fun u _ j => by rw [hhold], fun hown j => ?_, fun j hj => ?_,
    fun j hj => ?_⟩
  · rw [hhold, hown, Pc.hold, Pc.hold, hp, hp']
  · rw [hhold]
    exact hj
  · rw [entriesAt_setBucket hget]
    refine if_neg ?_
    rintro rfl
    exact hj (Pc.hold_self hp)

variable [DecidableEq Tid]

/-- INTERNAL: the mutex of a bucket is taken or released. -/
theorem effect_mutex {h : Hold} (hget : s.mBuckets[i]? = some b) (hg : b.mMut.Grants h)
    (hp : ∀ j, j ≠ i → p'.hold j = p.hold j) (hp' : p'.hold i = h) :
    Effect t p s p' (setBucket s i (b.hold t h)) := by
  refine ⟨rfl, List.length_set, fun u hu j => ?_, fun hown j => ?_, fun j hj => ?_,
    fun j _ => ?_⟩
  · rw [holdAt_setBucket hget]
    split
    · subst_vars
      rw [holdAt_eq hget]
      exact Function.update_of_ne hu ..
    · rfl
  · rw [holdAt_setBucket hget]
    split
    · subst_vars
      exact Function.update_self ..
    · rename_i hji
      rw [hown, hp j hji]
  · rw [holdAt_setBucket hget]
    split
    · subst_vars
      rw [holdAt_eq hget] at hj
      exact hj.lock hg
    · exact hj
  · rw [entriesAt_setBucket hget]
    split
    · subst_vars
      exact (entriesAt_eq hget).symm
    · rfl

/-- INTERNAL: a thread that held nothing has taken a mutex. -/
theorem effect_lock {h : Hold} (hget : s.mBuckets[i]? = some b) (hg : b.mMut.Grants h)
    (hp : p.held = none) (hp' : p'.held = some (i, h)) :
    Effect t p s p' (setBucket s i (b.hold t h)) := by
  apply effect_mutex hget hg
  · intro j hj
    rw [Pc.hold_of_none hp, Pc.hold_of_ne hp' hj]
  · exact Pc.hold_self hp'

/-- INTERNAL: a thread has released the mutex that it held. -/
theorem effect_unlock {h : Hold} (hget : s.mBuckets[i]? = some b) (hp : p.held = some (i, h))
    (hp' : p'.held = none) : Effect t p s p' (setBucket s i (b.hold t .free)) := by
  apply effect_mutex (h := .free) hget trivial
  · intro j hj
    rw [Pc.hold_of_none hp', Pc.hold_of_ne hp hj]
  · exact Pc.hold_of_none hp' i

omit [DecidableEq Tid] in
theorem afterLock_held (o : KeyOp K V) (i : ℕ) :
    (afterLock o i).held = some (i, bucketHold o) := by
  cases o <;> rfl

/-- The effect of every step. -/
theorem hashmapStep_effect {H : Keys K} {l : Lab K V} (h : HashmapStep H t p s l p' s') :
    Effect t p s p' s' := by
  cases h with
  | client h =>
    cases h with
    | call _ op => cases op <;> exact effect_local rfl
    | ret | countRead => exact effect_local rfl
  | lock h =>
    cases h with
    | bucketFor _ o =>
      unfold afterBucketFor
      split <;> exact effect_local rfl
    | hashThrew => exact effect_local rfl
    | lock hget hg => exact effect_lock hget hg rfl (afterLock_held _ _)
    | unlock hget => exact effect_unlock hget rfl rfl
  | find h => cases h <;> exact effect_local rfl
  | bucket h =>
    cases h with
    | assign hget | assignThrew hget | push hget | erase hget =>
      exact effect_entries hget rfl rfl _
    | pushThrew | read | readThrew | keep | removed | removeThrew => exact effect_local rfl
  | copy h =>
    cases h with
    | test _ i out =>
      unfold afterCopyTest
      split <;> exact effect_local rfl
    | lock hget hg => exact effect_lock hget hg rfl rfl
    | entry | threw | copied => exact effect_local rfl
    | unlock hget => exact effect_unlock hget rfl rfl

end Effects

/-! ## What a thread knows -/

/-- The bucket of the key is `i`, and its entries are as `P` says. -/
def InBucket (H : LawfulKeys K) (n : ℕ) (s : Shared Tid K V) (k : K) (i : ℕ)
    (P : List (K × V) → Prop) : Prop :=
  H.hasher k % n = i ∧ ∃ d, entriesAt s i = some d ∧ P d

/-- What a thread knows at a control point, of a map with `n` buckets. -/
def Knows (H : LawfulKeys K) (n : ℕ) (s : Shared Tid K V) : Pc K V → Prop
  | .undefined => False
  | .lock o i => H.hasher o.key % n = i
  | .find o i it => (∀ k, o ≠ .remove k) ∧
    InBucket H n s o.key i fun d => H.keyEq.Avoids o.key (d.take it)
  | .assign k _ i it => InBucket H n s k i fun d => findEntry H.toKeys k d = some it
  | .push k _ i _ => InBucket H n s k i fun d => findEntry H.toKeys k d = none
  | .read k i it => InBucket H n s k i fun d => findEntry H.toKeys k d = some it
  | .removeIf k i it => InBucket H n s k i fun d => H.keyEq.Avoids k (d.take it)
  | .unlock _ i _ => i < n
  | .copyTest i _ => i ≤ n
  | .copyLock i _ => i < n
  | .copyEntry i _ _ => i < n
  | .copyUnlock i _ => i < n
  | _ => True

/-- What holds in every configuration. -/
structure Inv (H : LawfulKeys K) (n : ℕ) (c : Config Tid (Pc K V) (Shared Tid K V)) : Prop where
  count : c.sh.mBucketsCount = n
  length : c.sh.mBuckets.length = n
  owns : ∀ t i, holdAt c.sh i t = (c.pc t).hold i
  valid : ∀ i, (holdAt c.sh i).Valid
  placed : Placed (fun k => H.hasher k % n) (table c.sh).mBuckets
  knows : ∀ t, Knows H n c.sh (c.pc t)

section Knowing

variable {H : LawfulKeys K} {n : ℕ} {s s' : Shared Tid K V} {t : Tid} {p p' : Pc K V}
  {l : Lab K V} {k : K} {i : ℕ} {P : List (K × V) → Prop}

/-- INTERNAL: the entries of the bucket that a thread is in. -/
theorem InBucket.imp {Q : List (K × V) → Prop} {b : LockedBucket Tid K V}
    (h : InBucket H n s k i P) (hget : s.mBuckets[i]? = some b)
    (hPQ : P b.mData → Q b.mData) : InBucket H n s k i Q := by
  obtain ⟨hi, d, hd, hP⟩ := h
  rw [entriesAt_eq hget] at hd
  obtain rfl := Option.some.inj hd
  exact ⟨hi, _, entriesAt_eq hget, hPQ hP⟩

/-- INTERNAL: the entries of the bucket that a thread is in, as it finds them. -/
theorem InBucket.get {b : LockedBucket Tid K V} (h : InBucket H n s k i P)
    (hget : s.mBuckets[i]? = some b) : P b.mData := by
  obtain ⟨-, d, hd, hP⟩ := h
  rw [entriesAt_eq hget] at hd
  exact Option.some.inj hd ▸ hP

/-- INTERNAL: what a thread knows of a bucket that nobody has changed. -/
theorem InBucket.frame (h : InBucket H n s k i P) (he : entriesAt s' i = entriesAt s i) :
    InBucket H n s' k i P := by
  obtain ⟨hi, d, hd, hP⟩ := h
  exact ⟨hi, d, he.trans hd, hP⟩

/-- What a thread knows stays true if nobody changes the bucket whose mutex it holds. -/
theorem Knows.frame (h : Knows H n s p)
    (he : ∀ i, p.hold i ≠ .free → entriesAt s' i = entriesAt s i) : Knows H n s' p := by
  cases p with
  | find o i it =>
    refine ⟨h.1, h.2.frame (he i ?_)⟩
    rw [Pc.hold_self rfl]
    cases o <;> exact nofun
  | assign k m i it =>
    refine InBucket.frame h (he i ?_)
    rw [Pc.hold_self rfl]
    exact nofun
  | push k m i orAssign =>
    refine InBucket.frame h (he i ?_)
    rw [Pc.hold_self rfl]
    exact nofun
  | read k i it =>
    refine InBucket.frame h (he i ?_)
    rw [Pc.hold_self rfl]
    exact nofun
  | removeIf k i it =>
    refine InBucket.frame h (he i ?_)
    rw [Pc.hold_self rfl]
    exact nofun
  | _ => exact h

/-- INTERNAL: the bucket that a thread is in is one of the map. -/
theorem InBucket.lt (h : InBucket H n s k i P) (hn : 0 < n) : i < n := by
  rw [← h.1]
  exact Nat.mod_lt _ hn

/-- INTERNAL: the search. -/
theorem findStep_knows (hn : 0 < n) (h : Knows H n s p)
    (hs : FindStep H.toKeys p s l p' s') : Knows H n s' p' := by
  cases hs with
  | next hget he hne => exact ⟨h.1, h.2.imp hget fun hav => hav.take_succ he hne⟩
  | threw | foundInsert => exact h.2.lt hn
  | foundAssign hget he hk => exact h.2.imp hget fun hav => hav.findIdx? he hk
  | foundRead hget he hk => exact h.2.imp hget fun hav => hav.findIdx? he hk
  | endInsert hget he =>
    exact h.2.imp hget fun hav => KeyEq.findIdx?_eq_none.mpr (hav.of_take he)
  | endAssign hget he =>
    exact h.2.imp hget fun hav => KeyEq.findIdx?_eq_none.mpr (hav.of_take he)
  | endRead => exact h.2.lt hn

/-- INTERNAL: the work in the bucket, and `remove_if`. -/
theorem bucketStep_knows (hn : 0 < n) (h : Knows H n s p)
    (hs : BucketStep H.toKeys p s l p' s') : Knows H n s' p' := by
  cases hs with
  | assign | assignThrew | push | pushThrew | read | readThrew | removed | removeThrew =>
    exact InBucket.lt h hn
  | keep hget he hne => exact InBucket.imp h hget fun hav => hav.take_succ he hne
  | @erase _ k i it b e hget he hk =>
    refine ⟨h.1, b.mData.eraseIdx it, ?_, ?_⟩
    · rw [entriesAt_setBucket hget, if_pos rfl]
    · show H.keyEq.Avoids k ((b.mData.eraseIdx it).take it)
      rw [List.take_eraseIdx_eq_take_of_le _ _ _ (Nat.le_refl it)]
      exact InBucket.get h hget

variable [DecidableEq Tid]

/-- INTERNAL: the locks of the calls for one key. -/
theorem lockStep_knows (hn : 0 < n) (hcount : s.mBucketsCount = n)
    (hlength : s.mBuckets.length = n) (h : Knows H n s p)
    (hs : LockStep H.toKeys t p s l p' s') : Knows H n s' p' := by
  cases hs with
  | bucketFor _ o =>
    have hlt : H.hasher o.key % n < n := Nat.mod_lt _ hn
    rw [Buckets.bucketFor, hcount, hlength, if_neg hn.ne', if_pos hlt]
    rfl
  | hashThrew => trivial
  | @lock _ o i b hget hg =>
    have hentries : InBucket H n (setBucket s i (b.hold t (bucketHold o))) o.key i
        fun d => H.keyEq.Avoids o.key (d.take 0) := by
      refine ⟨h, b.mData, ?_, nofun⟩
      rw [entriesAt_setBucket hget, if_pos rfl]
      rfl
    cases o with
    | remove k => exact hentries
    | _ => exact ⟨nofun, hentries⟩
  | unlock => trivial

/-- INTERNAL: `copy`. -/
theorem copyStep_knows (hlength : s.mBuckets.length = n) (h : Knows H n s p)
    (hs : CopyStep t p s l p' s') : Knows H n s' p' := by
  cases hs with
  | test _ i out =>
    unfold afterCopyTest
    split
    · trivial
    · exact lt_of_le_of_ne h (by omega)
  | lock | entry | threw | copied => exact h
  | unlock => exact Nat.succ_le_of_lt h

/-- Every step of a thread leads to where the thread knows what it must. -/
theorem hashmapStep_knows (hn : 0 < n) (hcount : s.mBucketsCount = n)
    (hlength : s.mBuckets.length = n) (h : Knows H n s p)
    (hs : HashmapStep H.toKeys t p s l p' s') : Knows H n s' p' := by
  cases hs with
  | client hs =>
    cases hs with
    | call _ op => cases op <;> first | trivial | exact Nat.zero_le n
    | ret | countRead => trivial
  | lock hs => exact lockStep_knows hn hcount hlength h hs
  | find hs => exact findStep_knows hn h hs
  | bucket hs => exact bucketStep_knows hn h hs
  | copy hs => exact copyStep_knows hlength h hs

omit [DecidableEq Tid] in
/-- INTERNAL: the entries of a bucket, as a part of the table. -/
theorem table_getElem? (s : Shared Tid K V) (i : ℕ) :
    (table s).mBuckets[i]? = entriesAt s i := by
  rw [table, List.getElem?_map]
  rfl

omit [DecidableEq Tid] in
/-- INTERNAL: writing the entries of a bucket. -/
theorem table_setBucket (s : Shared Tid K V) (i : ℕ) (b : LockedBucket Tid K V) :
    (table (setBucket s i b)).mBuckets = (table s).mBuckets.set i b.mData :=
  List.map_set

omit [DecidableEq Tid] in
/-- INTERNAL: the work in the bucket keeps every entry in the bucket of its key. -/
theorem bucketStep_placed (h : Knows H n s p)
    (hplaced : Placed (fun k => H.hasher k % n) (table s).mBuckets)
    (hs : BucketStep H.toKeys p s l p' s') :
    Placed (fun k => H.hasher k % n) (table s').mBuckets := by
  have hold : ∀ {i : ℕ} {b : LockedBucket Tid K V}, s.mBuckets[i]? = some b →
      ∀ e ∈ b.mData, H.hasher e.1 % n = i := fun {i b} hget =>
    hplaced i _ ((table_getElem? s i).trans (entriesAt_eq hget))
  -- the value of an entry may change, its key does not
  have hassign : ∀ {i it : ℕ} {m : V} {b : LockedBucket Tid K V}, s.mBuckets[i]? = some b →
      ∀ e ∈ assignAt it m b.mData, H.hasher e.1 % n = i := by
    intro i it m b hget e he
    obtain ⟨j, hj⟩ := List.mem_iff_getElem?.mp he
    rw [assignAt, List.getElem?_modify] at hj
    obtain ⟨a, ha, rfl⟩ := Option.map_eq_some_iff.mp hj
    have hmem := hold hget a (List.mem_of_getElem? ha)
    split <;> exact hmem
  cases hs with
  | assign hget | assignThrew hget =>
    rw [table_setBucket]
    exact hplaced.set (hassign hget)
  | push hget =>
    rw [table_setBucket]
    refine hplaced.set fun e he => ?_
    rcases List.mem_cons.mp he with rfl | he
    · exact h.1
    · exact hold hget e he
  | erase hget =>
    rw [table_setBucket]
    exact hplaced.set fun e he => hold hget e (List.mem_of_mem_eraseIdx he)
  | pushThrew | read | readThrew | keep | removed | removeThrew => exact hplaced

/-- INTERNAL: every entry stays in the bucket of its key. -/
theorem hashmapStep_placed (h : Knows H n s p)
    (hplaced : Placed (fun k => H.hasher k % n) (table s).mBuckets)
    (hs : HashmapStep H.toKeys t p s l p' s') :
    Placed (fun k => H.hasher k % n) (table s').mBuckets := by
  have hmutex : ∀ {i : ℕ} {b : LockedBucket Tid K V} {x : Hold}, s.mBuckets[i]? = some b →
      Placed (fun k => H.hasher k % n) (table (setBucket s i (b.hold t x))).mBuckets := by
    intro i b x hget
    rw [table_setBucket]
    apply hplaced.set
    intro e he
    exact hplaced i b.mData ((table_getElem? s i).trans (entriesAt_eq hget)) e he
  cases hs with
  | client hs => cases hs <;> exact hplaced
  | lock hs =>
    cases hs with
    | bucketFor | hashThrew => exact hplaced
    | lock hget | unlock hget => exact hmutex hget
  | find hs => cases hs <;> exact hplaced
  | bucket hs => exact bucketStep_placed h hplaced hs
  | copy hs =>
    cases hs with
    | test | entry | threw | copied => exact hplaced
    | lock hget | unlock hget => exact hmutex hget

end Knowing

/-! ## Every run -/

section Runs

variable {H : LawfulKeys K} {n : ℕ} {c c' : Config Tid (Pc K V) (Shared Tid K V)} {t u : Tid}
  {i : ℕ}

/-- Who holds a bucket exclusively is the only one that holds it. -/
theorem Inv.alone (h : Inv H n c) (ht : (c.pc t).hold i = .exclusive) (hu : u ≠ t) :
    (c.pc u).hold i = .free := by
  rw [← h.owns] at ht ⊢
  exact h.valid i t u ht hu

/-- INTERNAL: no call is in progress in a new map. -/
theorem inv_newMap : Inv H n (newMap Tid K V n) := by
  have hfree : ∀ i, holdAt (newMap Tid K V n).sh i = .unlocked := by
    intro i
    rw [holdAt]
    split
    · rename_i b hb
      obtain rfl := List.eq_of_mem_replicate (List.mem_of_getElem? hb)
      rfl
    · rfl
  refine ⟨rfl, List.length_replicate, fun t i => ?_, fun i => ?_, ?_, fun _ => trivial⟩
  · rw [hfree]
    rfl
  · rw [hfree]
    exact Concurrency.SharedMutex.valid_unlocked
  · have htable : (table (newMap Tid K V n).sh).mBuckets = List.replicate n [] :=
      List.map_replicate
    rw [htable]
    exact Maps.placed_replicate _ n

variable [DecidableEq Tid]

/-- INTERNAL: every step keeps the invariant. -/
theorem Inv.step {l : Lab K V} (hn : 0 < n) (h : Inv H n c)
    (hs : Step (HashmapStep H.toKeys) c (t, l) c') : Inv H n c' := by
  obtain ⟨hs⟩ := hs
  rename_i p' s'
  have heffect := hashmapStep_effect hs
  have hown := heffect.own (h.owns t)
  refine ⟨heffect.count.trans h.count, heffect.length.trans h.length, fun u i => ?_,
    fun i => heffect.valid i (h.valid i), hashmapStep_placed (h.knows t) h.placed hs,
    fun u => ?_⟩
  · by_cases hut : u = t
    · subst hut
      simp only [Function.update_self]
      exact hown i
    · simp only [Function.update_of_ne hut]
      exact (heffect.others u hut i).trans (h.owns u i)
  · by_cases hut : u = t
    · subst hut
      simp only [Function.update_self]
      exact hashmapStep_knows hn h.count h.length (h.knows u) hs
    · simp only [Function.update_of_ne hut]
      refine (h.knows u).frame fun i hi => heffect.entries i fun hex => ?_
      exact hi (h.alone hex hut)

/-- The invariant holds in every configuration of every run. -/
theorem inv_run (hn : 0 < n) {G : Config Tid (Pc K V) (Shared Tid K V) → Tid × Lab K V → Prop}
    {tr : List (Tid × Lab K V)} (h : Run (HashmapStep H.toKeys) G (newMap Tid K V n) tr c) :
    Inv H n c :=
  h.invariant (Inv H n) inv_newMap fun _ _ _ hI _ hs => hI.step hn hs

end Runs

end UbuntuProjects.TsHashmap
