import UbuntuProjects.Analysis.TsExHashmapPhases

/-!
# `ts_ex_hashmap`: what `copy` returns while other threads work

`copy` visits one bucket after the other, and the table may change behind its iterator and
in front of it. It shares `m_mut`, so the vector stays, and every key stays in its bucket.
The keys it has written belong to the buckets it has visited (`Scanned`): a key is written
at most once, as it was in the map at the visit, and a key that was in the map all the time
has been written when its bucket was visited.

This holds in every run (`copy_snapshot`). A `rehash` that leaves no bucket waits until
`copy` has finished; a `copy` after it finds nothing, and nothing is in the map.
-/

set_option autoImplicit false

namespace UbuntuProjects.TsExHashmap

open Concurrency (Config Run Step Passes anyStep)
open Hashmap
open Maps (KeyEq AssocMap)

variable {Tid K V : Type}

/-! ## Entries at a moment -/

/-- The map has the value for the key. -/
def EntryAt (E : KeyEq K) (c : Config Tid (Pc K V) (Shared Tid K V)) (k : K) (v : V) : Prop :=
  ∃ m : AssocMap E V, Contents c m ∧ m.lookup k = some v

/-- The key is in the map at every moment. -/
def Stays (E : KeyEq K) (cs : List (Config Tid (Pc K V) (Shared Tid K V))) (k : K) : Prop :=
  ∀ c ∈ cs, ∃ v, EntryAt E c k v

/-- The pairs as a snapshot of the configurations passed: the keys are distinct, every pair
was in the map once, and every key that stayed in the map is there. -/
structure Snapshot (E : KeyEq K) (cs : List (Config Tid (Pc K V) (Shared Tid K V)))
    (out : List (K × V)) : Prop where
  distinct : E.Distinct out
  once : ∀ e ∈ out, ∃ c ∈ cs, EntryAt E c e.1 e.2
  all : ∀ k, Stays E cs k → ∃ e ∈ out, E.same e.1 k

/-- What `copy` has written when it has visited `i` of `len` buckets. -/
structure Scanned (H : LawfulKeys K) (cs : List (Config Tid (Pc K V) (Shared Tid K V)))
    (len : ℕ) (out : List (K × V)) (i : ℕ) : Prop where
  distinct : H.keyEq.Distinct out
  visited : ∀ e ∈ out, H.hasher e.1 % len < i
  once : ∀ e ∈ out, ∃ c ∈ cs, EntryAt H.keyEq c e.1 e.2
  all : ∀ k, Stays H.keyEq cs k → H.hasher k % len < i → ∃ e ∈ out, H.keyEqual e.1 k

/-- What a thread in `copy` has written, and the number of buckets it has visited. -/
def Pc.copying : Pc K V → Option (List (K × V) × ℕ)
  | .readTest .copy x | .readBucketLock .copy x | .readBucket .copy x =>
    some (x.out, x.cursor.index)
  | .readBucketUnlock .copy x => some (x.out, x.cursor.index + 1)
  | _ => none

/-- What a thread is about to return. -/
def Pc.answer : Pc K V → Option (Result K V)
  | .returning r | .bucketUnlock _ _ r | .mapUnlock r | .rehashUnlock r => some r
  | _ => none

/-- The assertion about a thread in `copy`. -/
structure CopyInv (H : LawfulKeys K) (cs : List (Config Tid (Pc K V) (Shared Tid K V)))
    (len : ℕ) (p : Pc K V) : Prop where
  copying : ∀ out i, p.copying = some (out, i) → Scanned H cs len out i
  answer : ∀ out, p.answer = some (.copied out) → Snapshot H.keyEq cs out

section Moments

variable {H : LawfulKeys K} {E : KeyEq K}
  {cs cs' : List (Config Tid (Pc K V) (Shared Tid K V))} {len i : ℕ} {out d : List (K × V)}
  {p : Pc K V}

/-- INTERNAL: a key that stays for longer stays. -/
theorem Stays.mono {k : K} (hsub : ∀ c ∈ cs, c ∈ cs') (h : Stays E cs' k) : Stays E cs k :=
  fun c hc => h c (hsub c hc)

/-- INTERNAL: what has been written stays a snapshot for longer. -/
theorem CopyInv.mono (hsub : ∀ c ∈ cs, c ∈ cs') (h : CopyInv H cs len p) :
    CopyInv H cs' len p := by
  constructor
  · intro out i hp
    obtain ⟨hdistinct, hvisited, honce, hall⟩ := h.copying out i hp
    refine ⟨hdistinct, hvisited, fun e he => ?_, fun k hk => hall k (hk.mono hsub)⟩
    obtain ⟨c, hc, hentry⟩ := honce e he
    exact ⟨c, hsub c hc, hentry⟩
  · intro out hp
    obtain ⟨hdistinct, honce, hall⟩ := h.answer out hp
    refine ⟨hdistinct, fun e he => ?_, fun k hk => hall k (hk.mono hsub)⟩
    obtain ⟨c, hc, hentry⟩ := honce e he
    exact ⟨c, hsub c hc, hentry⟩

/-- INTERNAL: a thread that is not in `copy`. -/
theorem copyInv_of_none (hc : p.copying = none) (ha : ∀ out, p.answer ≠ some (.copied out)) :
    CopyInv H cs len p :=
  ⟨fun out i h => by simp [hc] at h, fun out h => absurd h (ha out)⟩

/-- INTERNAL: a thread that returns what it has found before. -/
theorem CopyInv.pass {p' : Pc K V} {len' : ℕ} (h : CopyInv H cs len p) (hc : p'.copying = none)
    (ha : p'.answer = p.answer) : CopyInv H cs len' p' :=
  ⟨fun out i hp => by simp [hc] at hp, fun out hp => h.answer out (ha ▸ hp)⟩

/-- INTERNAL: before the first bucket. -/
theorem scanned_zero : Scanned H cs len [] 0 :=
  ⟨List.Pairwise.nil, by simp, by simp, fun _ _ hk => absurd hk (Nat.not_lt_zero _)⟩

/-- INTERNAL: one more bucket. -/
theorem Scanned.append (h : Scanned H cs len out i) (hd : H.keyEq.Distinct d)
    (hplace : ∀ e ∈ d, H.hasher e.1 % len = i)
    (honce : ∀ e ∈ d, ∃ c ∈ cs, EntryAt H.keyEq c e.1 e.2)
    (hall : ∀ k, Stays H.keyEq cs k → H.hasher k % len = i → ∃ e ∈ d, H.keyEqual e.1 k) :
    Scanned H cs len (out ++ d) (i + 1) := by
  refine ⟨List.pairwise_append.mpr ⟨h.distinct, hd, fun a ha b hb => ?_⟩, fun e he => ?_,
    fun e he => ?_, fun k hk hlt => ?_⟩
  · -- the buckets of the two keys differ
    by_contra hsame
    rw [Bool.not_eq_false] at hsame
    have hlt := h.visited a ha
    rw [place_congr H len a.1 b.1 hsame, hplace b hb] at hlt
    exact absurd hlt (Nat.lt_irrefl i)
  · rcases List.mem_append.mp he with he | he
    · exact Nat.lt_succ_of_lt (h.visited e he)
    · rw [hplace e he]
      exact Nat.lt_succ_self i
  · rcases List.mem_append.mp he with he | he
    · exact h.once e he
    · exact honce e he
  · rcases Nat.lt_succ_iff_lt_or_eq.mp hlt with hlt | heq
    · obtain ⟨e, he, hsame⟩ := h.all k hk hlt
      exact ⟨e, List.mem_append_left _ he, hsame⟩
    · obtain ⟨e, he, hsame⟩ := hall k hk heq
      exact ⟨e, List.mem_append_right _ he, hsame⟩

/-- INTERNAL: after the last bucket. -/
theorem Scanned.snapshot (h : Scanned H cs len out i)
    (hall : ∀ k, Stays H.keyEq cs k → H.hasher k % len < i) : Snapshot H.keyEq cs out :=
  ⟨h.distinct, h.once, fun k hk => h.all k hk (hall k hk)⟩

end Moments

/-! ## Steps of the thread in `copy` -/

section Steps

variable [DecidableEq Tid] {H : LawfulKeys K}
  {cs : List (Config Tid (Pc K V) (Shared Tid K V))} {s s' : Shared Tid K V} {t : Tid}
  {p p' : Pc K V} {l : Lab K V}

omit [DecidableEq Tid] in
/-- INTERNAL: the search ends in no `copy`. -/
theorem afterFind_copyInv {len : ℕ} (o : KeyOp K V) (r : BucketRef) (b : Bucket K V) :
    CopyInv H cs len (afterFind H.toKeys o r b) := by
  cases o with
  | insert k m =>
    simp only [afterFind]
    split <;> exact copyInv_of_none rfl (by simp [Pc.answer])
  | insertOrAssign k m =>
    simp only [afterFind]
    split <;> exact copyInv_of_none rfl (by simp [Pc.answer])
  | remove k =>
    simp only [afterFind]
    split <;> exact copyInv_of_none rfl (by simp [Pc.answer])
  | mappedFor k => exact copyInv_of_none rfl (by simp [afterFind, Pc.answer])

/-- INTERNAL: a step of the thread, if the test of the loop ends in a snapshot and the
visit of a bucket is recorded. -/
theorem copyInv_step (h : CopyInv H cs s.table.mBuckets.length p)
    (hend : ∀ x, p = .readTest .copy x → x.cursor.index = x.cursor.last →
      Snapshot H.keyEq cs x.out)
    (hvisit : ∀ x b, p = .readBucket .copy x → s.deref x.cursor.toBucketRef = some b →
      Scanned H cs s.table.mBuckets.length (x.out ++ b.mData) (x.cursor.index + 1))
    (hs : HashmapStep H.toKeys t p s l p' s') :
    CopyInv H cs s'.table.mBuckets.length p' := by
  cases hs with
  | client hs =>
    cases hs with
    | call _ op => exact copyInv_of_none (by cases op <;> rfl) (by cases op <;> simp [Op.entry, Pc.answer])
    | ret _ r => exact copyInv_of_none rfl (by simp [Pc.answer])
  | key hs =>
    cases hs with
    | bucketFor _ o =>
      unfold afterBucketFor
      split <;> exact copyInv_of_none rfl (by simp [Pc.answer])
    | find hr => exact afterFind_copyInv _ _ _
    | bucketUnlock hr => exact h.pass rfl rfl
    | mapUnlock _ res => exact h.pass rfl rfl
    | _ => exact copyInv_of_none rfl (by simp [Pc.answer])
  | bucket hs =>
    cases hs with
    | @push _ k m r counted b hr =>
      cases counted <;> exact copyInv_of_none rfl (by simp [afterPush, Pc.answer])
    | _ => exact copyInv_of_none rfl (by simp [Pc.answer])
  | read hs =>
    cases hs with
    | @lock _ q hg =>
      cases q with
      | copy =>
        refine ⟨fun out i hp => ?_, fun out hp => by cases hp⟩
        cases hp
        exact scanned_zero
      | size | loadFactor => exact copyInv_of_none rfl (by simp [Pc.answer])
    | test _ q x =>
      unfold afterReadTest
      split
      · rename_i hlast
        cases q with
        | copy =>
          constructor
          · intro out i hp
            cases hp
          · intro out hp
            cases hp
            exact hend x rfl hlast
        | size | loadFactor => exact copyInv_of_none rfl (by simp [Pc.answer, Reading.result])
      · cases q with
        | copy => exact ⟨h.copying, fun out hp => by cases hp⟩
        | size | loadFactor => exact copyInv_of_none rfl (by simp [Pc.answer])
    | @bucketLock _ q x b hr hg =>
      rw [Shared.setBucket_hold_table (Shared.deref_eq_some hr).2]
      cases q with
      | copy => exact ⟨h.copying, fun out hp => by cases hp⟩
      | size | loadFactor => exact copyInv_of_none rfl (by simp [Pc.answer])
    | @bucket _ q x b hr =>
      cases q with
      | copy =>
        refine ⟨fun out i hp => ?_, fun out hp => by cases hp⟩
        cases hp
        exact hvisit x b rfl hr
      | size | loadFactor => exact copyInv_of_none rfl (by simp [Pc.answer])
    | bucketThrow _ x => exact copyInv_of_none rfl (by simp [Pc.answer])
    | @bucketUnlock _ q x b hr =>
      rw [Shared.setBucket_hold_table (Shared.deref_eq_some hr).2]
      cases q with
      | copy => exact ⟨h.copying, fun out hp => by cases hp⟩
      | size | loadFactor => exact copyInv_of_none rfl (by simp [Pc.answer])
    | countLock hg => exact copyInv_of_none rfl (by simp [Pc.answer])
    | countRead _ => exact copyInv_of_none rfl (by simp [Pc.answer])
  | rehash hs =>
    cases hs with
    | @move _ cur tmp b x oldData hlast hr hdata =>
      unfold afterMove
      split <;> exact copyInv_of_none rfl (by simp [Pc.answer])
    | unlock _ res => exact h.pass rfl rfl
    | _ => exact copyInv_of_none rfl (by simp [Pc.answer])

end Steps

/-! ## Visits -/

section Visits

variable [DecidableEq Tid] {H : LawfulKeys K}
  {cs : List (Config Tid (Pc K V) (Shared Tid K V))}
  {c : Config Tid (Pc K V) (Shared Tid K V)} {t u : Tid} {p' : Pc K V}
  {s' : Shared Tid K V} {l : Lab K V}

omit [DecidableEq Tid] in
/-- INTERNAL: a thread in `copy` shares `m_mut` of the map. -/
theorem mapHold_of_copying {p : Pc K V} (h : p.copying ≠ none) : p.mapHold = .shared := by
  cases p <;> first | rfl | exact absurd rfl h

/-- INTERNAL: the value of a key that has an entry. -/
theorem lookup_of_mem {E : KeyEq K} {m : AssocMap E V} {e : K × V} (h : e ∈ m.entries) :
    m.lookup e.1 = some e.2 := by
  obtain ⟨d, d', hd⟩ := List.append_of_mem h
  have hperm : m.entries.Perm (e :: (d ++ d')) := hd ▸ List.perm_middle
  rw [AssocMap.lookup, KeyEq.find_perm m.distinct hperm]
  simp [KeyEq.find, E.refl]

omit [DecidableEq Tid] in
/-- INTERNAL: while a thread shares `m_mut` nobody is in `rehash`. -/
theorem Kept.not_exclusive (h : Kept H c) (ht : (c.pc t).mapHold = .shared) (u : Tid) :
    c.sh.mMut u ≠ .exclusive := by
  obtain ⟨_, hI, hA⟩ := h.outline
  exact hI.map.not_exclusive_of_shared ((hA t).map.trans ht) u

omit [DecidableEq Tid] in
/-- INTERNAL: while nobody is in `rehash` the entries of the map are those of the buckets. -/
theorem Contents.entries {E : KeyEq K} {m : AssocMap E V}
    (hno : ∀ u, c.sh.mMut u ≠ .exclusive) (h : Contents c m) :
    c.sh.table.copy.Perm m.entries := by
  obtain ⟨moved, hmoved, hm⟩ := h
  obtain rfl := hmoved.free hno
  simpa using hm

omit [DecidableEq Tid] in
/-- INTERNAL: while a thread shares `m_mut`, a key of the map has its entry in its bucket,
and what is in a bucket is an entry of the map. -/
theorem Kept.bucket (h : Kept H c) (ht : (c.pc t).mapHold = .shared) {i : ℕ}
    {b : Bucket K V} (hget : c.sh.table.mBuckets[i]? = some b) :
    H.keyEq.Distinct b.mData ∧
    (∀ e ∈ b.mData, H.hasher e.1 % c.sh.table.mBuckets.length = i) ∧
    (∀ e ∈ b.mData, EntryAt H.keyEq c e.1 e.2) ∧
    ∀ k v, EntryAt H.keyEq c k v → H.hasher k % c.sh.table.mBuckets.length = i →
      ∃ e ∈ b.mData, H.keyEqual e.1 k := by
  obtain ⟨_, hI, hA⟩ := h.outline
  have hdata : (c.sh.table.mBuckets.map Bucket.mData)[i]? = some b.mData := by
    rw [List.getElem?_map, hget]
    rfl
  have hentry : ∀ {m : AssocMap H.keyEq V}, Contents c m → c.sh.table.copy.Perm m.entries :=
    fun hm => hm.entries (h.not_exclusive ht)
  obtain ⟨m, hm⟩ := h.map
  have hperm := hentry hm
  refine ⟨Maps.distinct_bucket (m.distinct.perm hperm.symm) hdata,
    fun e he => hI.placed i b.mData hdata e he, fun e he => ⟨m, hm, ?_⟩, ?_⟩
  · have hmem : e ∈ c.sh.table.copy :=
      List.mem_flatten.mpr ⟨b.mData, List.mem_of_getElem? hdata, he⟩
    exact lookup_of_mem (hperm.mem_iff.mp hmem)
  · rintro k v ⟨m', hm', hlookup⟩ hk
    have hsome : (H.keyEq.find k m'.entries).isSome := by
      rw [← AssocMap.lookup, hlookup]
      rfl
    obtain ⟨e, he, hsame⟩ := KeyEq.find_isSome_iff.mp hsome
    obtain ⟨d, hd, hed⟩ := List.mem_flatten.mp ((hentry hm').mem_iff.mpr he)
    obtain ⟨j, hj⟩ := List.mem_iff_getElem?.mp hd
    -- the entry is in the bucket of its key
    have hji : j = i := by
      rw [← hk, ← hI.placed j d hj e hed]
      exact place_congr H _ e.1 k hsame
    subst hji
    obtain rfl := Option.some.inj (hj.symm.trans hdata)
    exact ⟨e, hed, hsame⟩

/-- INTERNAL: a `rehash` that has no bucket to move to has moved nothing. -/
theorem Pc.moved_of_bucketless {p : Pc K V} (h : p.bucketless) : p.moved = [] := by
  cases p with
  | rehashMove cur tmp | rehashSwap tmp =>
    have htmp : tmp.mBuckets = [] := h
    simp [Pc.moved, TsExHashmap.copy, htmp]
  | _ => rfl

omit [DecidableEq Tid] in
/-- INTERNAL: a map without buckets has no entry. -/
theorem no_entry_of_bucketless {E : KeyEq K} (hnil : c.sh.mBuckets = [])
    (hless : ∀ t, (c.pc t).bucketless) (k : K) (v : V) : ¬EntryAt E c k v := by
  rintro ⟨m, ⟨moved, hmoved, hm⟩, hlookup⟩
  have hcopy : c.sh.table.copy = [] := by
    simp [Shared.table, TsExHashmap.copy, hnil]
  have hmovednil : moved = [] := by
    by_cases hex : ∃ t, c.sh.mMut t = .exclusive
    · obtain ⟨t, ht⟩ := hex
      rw [hmoved.exclusive t ht]
      exact Pc.moved_of_bucketless (hless t)
    · exact hmoved.free fun t ht => hex ⟨t, ht⟩
  rw [hcopy, hmovednil] at hm
  rw [AssocMap.lookup, hm.symm.eq_nil] at hlookup
  cases hlookup

/-- INTERNAL: while a `rehash` may empty the map nobody is in `copy`. -/
theorem not_copying_of_emptying (hbefore : (c.pc u).beforeSwap)
    (hkept : Kept H (at' c u (.rehashUnlock .thrown))) : (c.pc t).copying = none := by
  by_contra hne
  have hsh := mapHold_of_copying hne
  have htu : t ≠ u := by
    rintro rfl
    cases hp : c.pc t with
    | rehashSum lf cur sz | rehashMake lf sz | rehashMove cur tmp | rehashSwap tmp =>
      rw [hp] at hsh
      cases hsh
    | _ =>
      rw [hp] at hbefore
      exact hbefore
  obtain ⟨_, hI, hA⟩ := hkept.outline
  change SharedInv H.toKeys c.sh at hI
  have hex : c.sh.mMut u = .exclusive := by
    simpa [at', Pc.mapHold] using (hA u).map
  have hmap : c.sh.mMut t = (c.pc t).mapHold := by
    simpa [at', Function.update_of_ne htu] using (hA t).map
  rw [hsh, (hI.alone hex).1 t htu] at hmap
  cases hmap

/-- A step of the thread in `copy`. -/
theorem Phase.copyInv_own (h : Phase H c) (hc : c ∈ cs)
    (hcopy : CopyInv H cs c.sh.table.mBuckets.length (c.pc t))
    (hs : HashmapStep H.toKeys t (c.pc t) c.sh l p' s') :
    CopyInv H cs s'.table.mBuckets.length p' := by
  cases h with
  | kept h =>
    obtain ⟨_, hI, hA⟩ := h.outline
    have ht := hA t
    refine copyInv_step hcopy (fun x hp hlast => ?_) (fun x b hp hr => ?_) hs
    · rw [hp] at ht hcopy
      refine (hcopy.copying _ _ rfl).snapshot fun k _ => ?_
      rw [hlast, Cursor.Within.last ht.places]
      exact Nat.mod_lt _ (consistent_of_shared hI ht rfl).pos
    · have hsh : (c.pc t).mapHold = .shared := by
        rw [hp]
        rfl
      obtain ⟨hdistinct, hplace, hentry, hall⟩ :=
        h.bucket hsh (Shared.table_getElem? (Shared.deref_eq_some hr).2)
      rw [hp] at hcopy
      refine (hcopy.copying _ _ rfl).append hdistinct hplace
        (fun e he => ⟨c, hc, hentry e he⟩) fun k hk hki => ?_
      obtain ⟨v, hv⟩ := hk c hc
      exact hall k v hv hki
  | emptying u hbefore hless hzero hkept =>
    have hnot := not_copying_of_emptying (t := t) hbefore hkept
    refine copyInv_step hcopy (fun x hp _ => ?_) (fun x b hp _ => ?_) hs
    · rw [hp] at hnot
      cases hnot
    · rw [hp] at hnot
      cases hnot
  | bucketless hnil hless =>
    refine copyInv_step hcopy (fun x hp _ => ?_) (fun x b hp hr => ?_) hs
    · rw [hp] at hcopy
      refine (hcopy.copying _ _ rfl).snapshot fun k hk => ?_
      obtain ⟨v, hv⟩ := hk c hc
      exact absurd hv (no_entry_of_bucketless hnil hless k v)
    · rw [deref_of_nil hnil] at hr
      cases hr

/-- A step of another thread. -/
theorem Phase.copyInv_other (h : Phase H c) (htu : t ≠ u)
    (hcopy : CopyInv H cs c.sh.table.mBuckets.length (c.pc t))
    (hs : HashmapStep H.toKeys u (c.pc u) c.sh l p' s') :
    CopyInv H cs s'.table.mBuckets.length (c.pc t) := by
  by_cases hnone : (c.pc t).copying = none
  · exact hcopy.pass hnone rfl
  · have hlen : s'.table.mBuckets.length = c.sh.table.mBuckets.length := by
      cases h with
      | kept h =>
        obtain ⟨_, hI, hA⟩ := h.outline
        have hsh : c.sh.mMut t = .shared := (hA t).map.trans (mapHold_of_copying hnone)
        have hne : RehashNonempty c (u, l) := by
          intro lf hpc
          change c.pc u = _ at hpc
          rw [hpc] at hs
          have hfree := (step_rehashLock hs).1 t
          rw [hsh] at hfree
          cases hfree
        exact (((hashmapStep_guarantee hI (hA u) hne hs).rely t htu).frame
          (by rw [hsh]; decide)).2
      | emptying v hbefore hless hzero hkept =>
        exact absurd (not_copying_of_emptying hbefore hkept) hnone
      | bucketless hnil hless =>
        have hnil' := (bucketless_step hnil (hless u) hs).1
        simp [Shared.table, hnil, hnil']
    rw [hlen]
    exact hcopy

end Visits

/-! ## The snapshot -/

/-- Thread `t` stays inside the call it has made. -/
def Inside (t : Tid) (_ : Config Tid (Pc K V) (Shared Tid K V)) (e : Tid × Lab K V) : Prop :=
  e.1 = t → e.2 = none

/-- **`copy` is a weak snapshot.** In any run, between the moment at which a thread has
called `copy` and the moment at which this call returns: the pairs written have distinct
keys, every pair was the entry of its key in the map at some moment between, and every key
that was in the map at every moment between is written. -/
theorem copy_snapshot [DecidableEq Tid] (H : LawfulKeys K) (n : ℕ) (t : Tid)
    {tr : List (Tid × Lab K V)} {c₁ c₂ : Config Tid (Pc K V) (Shared Tid K V)}
    {cs : List (Config Tid (Pc K V) (Shared Tid K V))} {out : List (K × V)}
    (h : Run (HashmapStep H.toKeys) anyStep (newMap Tid K V n) tr c₁)
    (hcall : c₁.pc t = .readLock .copy)
    (hpass : Passes (HashmapStep H.toKeys) (Inside t) c₁ cs c₂)
    (hret : c₂.pc t = .returning (.copied out)) :
    (out.Pairwise fun a b => H.keyEqual a.1 b.1 = false) ∧
    (∀ e ∈ out, ∃ c ∈ cs, EntryAt H.keyEq c e.1 e.2) ∧
    ∀ k, (∀ c ∈ cs, ∃ v, EntryAt H.keyEq c k v) → ∃ e ∈ out, H.keyEqual e.1 k := by
  have hinv : Phase H c₂ ∧ CopyInv H cs c₂.sh.table.mBuckets.length (c₂.pc t) := by
    refine hpass.invariant (fun cs c => Phase H c ∧
      CopyInv H cs c.sh.table.mBuckets.length (c.pc t)) ⟨phase_run h, ?_⟩ ?_
    · rw [hcall]
      exact copyInv_of_none rfl (by simp [Pc.answer])
    · rintro cs c e c' hp ⟨hphase, hcopy⟩ - hs
      refine ⟨hphase.step hs, ?_⟩
      have hsub : ∀ c ∈ cs, c ∈ cs ++ [c'] := fun c hc => List.mem_append_left _ hc
      obtain ⟨hs⟩ := hs
      rename_i u l p' s'
      by_cases hut : t = u
      · subst hut
        have hown := hphase.copyInv_own hp.last_mem hcopy hs
        simpa using hown.mono hsub
      · have hother := hphase.copyInv_other hut hcopy hs
        simpa [Function.update_of_ne hut] using hother.mono hsub
  rw [hret] at hinv
  obtain ⟨hdistinct, honce, hall⟩ := hinv.2.answer out rfl
  exact ⟨hdistinct, honce, hall⟩

/-- A key is inserted after the call of `copy` and before its visit of the bucket. -/
theorem copy_snapshot_insert :
    ∃ (cs : List (Config Bool (Pc ℕ ℕ) (Shared Bool ℕ ℕ)))
      (c₁ c₂ : Config Bool (Pc ℕ ℕ) (Shared Bool ℕ ℕ)),
      Passes (HashmapStep natKeys.toKeys) (Inside false) c₁ cs c₂ ∧
      c₁.sh.table.copy = [] ∧ c₂.pc false = .returning (.copied [(5, 1)]) ∧
      ∃ c ∈ cs, EntryAt natKeys.keyEq c 5 1 := by
  have h₀ : Run (HashmapStep natKeys.toKeys) anyStep (newMap Bool ℕ ℕ 1) [] _ := .nil
  have h₁ := h₀.snoc false trivial (.client (.call _ (.read .copy)))
  have k₀ : Passes (HashmapStep natKeys.toKeys) (Inside false) _ _ _ := h₁.passes
  have k₁ := k₀.snoc true (fun h => by cases h) (.client (.call _ (.key (.insert 5 1))))
  have k₂ := k₁.snoc true (fun h => by cases h)
    (.key (.lock fun u => by cases u <;> decide))
  have k₃ := k₂.snoc true (fun h => by cases h) (.key (.bucketFor _ _))
  have k₄ := k₃.snoc true (fun h => by cases h)
    (.key (.bucketLock rfl fun u => by cases u <;> rfl))
  have k₅ := k₄.snoc true (fun h => by cases h) (.key (.find rfl))
  have k₆ := k₅.snoc false (fun _ => rfl) (.read (.lock fun u => by cases u <;> decide))
  have k₇ := k₆.snoc true (fun h => by cases h) (.bucket (.push rfl))
  have k₈ := k₇.snoc true (fun h => by cases h) (.bucket (.countPushed rfl))
  have k₉ := k₈.snoc true (fun h => by cases h) (.key (.bucketUnlock rfl))
  have k₁₀ := k₉.snoc false (fun _ => rfl) (.read (.test _ _ _))
  have k₁₁ := k₁₀.snoc false (fun _ => rfl)
    (.read (.bucketLock rfl fun u => by cases u <;> decide))
  have k₁₂ := k₁₁.snoc false (fun _ => rfl) (.read (.bucket rfl))
  have k₁₃ := k₁₂.snoc false (fun _ => rfl) (.read (.bucketUnlock rfl))
  have k₁₄ := k₁₃.snoc false (fun _ => rfl) (.read (.test _ _ _))
  have k₁₅ := k₁₄.snoc false (fun _ => rfl) (.key (.mapUnlock _ _))
  have hsnap := copy_snapshot natKeys 1 false h₁ rfl k₁₅ rfl
  exact ⟨_, _, _, k₁₅, rfl, rfl, hsnap.2.1 (5, 1) (List.mem_singleton_self _)⟩

end UbuntuProjects.TsExHashmap
