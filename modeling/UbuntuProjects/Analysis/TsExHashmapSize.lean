import Mathlib.Data.List.Chain
import UbuntuProjects.Analysis.TsExHashmapSnapshot
import UbuntuProjects.Concurrency.Scanning

/-!
# `ts_ex_hashmap`: what `size` returns while other threads work

`size` adds up the counters of the buckets, each under the mutex of its bucket. Keys come
into buckets that it has left and go from buckets that it has not reached, so it may return
a number of keys that the map never had (`size_of_no_moment`).

What it returns is the sum, over the buckets, of the numbers of keys that belonged in them
at one moment each, and the moments are in the order of the buckets (`Tallied`). If the
number of keys never falls during the call, or never rises, then `size` returns what it was
at some moment (`size_moments`).
-/

set_option autoImplicit false

namespace UbuntuProjects.TsExHashmap

open Concurrency (Config Run Step Passes Drifts Direction Trails estimate)
open Hashmap
open Maps (KeyEq AssocMap)

variable {Tid K V : Type}

/-! ## Numbers of keys at a moment -/

/-- The map has `v` keys. -/
def KeysAt (E : KeyEq K) (c : Config Tid (Pc K V) (Shared Tid K V)) (v : ℕ) : Prop :=
  ∃ m : AssocMap E V, Contents c m ∧ m.entries.length = v

/-- The map has `v` keys that belong in bucket `i`. -/
def KeysIn (H : LawfulKeys K) (c : Config Tid (Pc K V) (Shared Tid K V)) (i v : ℕ) : Prop :=
  ∃ m : AssocMap H.keyEq V, Contents c m ∧
    m.entries.countP (fun e => H.hasher e.1 % c.sh.mBuckets.length = i) = v

/-- The number of keys goes in one direction only. -/
def KeysGo (E : KeyEq K) (d : Direction)
    (cs : List (Config Tid (Pc K V) (Shared Tid K V))) : Prop :=
  cs.IsChain fun c c' => ∀ v v', KeysAt E c v → KeysAt E c' v' → d.le v v'

/-- Along the configurations passed, the keys in the first `i` of `len` buckets have been
counted, one bucket after the other, and `sum` is their number. -/
inductive Tallied (H : LawfulKeys K) (len : ℕ) :
    List (Config Tid (Pc K V) (Shared Tid K V)) → ℕ → ℕ → Prop
  | start (cs : List (Config Tid (Pc K V) (Shared Tid K V))) : Tallied H len cs 0 0
  | wait {cs : List (Config Tid (Pc K V) (Shared Tid K V))} {i sum : ℕ}
      (c : Config Tid (Pc K V) (Shared Tid K V)) :
      Tallied H len cs i sum → Tallied H len (cs ++ [c]) i sum
  | visit {cs : List (Config Tid (Pc K V) (Shared Tid K V))} {i sum v : ℕ}
      {c : Config Tid (Pc K V) (Shared Tid K V)} :
      Tallied H len cs i sum → c.sh.mBuckets.length = len → KeysIn H c i v →
      Tallied H len (cs ++ [c]) (i + 1) (sum + v)

/-- The numbers of the entries of the buckets. -/
def Shared.counts (s : Shared Tid K V) : List ℕ :=
  s.table.mBuckets.map fun b => b.mData.length

/-- What `size` has counted when it has visited `i` buckets. -/
structure Counting (H : LawfulKeys K) (cs : List (Config Tid (Pc K V) (Shared Tid K V)))
    (s : Shared Tid K V) (x : Scan K V) (i : ℕ) : Prop where
  last : x.cursor.last = s.mBuckets.length
  tallied : Tallied H s.mBuckets.length cs i x.sz
  trails : ∀ d, KeysGo H.keyEq d cs →
    Trails d (fun v => ∃ c ∈ cs, KeysAt H.keyEq c v) (estimate x.sz i s.counts) s.counts.sum

/-- What `size` is about to return. -/
structure Counted (H : LawfulKeys K) (cs : List (Config Tid (Pc K V) (Shared Tid K V)))
    (r : ℕ) : Prop where
  tallied : ∃ c ∈ cs, Tallied H c.sh.mBuckets.length cs c.sh.mBuckets.length r
  moment : ∀ d, KeysGo H.keyEq d cs → ∃ c ∈ cs, KeysAt H.keyEq c r

/-- The assertion about a thread in `size`. -/
def SizeAt (H : LawfulKeys K) (cs : List (Config Tid (Pc K V) (Shared Tid K V)))
    (s : Shared Tid K V) : Pc K V → Prop
  | .readLock .size => True
  | .readTest .size x | .readBucketLock .size x | .readBucket .size x =>
    Counting H cs s x x.cursor.index
  | .readBucketUnlock .size x => Counting H cs s x (x.cursor.index + 1)
  | .mapUnlock (.size r) | .returning (.size r) => Counted H cs r
  | _ => False

/-! ## Steps that change the numbers -/

section Counts

variable {H : Keys K} {s s' : Shared Tid K V} {u : Tid} {p p' : Pc K V} {l : Lab K V} {i : ℕ}
  {b : LockedBucket Tid K V}

/-- INTERNAL: there is one number for each bucket. -/
theorem Shared.counts_length (s : Shared Tid K V) : s.counts.length = s.mBuckets.length := by
  simp [Shared.counts, Shared.table]

/-- INTERNAL: the number of the entries of one bucket. -/
theorem Shared.counts_getElem? (h : s.mBuckets[i]? = some b) :
    s.counts[i]? = some b.mData.length := by
  simp [Shared.counts, Shared.table, h]

/-- INTERNAL: a step that leaves the table. -/
theorem drifts_of_table (h : s'.table = s.table) : Drifts s.counts s'.counts := by
  unfold Shared.counts
  rw [h]
  exact .stay

/-- INTERNAL: a change in one bucket. -/
theorem drifts_change {f : Bucket K V → Bucket K V} (hget : s.mBuckets[i]? = some b)
    (hle : b.mData.length ≤ (f b.toBucket).mData.length + 1)
    (hge : (f b.toBucket).mData.length ≤ b.mData.length + 1) :
    Drifts s.counts (s.setBucket i (b.change f)).counts := by
  have hset : (s.setBucket i (b.change f)).counts =
      s.counts.set i (f b.toBucket).mData.length := by
    unfold Shared.counts
    rw [Shared.setBucket_table, List.map_set]
    rfl
  rw [hset]
  exact .change (Shared.counts_getElem? hget) hle hge

/-- While nobody holds `m_mut` of the map exclusively, a step changes the number of the
entries of one bucket, by one at most. -/
theorem hashmapStep_drifts [DecidableEq Tid] (hA : Asserts H u p s)
    (hno : ∀ v, s.mMut v ≠ .exclusive) (h : HashmapStep H u p s l p' s') :
    Drifts s.counts s'.counts := by
  cases h with
  | client h => cases h <;> exact .stay
  | key h =>
    cases h with
    | bucketLock hr hg =>
      exact drifts_of_table (Shared.setBucket_hold_table (Shared.deref_eq_some hr).2 u _)
    | bucketUnlock hr =>
      exact drifts_of_table (Shared.setBucket_hold_table (Shared.deref_eq_some hr).2 u _)
    | _ => exact .stay
  | bucket h =>
    cases h with
    | assign hr | assignThrow hr =>
      apply drifts_change (Shared.deref_eq_some hr).2
      · simp [Bucket.assign, assignAt]
      · simp [Bucket.assign, assignAt]
    | push hr =>
      apply drifts_change (Shared.deref_eq_some hr).2
      · simp only [Bucket.pushFront, List.length_cons]
        omega
      · exact Nat.le_refl _
    | pushThrow _ k m r counted => exact .stay
    | @erase _ k r i b hr =>
      have hlen : (b.mData.eraseIdx i).length =
          if i < b.mData.length then b.mData.length - 1 else b.mData.length :=
        List.length_eraseIdx
      apply drifts_change (Shared.deref_eq_some hr).2
      · show _ ≤ (b.mData.eraseIdx i).length + 1
        rw [hlen]
        split <;> omega
      · show (b.mData.eraseIdx i).length ≤ _
        rw [hlen]
        split <;> omega
    | countFirst hr | countPushed hr | countErased hr =>
      apply drifts_change (Shared.deref_eq_some hr).2
      · exact Nat.le_succ _
      · exact Nat.le_succ _
  | read h =>
    cases h with
    | bucketLock hr hg =>
      exact drifts_of_table (Shared.setBucket_hold_table (Shared.deref_eq_some hr).2 u _)
    | bucketUnlock hr =>
      exact drifts_of_table (Shared.setBucket_hold_table (Shared.deref_eq_some hr).2 u _)
    | _ => exact .stay
  | rehash h =>
    cases h with
    | lock hg => exact .stay
    | _ => exact absurd hA.map (hno u)

end Counts

/-! ## Exact counters in every run -/

/-- Everything is kept and the counters are exact, or the map has no bucket. -/
inductive Exact (H : LawfulKeys K) (c : Config Tid (Pc K V) (Shared Tid K V)) : Prop
  | kept : Kept H c → TallyInv True c → Exact H c
  | bucketless : c.sh.mBuckets = [] → (∀ t, (c.pc t).bucketless) → Exact H c

section Exact

variable [DecidableEq Tid] {H : LawfulKeys K} {c c' : Config Tid (Pc K V) (Shared Tid K V)}
  {t u : Tid} {e : Tid × Lab K V} {p' : Pc K V} {s' : Shared Tid K V} {l : Lab K V} {i : ℕ}
  {b : LockedBucket Tid K V}

/-- INTERNAL: every step in which no exception leaves `push_front` after `++m_size`. -/
theorem Exact.step (h : Exact H c) (hg : RehashStored c e)
    (hs : Step (CountingStep True H.toKeys) c e c') : Exact H c' := by
  cases h with
  | kept h htally =>
    have hne := rehashNonempty_of_stored h.outline htally hg hs
    have htally' := tallyInv_step h.outline htally hne hs
    obtain ⟨hstep, -⟩ := hs
    exact .kept (h.step hne (.mk hstep)) htally'
  | bucketless hnil hless =>
    obtain ⟨hstep, -⟩ := hs
    rename_i u l p' s'
    obtain ⟨hnil', hless'⟩ := bucketless_step hnil (hless u) hstep
    refine .bucketless hnil' fun v => ?_
    by_cases hvu : v = u
    · subst hvu
      simpa using hless'
    · simpa [Function.update_of_ne hvu] using hless v

/-- Every run in which no exception leaves `push_front` after `++m_size`. -/
theorem exact_run {n : ℕ} {tr : List (Tid × Lab K V)}
    (h : Run (CountingStep True H.toKeys) RehashStored (newMap Tid K V n) tr c) :
    Exact H c := by
  refine h.invariant (Exact H) ?_ fun c e c' hc hg hs => hc.step hg hs
  by_cases hn : 0 < n
  · exact .kept (kept_newMap H hn) tallyInv_newMap
  · obtain rfl : n = 0 := Nat.eq_zero_of_not_pos hn
    exact .bucketless rfl fun t => trivial

omit [DecidableEq Tid] in
/-- INTERNAL: while a thread shares `m_mut` the map has the keys of all buckets. -/
theorem Exact.keysAt (h : Exact H c) (ht : (c.pc t).mapHold = .shared) :
    KeysAt H.keyEq c c.sh.counts.sum := by
  have hlen : c.sh.table.copy.length = c.sh.counts.sum := by
    unfold TsExHashmap.copy Shared.counts
    rw [List.length_flatten, List.map_map]
    rfl
  cases h with
  | kept h _ =>
    obtain ⟨m, hm⟩ := h.map
    refine ⟨m, hm, ?_⟩
    rw [← (hm.entries (h.not_exclusive ht)).length_eq]
    exact hlen
  | bucketless hnil hless =>
    have hcopy : c.sh.table.copy = [] := by
      simp [Shared.table, TsExHashmap.copy, hnil]
    refine ⟨AssocMap.empty, ⟨[], ⟨fun u _ => ?_, fun _ => rfl⟩, ?_⟩, ?_⟩
    · exact (Pc.moved_of_bucketless (hless u)).symm
    · rw [hcopy]
      exact List.Perm.refl _
    · rw [← hlen, hcopy]
      rfl

omit [DecidableEq Tid] in
/-- INTERNAL: while a thread shares `m_mut` the keys that belong in a bucket are those in
it. -/
theorem Exact.keysIn (h : Exact H c) (ht : (c.pc t).mapHold = .shared)
    (hget : c.sh.mBuckets[i]? = some b) : KeysIn H c i b.mData.length := by
  cases h with
  | kept h _ =>
    obtain ⟨m, hm⟩ := h.map
    obtain ⟨_, hI, -⟩ := h.outline
    have hdata : (c.sh.table.mBuckets.map Bucket.mData)[i]? = some b.mData := by
      rw [List.getElem?_map, Shared.table_getElem? hget]
      rfl
    have hlen : c.sh.table.mBuckets.length = c.sh.mBuckets.length := List.length_map _
    have hplaced := hI.placed
    rw [hlen] at hplaced
    refine ⟨m, hm, ?_⟩
    rw [← (hm.entries (h.not_exclusive ht)).countP_eq]
    exact hplaced.countP_flatten hdata
  | bucketless hnil hless =>
    rw [hnil] at hget
    cases hget

omit [DecidableEq Tid] in
/-- INTERNAL: the counter of a bucket that a thread reads. -/
theorem Exact.counter {x : Scan K V} (h : Exact H c) (ht : c.pc t = .readBucket .size x)
    (hget : c.sh.mBuckets[x.cursor.index]? = some b) : b.mSize = b.mData.length := by
  cases h with
  | kept h htally =>
    have hsh : (c.pc t).mapHold = .shared := by
      rw [ht]
      rfl
    obtain ⟨_, hI, hA⟩ := h.outline
    have hheld : c.sh.holdAt x.cursor.index t = .shared := by
      rw [(hA t).bucket, ht]
      simp [heldAt, Pc.bucketHeld]
    have hcovered := htally.shared (h.not_exclusive hsh) x.cursor.index b.toBucket
      (Shared.table_getElem? hget) ((hI.bucket _).not_exclusive_of_shared hheld)
    exact Nat.le_antisymm (hcovered.exact trivial) hcovered.covers
  | bucketless hnil hless =>
    rw [hnil] at hget
    cases hget

/-- INTERNAL: while a thread shares `m_mut` the steps change the number of the entries of
one bucket, by one at most. -/
theorem Exact.drifts (h : Exact H c) (ht : (c.pc t).mapHold = .shared)
    (hs : HashmapStep H.toKeys u (c.pc u) c.sh l p' s') : Drifts c.sh.counts s'.counts := by
  cases h with
  | kept h _ =>
    obtain ⟨_, hI, hA⟩ := h.outline
    exact hashmapStep_drifts (hA u) (h.not_exclusive ht) hs
  | bucketless hnil hless =>
    have hnil' := (bucketless_step hnil (hless u) hs).1
    have hcounts : s'.counts = c.sh.counts := by
      simp [Shared.counts, Shared.table, hnil, hnil']
    rw [hcounts]
    exact .stay

end Exact

/-! ## Steps during a call of `size` -/

section Moments

variable {H : LawfulKeys K} {cs : List (Config Tid (Pc K V) (Shared Tid K V))}
  {c c' : Config Tid (Pc K V) (Shared Tid K V)} {x : Scan K V} {i r : ℕ} {d : Direction}

/-- INTERNAL: the number of keys goes in one direction from the last configuration to the
next one. -/
theorem KeysGo.last {E : KeyEq K} {v v' : ℕ} (h : KeysGo E d (cs ++ [c']))
    (hlast : cs.getLast? = some c) (hv : KeysAt E c v) (hv' : KeysAt E c' v') :
    KeysGo E d cs ∧ d.le v v' := by
  obtain ⟨hcs, -, hstep⟩ := List.isChain_append.mp h
  exact ⟨hcs, hstep c hlast c' rfl v v' hv hv'⟩

/-- INTERNAL: what `size` returns stays right for longer. -/
theorem Counted.wait (h : Counted H cs r) (c' : Config Tid (Pc K V) (Shared Tid K V)) :
    Counted H (cs ++ [c']) r := by
  constructor
  · obtain ⟨c, hc, htallied⟩ := h.tallied
    exact ⟨c, List.mem_append_left _ hc, htallied.wait c'⟩
  · intro d hgo
    obtain ⟨hcs, -, -⟩ := List.isChain_append.mp hgo
    obtain ⟨c, hc, hv⟩ := h.moment d hcs
    exact ⟨c, List.mem_append_left _ hc, hv⟩

/-- INTERNAL: before the first bucket. -/
theorem counting_zero {s : Shared Tid K V} (hx : x.cursor.last = s.mBuckets.length)
    (hsz : x.sz = 0) (hc : c ∈ cs) (hv : KeysAt H.keyEq c s.counts.sum) :
    Counting H cs s x 0 := by
  refine ⟨hx, ?_, fun d _ => ?_⟩
  · rw [hsz]
    exact .start cs
  · rw [hsz, Concurrency.estimate_zero]
    exact Concurrency.trails_self ⟨c, hc, hv⟩

/-- INTERNAL: a step that changes the number of the entries of one bucket, by one at
most. -/
theorem Counting.next (h : Counting H cs c.sh x i) (hlast : cs.getLast? = some c)
    (hdrift : Drifts c.sh.counts c'.sh.counts) (hv : KeysAt H.keyEq c c.sh.counts.sum)
    (hv' : KeysAt H.keyEq c' c'.sh.counts.sum) : Counting H (cs ++ [c']) c'.sh x i := by
  have hlen : c'.sh.mBuckets.length = c.sh.mBuckets.length := by
    rw [← Shared.counts_length, hdrift.length, Shared.counts_length]
  refine ⟨h.last.trans hlen.symm, ?_, fun d hgo => ?_⟩
  · rw [hlen]
    exact h.tallied.wait c'
  · obtain ⟨hcs, hle⟩ := hgo.last hlast hv hv'
    have hseen : Trails d (fun v => ∃ c ∈ cs ++ [c'], KeysAt H.keyEq c v)
        (estimate x.sz i c.sh.counts) c.sh.counts.sum :=
      (h.trails d hcs).mono fun v ⟨c, hc, hv⟩ => ⟨c, List.mem_append_left _ hc, hv⟩
    exact hseen.drift hdrift hle ⟨c', List.mem_append_right _ (List.mem_singleton_self c'), hv'⟩

/-- INTERNAL: adding the counter of the next bucket. -/
theorem Counting.visit {b : LockedBucket Tid K V} (h : Counting H cs c.sh x i)
    (hlast : cs.getLast? = some c) (hsh : c'.sh = c.sh)
    (hget : c.sh.mBuckets[i]? = some b) (hcount : b.mSize = b.mData.length)
    (hin : KeysIn H c' i b.mData.length) (hv : KeysAt H.keyEq c c.sh.counts.sum)
    (hv' : KeysAt H.keyEq c' c'.sh.counts.sum) :
    Counting H (cs ++ [c']) c'.sh (Reading.size.visit x b.toBucket) (i + 1) := by
  have hnext : Counting H (cs ++ [c']) c'.sh x i := by
    refine h.next hlast ?_ hv hv'
    rw [hsh]
    exact .stay
  have hsz : (Reading.size.visit x b.toBucket).sz = x.sz + b.mData.length := by
    rw [← hcount]
    rfl
  refine ⟨hnext.last, ?_, fun d hgo => ?_⟩
  · rw [hsz, hsh]
    exact .visit h.tallied (by rw [hsh]) hin
  · have htrails := hnext.trails d hgo
    rw [hsz, Concurrency.estimate_visit (hsh ▸ Shared.counts_getElem? hget)]
    exact htrails

/-- INTERNAL: behind the last bucket. -/
theorem Counting.counted (h : Counting H cs c.sh x i) (hc : c ∈ cs)
    (hi : i = x.cursor.last) : Counted H cs x.sz := by
  have hlen : i = c.sh.mBuckets.length := hi.trans h.last
  constructor
  · refine ⟨c, hc, ?_⟩
    rw [← hlen]
    have htallied := h.tallied
    rwa [← hlen] at htallied
  · intro d hgo
    have hfound := (h.trails d hgo).found
    rw [hlen, ← Shared.counts_length, Concurrency.estimate_length] at hfound
    exact hfound

/-- INTERNAL: a thread in `size` while another one takes a step. -/
theorem SizeAt.mono {cs' : List (Config Tid (Pc K V) (Shared Tid K V))}
    {s s' : Shared Tid K V} {p : Pc K V} (h : SizeAt H cs s p)
    (hcounting : p.mapHold = .shared → ∀ x i, Counting H cs s x i → Counting H cs' s' x i)
    (hcounted : ∀ r, Counted H cs r → Counted H cs' r) : SizeAt H cs' s' p := by
  cases p with
  | readLock q =>
    cases q with
    | size => trivial
    | copy | loadFactor => exact h
  | readTest q x | readBucketLock q x | readBucket q x | readBucketUnlock q x =>
    cases q with
    | size => exact hcounting rfl x _ h
    | copy | loadFactor => exact h
  | mapUnlock r | returning r =>
    cases r with
    | size r => exact hcounted r h
    | _ => exact h
  | _ => exact h

end Moments

section Steps

variable [DecidableEq Tid] {H : LawfulKeys K}
  {cs : List (Config Tid (Pc K V) (Shared Tid K V))}
  {c c' : Config Tid (Pc K V) (Shared Tid K V)} {t u : Tid} {p p' : Pc K V}
  {s' : Shared Tid K V} {l : Lab K V}

/-- A step of another thread. -/
theorem SizeAt.other (h : SizeAt H cs c.sh (c.pc t)) (hlast : cs.getLast? = some c)
    (hexact : Exact H c) (hexact' : Exact H c') (hpc : c'.pc t = c.pc t)
    (hs : HashmapStep H.toKeys u (c.pc u) c.sh l p' c'.sh) :
    SizeAt H (cs ++ [c']) c'.sh (c.pc t) := by
  refine h.mono (fun ht x i hcounting => ?_) fun r hcounted => hcounted.wait c'
  exact hcounting.next hlast (hexact.drifts ht hs) (hexact.keysAt ht)
    (hexact'.keysAt (hpc ▸ ht))

/-- A step of the thread in `size`. -/
theorem SizeAt.own (h : SizeAt H cs c.sh p) (hlast : cs.getLast? = some c)
    (hexact : Exact H c) (hexact' : Exact H c') (hp : c.pc t = p) (hp' : c'.pc t = p')
    (hsh : c'.sh = s') (hs : HashmapStep H.toKeys t p c.sh none p' s') :
    SizeAt H (cs ++ [c']) s' p' := by
  have hmem : c ∈ cs := List.mem_of_getLast? hlast
  have hmem' : c' ∈ cs ++ [c'] := List.mem_append_right _ (List.mem_singleton_self c')
  have hkeys : p.mapHold = .shared → KeysAt H.keyEq c c.sh.counts.sum := fun hm =>
    hexact.keysAt (hp ▸ hm)
  have hkeys' : p'.mapHold = .shared → KeysAt H.keyEq c' c'.sh.counts.sum := fun hm =>
    hexact'.keysAt (hp' ▸ hm)
  -- a step from one control point that shares `m_mut` to another
  have hnext : ∀ {x i}, p.mapHold = .shared → p'.mapHold = .shared →
      Counting H cs c.sh x i → Counting H (cs ++ [c']) s' x i := by
    intro x i hm hm' hcounting
    have hs' : HashmapStep H.toKeys t (c.pc t) c.sh none p' c'.sh := by
      rw [hp, hsh]
      exact hs
    have hdrift : Drifts c.sh.counts c'.sh.counts := hexact.drifts (t := t) (hp ▸ hm) hs'
    rw [← hsh]
    exact hcounting.next hlast hdrift (hkeys hm) (hkeys' hm')
  cases hs with
  | client hs => cases hs
  | key hs =>
    cases hs with
    | mapUnlock _ res =>
      cases res with
      | size r => exact Counted.wait h c'
      | _ => exact h.elim
    | _ => exact h.elim
  | bucket hs => cases hs <;> exact h.elim
  | rehash hs => cases hs <;> exact h.elim
  | read hs =>
    cases hs with
    | @lock _ q hg =>
      cases q with
      | size => exact counting_zero rfl rfl hmem' (hsh ▸ hkeys' rfl)
      | copy | loadFactor => exact h.elim
    | test _ q x =>
      cases q with
      | size =>
        unfold afterReadTest
        split
        · rename_i hend
          exact (Counting.counted h hmem hend).wait c'
        · rename_i hend
          have hcounting : Counting H cs c.sh x x.cursor.index := h
          refine hnext rfl ?_ hcounting
          simp [afterReadTest, hend, Pc.mapHold]
      | copy | loadFactor => exact h.elim
    | @bucketLock _ q x b hr hg =>
      cases q with
      | size => exact hnext rfl rfl h
      | copy | loadFactor => exact h.elim
    | @bucket _ q x b hr =>
      cases q with
      | size =>
        have hget := (Shared.deref_eq_some hr).2
        have hcount := hexact.counter hp hget
        have hin : KeysIn H c' x.cursor.index b.mData.length := by
          refine hexact'.keysIn (t := t) (hp' ▸ rfl) ?_
          rw [hsh]
          exact hget
        have hvisit := Counting.visit h hlast hsh hget hcount hin (hkeys rfl) (hkeys' rfl)
        rw [hsh] at hvisit
        exact hvisit
      | copy | loadFactor => exact h.elim
    | bucketThrow _ x => exact h.elim
    | @bucketUnlock _ q x b hr =>
      cases q with
      | size =>
        obtain ⟨hend, htallied, htrails⟩ := hnext rfl rfl h
        exact ⟨hend, htallied, htrails⟩
      | copy | loadFactor => exact h.elim
    | countLock hg => exact h.elim
    | countRead _ => exact h.elim

end Steps

/-! ## The result of `size` -/

/-- **`size` adds up numbers of different moments.** In any run of a map in which every
`rehash` that takes `m_mut` finds an entry and no exception leaves `push_front` in
`insert_or_assign`, between the moment at which a thread has called `size` and the moment at
which this call returns: the result is the sum, over the buckets, of the numbers of keys
that belonged in them at one moment each, the moments being in the order of the buckets. It
is the number of keys that the map had at some moment if that number never falls meanwhile,
or never rises. -/
theorem size_moments [DecidableEq Tid] (H : LawfulKeys K) (n : ℕ) (t : Tid)
    {tr : List (Tid × Lab K V)} {c₁ c₂ : Config Tid (Pc K V) (Shared Tid K V)}
    {cs : List (Config Tid (Pc K V) (Shared Tid K V))} {r : ℕ}
    (h : Run (CountingStep True H.toKeys) RehashStored (newMap Tid K V n) tr c₁)
    (hcall : c₁.pc t = .readLock .size)
    (hpass : Passes (CountingStep True H.toKeys) (fun c e => RehashStored c e ∧ Inside t c e)
      c₁ cs c₂)
    (hret : c₂.pc t = .returning (.size r)) :
    (∃ c ∈ cs, Tallied H c.sh.mBuckets.length cs c.sh.mBuckets.length r) ∧
    ((cs.IsChain fun c c' =>
      ∀ v v', KeysAt H.keyEq c v → KeysAt H.keyEq c' v' → v ≤ v') →
      ∃ c ∈ cs, KeysAt H.keyEq c r) ∧
    ((cs.IsChain fun c c' =>
      ∀ v v', KeysAt H.keyEq c v → KeysAt H.keyEq c' v' → v' ≤ v) →
      ∃ c ∈ cs, KeysAt H.keyEq c r) := by
  have hinv : Exact H c₂ ∧ SizeAt H cs c₂.sh (c₂.pc t) := by
    refine hpass.invariant (fun cs c => Exact H c ∧ SizeAt H cs c.sh (c.pc t))
      ⟨exact_run h, ?_⟩ ?_
    · rw [hcall]
      trivial
    · rintro cs c e c' hp ⟨hexact, hsize⟩ ⟨hstored, hinside⟩ hs
      have hexact' := hexact.step hstored hs
      refine ⟨hexact', ?_⟩
      obtain ⟨hstep, -⟩ := hs
      rename_i u l p' s'
      by_cases hut : u = t
      · subst hut
        obtain rfl : l = none := hinside rfl
        have hpc : Function.update c.pc u p' u = p' := Function.update_self ..
        show SizeAt H _ s' (Function.update c.pc u p' u)
        rw [hpc]
        exact hsize.own hp.getLast? hexact hexact' rfl hpc rfl hstep
      · have hpc : Function.update c.pc u p' t = c.pc t :=
          Function.update_of_ne (Ne.symm hut) ..
        show SizeAt H _ s' (Function.update c.pc u p' t)
        rw [hpc]
        exact hsize.other hp.getLast? hexact hexact' hpc hstep
  rw [hret] at hinv
  obtain ⟨htallied, hmoment⟩ := hinv.2
  exact ⟨htallied, hmoment .up, hmoment .down⟩

/-- A key is inserted after the call of `size` and before its visit of the bucket. -/
theorem size_moments_insert :
    ∃ (cs : List (Config Bool (Pc ℕ ℕ) (Shared Bool ℕ ℕ)))
      (c₁ c₂ : Config Bool (Pc ℕ ℕ) (Shared Bool ℕ ℕ)),
      Passes (CountingStep True natKeys.toKeys)
        (fun c e => RehashStored c e ∧ Inside false c e) c₁ cs c₂ ∧
      c₁.sh.table.copy = [] ∧ c₂.pc false = .returning (.size 1) ∧
      ∃ c ∈ cs, Tallied natKeys c.sh.mBuckets.length cs c.sh.mBuckets.length 1 := by
  have h₀ : Run (CountingStep True natKeys.toKeys) RehashStored (newMap Bool ℕ ℕ 1) [] _ := .nil
  have h₁ := h₀.snoc false (fun lf h => by cases h)
    ⟨.client (.call _ (.read .size)), not_pushThrows fun k m r h => by cases h⟩
  have k₀ : Passes (CountingStep True natKeys.toKeys)
    (fun c e => RehashStored c e ∧ Inside false c e) _ _ _ := h₁.passes
  have k₁ := k₀.snoc true ⟨fun lf h => (by cases h), fun h => by cases h⟩
    ⟨.client (.call _ (.key (.insert 5 1))), not_pushThrows fun k m r h => by cases h⟩
  have k₂ := k₁.snoc true ⟨fun lf h => (by cases h), fun h => by cases h⟩
    ⟨.key (.lock fun u => by cases u <;> decide), not_pushThrows fun k m r h => by cases h⟩
  have k₃ := k₂.snoc true ⟨fun lf h => (by cases h), fun h => by cases h⟩
    ⟨.key (.bucketFor _ _), not_pushThrows fun k m r h => by cases h⟩
  have k₄ := k₃.snoc true ⟨fun lf h => (by cases h), fun h => by cases h⟩
    ⟨.key (.bucketLock rfl fun u => by cases u <;> rfl), not_pushThrows fun k m r h => by cases h⟩
  have k₅ := k₄.snoc true ⟨fun lf h => (by cases h), fun h => by cases h⟩
    ⟨.key (.find rfl), not_pushThrows fun k m r h => by cases h⟩
  have k₆ := k₅.snoc false ⟨fun lf h => (by cases h), fun _ => rfl⟩
    ⟨.read (.lock fun u => by cases u <;> decide), not_pushThrows fun k m r h => by cases h⟩
  have k₇ := k₆.snoc true ⟨fun lf h => (by cases h), fun h => by cases h⟩
    ⟨.bucket (.push rfl), not_pushThrows fun k m r h => by cases h⟩
  have k₈ := k₇.snoc true ⟨fun lf h => (by cases h), fun h => by cases h⟩
    ⟨.bucket (.countPushed rfl), not_pushThrows fun k m r h => by cases h⟩
  have k₉ := k₈.snoc true ⟨fun lf h => (by cases h), fun h => by cases h⟩
    ⟨.key (.bucketUnlock rfl), not_pushThrows fun k m r h => by cases h⟩
  have k₁₀ := k₉.snoc false ⟨fun lf h => (by cases h), fun _ => rfl⟩
    ⟨.read (.test _ _ _), not_pushThrows fun k m r h => by cases h⟩
  have k₁₁ := k₁₀.snoc false ⟨fun lf h => (by cases h), fun _ => rfl⟩
    ⟨.read (.bucketLock rfl fun u => by cases u <;> decide),
      not_pushThrows fun k m r h => by cases h⟩
  have k₁₂ := k₁₁.snoc false ⟨fun lf h => (by cases h), fun _ => rfl⟩
    ⟨.read (.bucket rfl), not_pushThrows fun k m r h => by cases h⟩
  have k₁₃ := k₁₂.snoc false ⟨fun lf h => (by cases h), fun _ => rfl⟩
    ⟨.read (.bucketUnlock rfl), not_pushThrows fun k m r h => by cases h⟩
  have k₁₄ := k₁₃.snoc false ⟨fun lf h => (by cases h), fun _ => rfl⟩
    ⟨.read (.test _ _ _), not_pushThrows fun k m r h => by cases h⟩
  have k₁₅ := k₁₄.snoc false ⟨fun lf h => (by cases h), fun _ => rfl⟩
    ⟨.key (.mapUnlock _ _), not_pushThrows fun k m r h => by cases h⟩
  have hsize := size_moments natKeys 1 false h₁ rfl k₁₅ rfl
  exact ⟨_, _, _, k₁₅, rfl, rfl, hsize.1⟩

/-- INTERNAL: a map with an entry in a bucket has a key. -/
theorem not_keysAt_zero {E : KeyEq K} {c : Config Tid (Pc K V) (Shared Tid K V)}
    (h : c.sh.table.copy ≠ []) : ¬KeysAt E c 0 := by
  rintro ⟨m, ⟨moved, -, hm⟩, hlen⟩
  rw [List.length_eq_zero_iff.mp hlen] at hm
  exact h (List.append_eq_nil_iff.mp hm.eq_nil).1

/-- A map has the key 1 in its second bucket. After `size` has read the first bucket the key
0 comes into it, and then the key 1 goes: `size` returns 0, and the map had a key at every
moment. -/
theorem size_of_no_moment :
    ∃ (tr : List (Bool × Lab ℕ ℕ)) (c₁ c₂ : Config Bool (Pc ℕ ℕ) (Shared Bool ℕ ℕ))
      (cs : List (Config Bool (Pc ℕ ℕ) (Shared Bool ℕ ℕ))),
      Run (CountingStep True natKeys.toKeys) RehashStored (newMap Bool ℕ ℕ 2) tr c₁ ∧
      c₁.pc false = .readLock .size ∧
      Passes (CountingStep True natKeys.toKeys)
        (fun c e => RehashStored c e ∧ Inside false c e) c₁ cs c₂ ∧
      c₂.pc false = .returning (.size 0) ∧ ∀ c ∈ cs, ¬KeysAt natKeys.keyEq c 0 := by
  have h₀ : Run (CountingStep True natKeys.toKeys) RehashStored (newMap Bool ℕ ℕ 2) [] _ := .nil
  have h₁ := h₀.snoc true (fun lf h => by cases h)
    ⟨.client (.call _ (.key (.insert 1 1))), not_pushThrows fun k m r h => by cases h⟩
  have h₂ := h₁.snoc true (fun lf h => by cases h)
    ⟨.key (.lock fun u => by cases u <;> decide), not_pushThrows fun k m r h => by cases h⟩
  have h₃ := h₂.snoc true (fun lf h => by cases h)
    ⟨.key (.bucketFor _ _), not_pushThrows fun k m r h => by cases h⟩
  have h₄ := h₃.snoc true (fun lf h => by cases h)
    ⟨.key (.bucketLock rfl fun u => by cases u <;> rfl), not_pushThrows fun k m r h => by cases h⟩
  have h₅ := h₄.snoc true (fun lf h => by cases h)
    ⟨.key (.find rfl), not_pushThrows fun k m r h => by cases h⟩
  have h₆ := h₅.snoc true (fun lf h => by cases h)
    ⟨.bucket (.push rfl), not_pushThrows fun k m r h => by cases h⟩
  have h₇ := h₆.snoc true (fun lf h => by cases h)
    ⟨.bucket (.countPushed rfl), not_pushThrows fun k m r h => by cases h⟩
  have h₈ := h₇.snoc true (fun lf h => by cases h)
    ⟨.key (.bucketUnlock rfl), not_pushThrows fun k m r h => by cases h⟩
  have h₉ := h₈.snoc true (fun lf h => by cases h)
    ⟨.key (.mapUnlock _ _), not_pushThrows fun k m r h => by cases h⟩
  have h₁₀ := h₉.snoc true (fun lf h => by cases h)
    ⟨.client (.ret _ _), not_pushThrows fun k m r h => by cases h⟩
  have h₁₁ := h₁₀.snoc false (fun lf h => by cases h)
    ⟨.client (.call _ (.read .size)), not_pushThrows fun k m r h => by cases h⟩
  have k₀ : Passes (CountingStep True natKeys.toKeys)
    (fun c e => (RehashStored c e ∧ Inside false c e) ∧ c.sh.table.copy ≠ []) _ _ _ :=
    h₁₁.passes
  have k₁ := k₀.snoc false
    ⟨⟨fun lf h => (by cases h), fun _ => rfl⟩, List.cons_ne_nil _ _⟩
    ⟨.read (.lock fun u => by cases u <;> decide), not_pushThrows fun k m r h => by cases h⟩
  have k₂ := k₁.snoc false
    ⟨⟨fun lf h => (by cases h), fun _ => rfl⟩, List.cons_ne_nil _ _⟩
    ⟨.read (.test _ _ _), not_pushThrows fun k m r h => by cases h⟩
  have k₃ := k₂.snoc false
    ⟨⟨fun lf h => (by cases h), fun _ => rfl⟩, List.cons_ne_nil _ _⟩
    ⟨.read (.bucketLock rfl fun u => by cases u <;> decide),
      not_pushThrows fun k m r h => by cases h⟩
  have k₄ := k₃.snoc false
    ⟨⟨fun lf h => (by cases h), fun _ => rfl⟩, List.cons_ne_nil _ _⟩
    ⟨.read (.bucket rfl), not_pushThrows fun k m r h => by cases h⟩
  have k₅ := k₄.snoc false
    ⟨⟨fun lf h => (by cases h), fun _ => rfl⟩, List.cons_ne_nil _ _⟩
    ⟨.read (.bucketUnlock rfl), not_pushThrows fun k m r h => by cases h⟩
  have k₆ := k₅.snoc true
    ⟨⟨fun lf h => (by cases h), fun h => by cases h⟩, List.cons_ne_nil _ _⟩
    ⟨.client (.call _ (.key (.insert 0 0))), not_pushThrows fun k m r h => by cases h⟩
  have k₇ := k₆.snoc true
    ⟨⟨fun lf h => (by cases h), fun h => by cases h⟩, List.cons_ne_nil _ _⟩
    ⟨.key (.lock fun u => by cases u <;> decide), not_pushThrows fun k m r h => by cases h⟩
  have k₈ := k₇.snoc true
    ⟨⟨fun lf h => (by cases h), fun h => by cases h⟩, List.cons_ne_nil _ _⟩
    ⟨.key (.bucketFor _ _), not_pushThrows fun k m r h => by cases h⟩
  have k₉ := k₈.snoc true
    ⟨⟨fun lf h => (by cases h), fun h => by cases h⟩, List.cons_ne_nil _ _⟩
    ⟨.key (.bucketLock rfl fun u => by cases u <;> rfl), not_pushThrows fun k m r h => by cases h⟩
  have k₁₀ := k₉.snoc true
    ⟨⟨fun lf h => (by cases h), fun h => by cases h⟩, List.cons_ne_nil _ _⟩
    ⟨.key (.find rfl), not_pushThrows fun k m r h => by cases h⟩
  have k₁₁ := k₁₀.snoc true
    ⟨⟨fun lf h => (by cases h), fun h => by cases h⟩, List.cons_ne_nil _ _⟩
    ⟨.bucket (.push rfl), not_pushThrows fun k m r h => by cases h⟩
  have k₁₂ := k₁₁.snoc true
    ⟨⟨fun lf h => (by cases h), fun h => by cases h⟩, List.cons_ne_nil _ _⟩
    ⟨.bucket (.countPushed rfl), not_pushThrows fun k m r h => by cases h⟩
  have k₁₃ := k₁₂.snoc true
    ⟨⟨fun lf h => (by cases h), fun h => by cases h⟩, List.cons_ne_nil _ _⟩
    ⟨.key (.bucketUnlock rfl), not_pushThrows fun k m r h => by cases h⟩
  have k₁₄ := k₁₃.snoc true
    ⟨⟨fun lf h => (by cases h), fun h => by cases h⟩, List.cons_ne_nil _ _⟩
    ⟨.key (.mapUnlock _ _), not_pushThrows fun k m r h => by cases h⟩
  have k₁₅ := k₁₄.snoc true
    ⟨⟨fun lf h => (by cases h), fun h => by cases h⟩, List.cons_ne_nil _ _⟩
    ⟨.client (.ret _ _), not_pushThrows fun k m r h => by cases h⟩
  have k₁₆ := k₁₅.snoc true
    ⟨⟨fun lf h => (by cases h), fun h => by cases h⟩, List.cons_ne_nil _ _⟩
    ⟨.client (.call _ (.key (.remove 1))), not_pushThrows fun k m r h => by cases h⟩
  have k₁₇ := k₁₆.snoc true
    ⟨⟨fun lf h => (by cases h), fun h => by cases h⟩, List.cons_ne_nil _ _⟩
    ⟨.key (.lock fun u => by cases u <;> decide), not_pushThrows fun k m r h => by cases h⟩
  have k₁₈ := k₁₇.snoc true
    ⟨⟨fun lf h => (by cases h), fun h => by cases h⟩, List.cons_ne_nil _ _⟩
    ⟨.key (.bucketFor _ _), not_pushThrows fun k m r h => by cases h⟩
  have k₁₉ := k₁₈.snoc true
    ⟨⟨fun lf h => (by cases h), fun h => by cases h⟩, List.cons_ne_nil _ _⟩
    ⟨.key (.bucketLock rfl fun u => by cases u <;> rfl), not_pushThrows fun k m r h => by cases h⟩
  have k₂₀ := k₁₉.snoc true
    ⟨⟨fun lf h => (by cases h), fun h => by cases h⟩, List.cons_ne_nil _ _⟩
    ⟨.key (.find rfl), not_pushThrows fun k m r h => by cases h⟩
  have k₂₁ := k₂₀.snoc true
    ⟨⟨fun lf h => (by cases h), fun h => by cases h⟩, List.cons_ne_nil _ _⟩
    ⟨.bucket (.erase rfl), not_pushThrows fun k m r h => by cases h⟩
  have k₂₂ := k₂₁.snoc true
    ⟨⟨fun lf h => (by cases h), fun h => by cases h⟩, List.cons_ne_nil _ _⟩
    ⟨.bucket (.countErased rfl), not_pushThrows fun k m r h => by cases h⟩
  have k₂₃ := k₂₂.snoc true
    ⟨⟨fun lf h => (by cases h), fun h => by cases h⟩, List.cons_ne_nil _ _⟩
    ⟨.key (.bucketUnlock rfl), not_pushThrows fun k m r h => by cases h⟩
  have k₂₄ := k₂₃.snoc true
    ⟨⟨fun lf h => (by cases h), fun h => by cases h⟩, List.cons_ne_nil _ _⟩
    ⟨.key (.mapUnlock _ _), not_pushThrows fun k m r h => by cases h⟩
  have k₂₅ := k₂₄.snoc true
    ⟨⟨fun lf h => (by cases h), fun h => by cases h⟩, List.cons_ne_nil _ _⟩
    ⟨.client (.ret _ _), not_pushThrows fun k m r h => by cases h⟩
  have k₂₆ := k₂₅.snoc false
    ⟨⟨fun lf h => (by cases h), fun _ => rfl⟩, List.cons_ne_nil _ _⟩
    ⟨.read (.test _ _ _), not_pushThrows fun k m r h => by cases h⟩
  have k₂₇ := k₂₆.snoc false
    ⟨⟨fun lf h => (by cases h), fun _ => rfl⟩, List.cons_ne_nil _ _⟩
    ⟨.read (.bucketLock rfl fun u => by cases u <;> decide),
      not_pushThrows fun k m r h => by cases h⟩
  have k₂₈ := k₂₇.snoc false
    ⟨⟨fun lf h => (by cases h), fun _ => rfl⟩, List.cons_ne_nil _ _⟩
    ⟨.read (.bucket rfl), not_pushThrows fun k m r h => by cases h⟩
  have k₂₉ := k₂₈.snoc false
    ⟨⟨fun lf h => (by cases h), fun _ => rfl⟩, List.cons_ne_nil _ _⟩
    ⟨.read (.bucketUnlock rfl), not_pushThrows fun k m r h => by cases h⟩
  have k₃₀ := k₂₉.snoc false
    ⟨⟨fun lf h => (by cases h), fun _ => rfl⟩, List.cons_ne_nil _ _⟩
    ⟨.read (.test _ _ _), not_pushThrows fun k m r h => by cases h⟩
  have k₃₁ := k₃₀.snoc false
    ⟨⟨fun lf h => (by cases h), fun _ => rfl⟩, List.cons_ne_nil _ _⟩
    ⟨.key (.mapUnlock _ _), not_pushThrows fun k m r h => by cases h⟩
  refine ⟨_, _, _, _, h₁₁, rfl, k₃₁.mono fun c e h => h.1, rfl, fun c hc => ?_⟩
  apply not_keysAt_zero
  obtain ⟨cs₀, hcs, hleft⟩ := k₃₁.left
  rw [hcs] at hc
  rcases List.mem_append.mp hc with hc | hc
  · obtain ⟨e, -, hne⟩ := hleft c hc
    exact hne
  · rw [List.mem_singleton.mp hc]
    exact List.cons_ne_nil _ _

end UbuntuProjects.TsExHashmap
