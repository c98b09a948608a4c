import UbuntuProjects.Analysis.HashmapBuckets

/-!
# Both hash maps are the finite map

A table holds the entries of a list if its count is the number of its buckets, every
entry is in the bucket of its hash, and the buckets together are a permutation of the list
(`Holds`). A call for one key changes what the table holds as it changes the finite map
(`Holds.onBucket`), and moving the nodes to a new vector keeps what is held, whatever the
number of the new buckets (`moveBuckets_holds`). So sequences of calls keep both maps and
the finite map together (`hashmaps_agree`).
-/

set_option autoImplicit false

namespace UbuntuProjects.Hashmap

open Maps (KeyEq AssocMap Placed placed_replicate)

variable {K V β : Type}

/-! ## What a table holds -/

/-- The table holds the entries of the list `l`; `data` are the entries of a bucket. -/
structure Holds (H : Keys K) (data : β → List (K × V)) (s : Buckets β) (l : List (K × V)) :
    Prop where
  count : s.mBucketsCount = s.mBuckets.length
  pos : 0 < s.mBucketsCount
  placed : Placed (fun k => H.hasher k % s.mBucketsCount) (s.mBuckets.map data)
  entries : (s.mBuckets.map data).flatten.Perm l

section Holds

variable {H : LawfulKeys K} {data : β → List (K × V)} {s : Buckets β} {l l' : List (K × V)}

/-- INTERNAL: the order of the list means nothing. -/
theorem Holds.perm {H : Keys K} (h : Holds H data s l) (hp : l.Perm l') : Holds H data s l' :=
  ⟨h.count, h.pos, h.placed, h.entries.trans hp⟩

/-- A table of empty buckets holds nothing. -/
theorem holds_replicate (H : Keys K) {n : ℕ} (hn : 0 < n) {b : β} (hb : data b = []) :
    Holds H data ⟨n, List.replicate n b⟩ [] where
  count := by simp
  pos := hn
  placed := by
    rw [List.map_replicate, hb]
    exact placed_replicate _ n
  entries := by simp [hb]

/-- A key has a bucket. -/
theorem Holds.bucketFor {H : Keys K} (h : Holds H data s l) (k : K) :
    ∃ b, s.bucketFor H k = some (H.hasher k % s.mBucketsCount) ∧
      s.mBuckets[H.hasher k % s.mBucketsCount]? = some b := by
  have hlt : H.hasher k % s.mBucketsCount < s.mBuckets.length := by
    rw [← h.count]
    exact Nat.mod_lt _ h.pos
  refine ⟨s.mBuckets[H.hasher k % s.mBucketsCount], ?_, List.getElem?_eq_getElem hlt⟩
  rw [Buckets.bucketFor, if_neg h.pos.ne', if_pos hlt]

/-- INTERNAL: calling a member function of the bucket of a key, whatever it does. -/
theorem Holds.onBucket_eq {α : Type} {H : Keys K} (h : Holds H data s l) (k : K)
    (f : β → α × β) : ∃ b ∈ s.mBuckets,
      s.mBuckets[H.hasher k % s.mBucketsCount]? = some b ∧
      s.onBucket H k f = some ((f b).1,
        { s with mBuckets := s.mBuckets.set (H.hasher k % s.mBucketsCount) (f b).2 }) := by
  obtain ⟨b, hfor, hb⟩ := h.bucketFor k
  refine ⟨b, List.mem_of_getElem? hb, hb, ?_⟩
  simp [Buckets.onBucket, hfor, hb]

/-- INTERNAL: replacing the bucket of a key. -/
theorem Holds.set {H : Keys K} (h : Holds H data s l) (k : K) (b' : β)
    (hplace : ∀ e ∈ data b', H.hasher e.1 % s.mBucketsCount = H.hasher k % s.mBucketsCount)
    (hp : ((s.mBuckets.map data).set (H.hasher k % s.mBucketsCount) (data b')).flatten.Perm
      l') :
    Holds H data
      { s with mBuckets := s.mBuckets.set (H.hasher k % s.mBucketsCount) b' } l' where
  count := by simpa using h.count
  pos := h.pos
  placed := by
    rw [List.map_set]
    exact h.placed.set hplace
  entries := by rwa [List.map_set]

/-- Operations that act on the entry of one key leave every entry with a key that it had
or with that key. -/
theorem KeyOp.mem_entries {E : KeyEq K} {o : KeyOp K V} {e : K × V}
    (he : e ∈ o.entries E l) : (∃ e' ∈ l, e'.1 = e.1) ∨ e.1 = o.key := by
  have hcons : ∀ {k : K} {m : V}, e ∈ (k, m) :: l → (∃ e' ∈ l, e'.1 = e.1) ∨ e.1 = k := by
    intro k m hmem
    rcases List.mem_cons.mp hmem with rfl | hmem
    · exact .inr rfl
    · exact .inl ⟨e, hmem, rfl⟩
  cases o with
  | insert k m =>
    simp only [KeyOp.entries, KeyEq.insert] at he
    split at he
    · exact .inl ⟨e, he, rfl⟩
    · exact hcons he
  | insertOrAssign k m =>
    simp only [KeyOp.entries, KeyEq.insertOrAssign] at he
    split at he
    · obtain ⟨e', he', rfl⟩ := List.mem_map.mp he
      refine .inl ⟨e', he', ?_⟩
      split <;> rfl
    · exact hcons he
  | remove k => exact .inl ⟨e, (List.mem_filter.mp he).1, rfl⟩
  | mappedFor k => exact .inl ⟨e, he, rfl⟩

/-- A call for one key changes what the table holds as it changes the finite map, and
returns what it finds in the finite map. -/
theorem Holds.onBucket {m : AssocMap H.keyEq V} (h : Holds H.toKeys data s m.entries)
    (o : KeyOp K V) {f : β → Res V × β} {res : Res V → Res V}
    (hf : ∀ b, H.keyEq.Distinct (data b) →
      (f b).1 = res (o.result (H.keyEq.find o.key (data b))) ∧
        data (f b).2 = o.entries H.keyEq (data b)) :
    ∃ b ∈ s.mBuckets, ∃ s', s.onBucket H.toKeys o.key f =
        some (res (o.result (m.lookup o.key)), s') ∧
      Holds H.toKeys data s' (o.apply m).entries ∧
      ∀ b' ∈ s'.mBuckets, b' ∈ s.mBuckets ∨ b' = (f b).2 := by
  obtain ⟨b, hmem, hb, hcall⟩ := h.onBucket_eq o.key f
  have hdistinct : H.keyEq.Distinct (s.mBuckets.map data).flatten :=
    m.distinct.perm h.entries.symm
  have hdata : (s.mBuckets.map data)[H.hasher o.key % s.mBucketsCount]? = some (data b) := by
    rw [List.getElem?_map, hb]
    rfl
  have hplace : ∀ a b, H.keyEq.same a b →
      H.hasher a % s.mBucketsCount = H.hasher b % s.mBucketsCount := by
    intro a b hab
    rw [H.hash_eq a b hab]
  obtain ⟨hres, hentries⟩ := hf b (Maps.distinct_bucket hdistinct hdata)
  have hfind : H.keyEq.find o.key (data b) = m.lookup o.key := by
    rw [← h.placed.find_flatten hplace hdistinct hdata]
    exact KeyEq.find_perm hdistinct h.entries o.key
  refine ⟨b, hmem, _, ?_, h.set o.key (f b).2 ?_ ?_, ?_⟩
  · rw [hcall, hres, hfind]
  · intro e he
    rw [hentries] at he
    rcases KeyOp.mem_entries he with ⟨e', he', heq⟩ | heq
    · rw [← heq]
      exact h.placed _ _ hdata e' he'
    · rw [heq]
  · rw [hentries, KeyOp.apply_entries]
    exact (h.placed.update_perm hplace o.keyLocal hdata).trans (o.keyLocal.perm h.entries)
  · exact fun b' hb' => List.mem_or_eq_of_mem_set hb'

end Holds

/-! ## Rehashing -/

section Rehash

variable {H : Keys K} {l : List (K × V)}

/-- A counted table that holds the entries of `l`. -/
structure HoldsCounted (H : Keys K) (s : TsExHashmap K V) (l : List (K × V)) : Prop where
  holds : Holds H Bucket.mData s l
  counted : ∀ b ∈ s.mBuckets, b.Counted

/-- A new map holds nothing. -/
theorem new_holdsCounted (H : Keys K) {n : ℕ} (hn : 0 < n) :
    HoldsCounted H (TsExHashmap.new n : TsExHashmap K V) [] := by
  refine ⟨holds_replicate H hn rfl, fun b hb => ?_⟩
  obtain rfl : b = Bucket.new := List.eq_of_mem_replicate hb
  rfl

/-- Moving one node. -/
theorem moveNode_holds {s : TsExHashmap K V} (h : HoldsCounted H s l) (e : K × V) :
    ∃ s', moveNode H e s = some s' ∧ HoldsCounted H s' (e :: l) := by
  obtain ⟨b, hmem, hb, hcall⟩ :=
    h.holds.onBucket_eq e.1 fun b : Bucket K V => ((), (b.pushFront e.1 e.2).countUp)
  have hdata : (s.mBuckets.map Bucket.mData)[H.hasher e.1 % s.mBucketsCount]? =
      some b.mData := by
    rw [List.getElem?_map, hb]
    rfl
  refine ⟨_, by rw [moveNode, hcall]; rfl, h.holds.set e.1 _ ?_ ?_, ?_⟩
  · intro e' he'
    rcases List.mem_cons.mp he' with rfl | he'
    · rfl
    · exact h.holds.placed _ _ hdata e' he'
  · -- the entry is added to its bucket
    refine (Maps.flatten_set_perm hdata _).trans ?_
    refine List.Perm.cons e (List.Perm.trans ?_ h.holds.entries)
    exact (Maps.flatten_perm hdata).symm
  · intro b' hb'
    rcases List.mem_or_eq_of_mem_set hb' with hb' | rfl
    · exact h.counted b' hb'
    · have := h.counted b hmem
      simpa [Bucket.Counted, Bucket.pushFront, Bucket.countUp] using this

/-- Moving all nodes of a bucket. -/
theorem moveNodes_holds (d : List (K × V)) {s : TsExHashmap K V} (h : HoldsCounted H s l) :
    ∃ s', moveNodes H d s = some s' ∧ HoldsCounted H s' (d ++ l) := by
  induction d generalizing s l with
  | nil => exact ⟨s, rfl, h⟩
  | cons e d ih =>
    obtain ⟨s₁, hs₁, h₁⟩ := moveNode_holds h e
    obtain ⟨s₂, hs₂, h₂⟩ := ih h₁
    refine ⟨s₂, by rw [moveNodes, hs₁]; exact hs₂, ?_, h₂.counted⟩
    exact h₂.holds.perm List.perm_middle

/-- Moving the nodes of all buckets. -/
theorem moveBuckets_holds (bs : List (Bucket K V)) {s : TsExHashmap K V}
    (h : HoldsCounted H s l) :
    ∃ s', moveBuckets H bs s = some s' ∧
      HoldsCounted H s' ((bs.map Bucket.mData).flatten ++ l) := by
  induction bs generalizing s l with
  | nil => exact ⟨s, rfl, h⟩
  | cons b bs ih =>
    obtain ⟨s₁, hs₁, h₁⟩ := moveNodes_holds b.mData h
    obtain ⟨s₂, hs₂, h₂⟩ := ih h₁
    refine ⟨s₂, by rw [moveBuckets, hs₁]; exact hs₂, ?_, h₂.counted⟩
    refine h₂.holds.perm ?_
    rw [List.map_cons, List.flatten_cons, ← List.append_assoc]
    exact List.perm_append_comm.append_right l

/-- `rehash` asks for at least one bucket exactly if the counters are not all zero. -/
theorem rehashCount_pos {sz : ℕ} (lf : LoadFactor) : 0 < rehashCount sz lf ↔ sz ≠ 0 := by
  rw [rehashCount, Nat.ceil_pos, div_pos_iff_of_pos_right lf.pos, Nat.cast_pos,
    Nat.pos_iff_ne_zero]

/-- `rehash` either throws or moves all nodes. -/
theorem rehash_eq {s : TsExHashmap K V} {lf : LoadFactor} (hfit : rehashCount s.size lf < 2 ^ 64) :
    TsExHashmap.rehash H s lf false = some (.thrown, s) ∧
      TsExHashmap.rehash H s lf true =
        (moveBuckets H s.mBuckets (.new (rehashCount s.size lf))).map (Prod.mk .returned) := by
  have hcast : toSizeType (rehashCount s.size lf) = some (rehashCount s.size lf) := if_pos hfit
  refine ⟨by simp [TsExHashmap.rehash, hcast], ?_⟩
  simp only [TsExHashmap.rehash, hcast, Option.bind_eq_bind, Option.bind_some, if_true,
    Option.pure_def]
  cases moveBuckets H s.mBuckets (.new (rehashCount s.size lf)) <;> rfl

/-- `rehash` of a map whose counters are not all zero keeps what the map holds, also if it
throws. -/
theorem rehash_holds {s : TsExHashmap K V} (h : HoldsCounted H s l) {lf : LoadFactor}
    (hs : s.size ≠ 0) (hfit : rehashCount s.size lf < 2 ^ 64) (allocated : Bool) :
    ∃ r s', TsExHashmap.rehash H s lf allocated = some (r, s') ∧ HoldsCounted H s' l := by
  cases allocated with
  | false => exact ⟨.thrown, s, (rehash_eq hfit).1, h⟩
  | true =>
    obtain ⟨s', hs', h'⟩ := moveBuckets_holds s.mBuckets
      (new_holdsCounted (V := V) H ((rehashCount_pos lf).mpr hs))
    refine ⟨.returned, s', ?_, h'.holds.perm ?_, h'.counted⟩
    · rw [(rehash_eq hfit).2, hs', Option.map_some]
    · rw [List.append_nil]
      exact h.holds.entries

/-- The size of a counted table is the number of entries it holds. -/
theorem HoldsCounted.size_eq {s : TsExHashmap K V} (h : HoldsCounted H s l) :
    s.size = l.length := by
  have hmap : s.mBuckets.map Bucket.mSize = (s.mBuckets.map Bucket.mData).map List.length := by
    rw [List.map_map]
    exact List.map_congr_left h.counted
  rw [← h.holds.entries.length_eq, List.length_flatten, TsExHashmap.size, hmap]

end Rehash

/-! ## Sequences of calls -/

section Runs

variable {H : LawfulKeys K}

/-- A call of `ts_hashmap`. -/
theorem TsHashmap.exec_holds {s : TsHashmap K V} {m : AssocMap H.keyEq V}
    (h : Holds H.toKeys id s m.entries) (o : KeyOp K V) :
    ∃ s', TsHashmap.exec H.toKeys s o = some (o.result (m.lookup o.key), s') ∧
      Holds H.toKeys id s' (o.apply m).entries := by
  have hf : ∀ d : List (K × V), H.keyEq.Distinct (id d) →
      (bucketCall H.toKeys o d).1 = id (o.result (H.keyEq.find o.key (id d))) ∧
        id (bucketCall H.toKeys o d).2 = o.entries H.keyEq (id d) := by
    intro d hd
    rw [bucketCall_correct (d := d) hd]
    exact ⟨rfl, rfl⟩
  obtain ⟨_, _, s', hs', h', -⟩ := h.onBucket o hf
  exact ⟨s', hs', h'⟩

/-- A sequence of calls of `ts_hashmap`. -/
theorem TsHashmap.run_holds (ops : List (KeyOp K V)) {s : TsHashmap K V}
    {m : AssocMap H.keyEq V} (h : Holds H.toKeys id s m.entries) :
    ∃ s', TsHashmap.run H.toKeys s ops = some ((mapRun m ops).1, s') ∧
      Holds H.toKeys id s' (mapRun m ops).2.entries := by
  induction ops generalizing s m with
  | nil => exact ⟨s, rfl, h⟩
  | cons o ops ih =>
    obtain ⟨s₁, hs₁, h₁⟩ := TsHashmap.exec_holds h o
    obtain ⟨s₂, hs₂, h₂⟩ := ih h₁
    exact ⟨s₂, by simp [TsHashmap.run, hs₁, hs₂, mapRun], h₂⟩

/-- A call of `ts_ex_hashmap`. -/
theorem TsExHashmap.exec_holds {s : TsExHashmap K V} {m : AssocMap H.keyEq V}
    (h : HoldsCounted H.toKeys s m.entries) (o : KeyOp K V) :
    ∃ s', TsExHashmap.exec H.toKeys s o =
        some (exResult o (o.result (m.lookup o.key)), s') ∧
      HoldsCounted H.toKeys s' (o.apply m).entries := by
  obtain ⟨b, hb, s', hs', h', hbuckets⟩ :=
    h.holds.onBucket o fun b hd => Bucket.call_correct (b := b) hd o
  refine ⟨s', hs', h', fun b' hb' => ?_⟩
  rcases hbuckets b' hb' with hb' | rfl
  · exact h.counted b' hb'
  · exact Bucket.call_counted H.toKeys (h.counted b hb) o

/-- A sequence of calls of `ts_ex_hashmap`. -/
theorem TsExHashmap.run_holds (cmds : List (Cmd K V)) {s : TsExHashmap K V}
    {m : AssocMap H.keyEq V} (h : HoldsCounted H.toKeys s m.entries)
    (hr : RehashesRepresentable H.toKeys s cmds) :
    ∃ s', TsExHashmap.run H.toKeys s cmds =
        some (List.zipWith exResult (keyOps cmds) (mapRun m (keyOps cmds)).1, s') ∧
      HoldsCounted H.toKeys s' (mapRun m (keyOps cmds)).2.entries := by
  induction cmds generalizing s m with
  | nil => exact ⟨s, rfl, h⟩
  | cons c cmds ih =>
    cases c with
    | key o =>
      obtain ⟨s₁, hs₁, h₁⟩ := TsExHashmap.exec_holds h o
      obtain ⟨s₂, hs₂, h₂⟩ := ih h₁ (hr _ _ hs₁)
      exact ⟨s₂, by simp [TsExHashmap.run, hs₁, hs₂, mapRun, keyOps], h₂⟩
    | rehash lf allocated =>
      obtain ⟨r, s₁, hs₁, h₁⟩ := rehash_holds h hr.1.1 hr.1.2 allocated
      obtain ⟨s₂, hs₂, h₂⟩ := ih h₁ (hr.2 _ _ hs₁)
      exact ⟨s₂, by simp [TsExHashmap.run, hs₁, hs₂, keyOps], h₂⟩

end Runs

/-- **Both hash maps are the finite map.** For every lawful hash and equality of keys, all
positive bucket counts and every sequence of calls in which `rehash` is called on a nonempty
map only, and for a number of buckets that `size_type` represents: both maps run through,
whether the buckets can be allocated or `rehash` throws; `insert` and `mapped_for` return at
each step what the finite map returns (`insert_or_assign` as well, where it returns anything);
and afterwards both copies are permutations of the finite map's entries, and the size is their
number. -/
theorem hashmaps_agree (H : LawfulKeys K) (n₁ n₂ : ℕ) (hn₁ : 0 < n₁) (hn₂ : 0 < n₂)
    (cmds : List (Cmd K V)) (hr : RehashesRepresentable H.toKeys (TsExHashmap.new n₂) cmds) :
    ∃ (rs : List (Res V)) (m : AssocMap H.keyEq V) (s₁ : TsHashmap K V)
      (s₂ : TsExHashmap K V),
      mapRun AssocMap.empty (keyOps cmds) = (rs, m) ∧
      TsHashmap.run H.toKeys (TsHashmap.new n₁) (keyOps cmds) = some (rs, s₁) ∧
      TsExHashmap.run H.toKeys (TsExHashmap.new n₂) cmds =
        some (List.zipWith exResult (keyOps cmds) rs, s₂) ∧
      s₁.copy.Perm m.entries ∧ s₂.copy.Perm m.entries ∧ s₂.size = m.entries.length := by
  obtain ⟨s₁, hs₁, h₁⟩ := TsHashmap.run_holds (m := (AssocMap.empty : AssocMap H.keyEq V))
    (keyOps cmds) (holds_replicate H.toKeys hn₁ rfl)
  obtain ⟨s₂, hs₂, h₂⟩ := TsExHashmap.run_holds (m := (AssocMap.empty : AssocMap H.keyEq V))
    cmds (new_holdsCounted H.toKeys hn₂) hr
  refine ⟨_, _, s₁, s₂, rfl, hs₁, hs₂, ?_, h₂.holds.entries, h₂.size_eq⟩
  have hcopy := h₁.entries
  rwa [List.map_id] at hcopy

/-- INTERNAL: the load factor `2 ^ -70` asks for `2 ^ 70` buckets for one entry. -/
theorem rehashCount_one : rehashCount 1 ⟨1 / 2 ^ 70, by norm_num⟩ = 2 ^ 70 := by
  have hdiv : ((1 : ℕ) : ℚ) / (1 / 2 ^ 70) = ((2 ^ 70 : ℕ) : ℚ) := by norm_num
  rw [rehashCount, hdiv, Nat.ceil_natCast]

/-- With a load factor that asks for more buckets than `size_type` represents, `rehash` of a
map with one entry is undefined. -/
theorem run_undefined :
    RehashesNonempty natKeys.toKeys (TsExHashmap.new 1)
        [.key (.insert 1 7), .rehash ⟨1 / 2 ^ 70, by norm_num⟩ true] ∧
      TsExHashmap.run natKeys.toKeys (TsExHashmap.new 1)
        [.key (.insert 1 7), .rehash ⟨1 / 2 ^ 70, by norm_num⟩ true] = none := by
  have hrehash : TsExHashmap.rehash natKeys.toKeys (⟨1, [⟨[(1, 7)], 1⟩]⟩ : TsExHashmap ℕ ℕ)
      ⟨1 / 2 ^ 70, by norm_num⟩ true = none := by
    have hsize : TsExHashmap.size (⟨1, [⟨[(1, 7)], 1⟩]⟩ : TsExHashmap ℕ ℕ) = 1 := rfl
    have hcast : toSizeType (2 ^ 70) = none := by decide
    rw [TsExHashmap.rehash, hsize, rehashCount_one, hcast]
    rfl
  refine ⟨?_, ?_⟩
  · intro r s₁ hs₁
    obtain ⟨rfl, rfl⟩ := Prod.mk.inj (Option.some.inj hs₁)
    exact ⟨by decide, fun _ _ _ => trivial⟩
  · have hinsert : TsExHashmap.exec natKeys.toKeys (TsExHashmap.new 1) (.insert 1 7) =
        some (.bool true, (⟨1, [⟨[(1, 7)], 1⟩]⟩ : TsExHashmap ℕ ℕ)) := rfl
    simp only [TsExHashmap.run, hinsert, hrehash, Option.bind_eq_bind, Option.bind_some,
      Option.bind_none]

/-- An entry is inserted, the map is rehashed to two buckets, and the entry is found. -/
theorem hashmaps_agree_rehash : ∃ (rs : List (Res ℕ)) (m : AssocMap natKeys.keyEq ℕ)
    (s₁ : TsHashmap ℕ ℕ) (s₂ : TsExHashmap ℕ ℕ),
    mapRun AssocMap.empty [.insert 1 7, .mappedFor 1] = (rs, m) ∧
    TsHashmap.run natKeys.toKeys (TsHashmap.new 2) [.insert 1 7, .mappedFor 1] =
      some (rs, s₁) ∧
    TsExHashmap.run natKeys.toKeys (TsExHashmap.new 1)
        [.key (.insert 1 7), .rehash ⟨1 / 2, by norm_num⟩ true, .key (.mappedFor 1)] =
      some (List.zipWith exResult [.insert 1 7, .mappedFor 1] rs, s₂) ∧
    s₁.copy.Perm m.entries ∧ s₂.copy.Perm m.entries ∧ s₂.size = m.entries.length := by
  refine hashmaps_agree natKeys 2 1 (by decide) (by decide)
    [.key (.insert 1 7), .rehash ⟨1 / 2, by norm_num⟩ true, .key (.mappedFor 1)] ?_
  intro r s₁ hs₁
  obtain ⟨rfl, rfl⟩ := Prod.mk.inj (Option.some.inj hs₁)
  refine ⟨⟨by decide, ?_⟩, fun _ _ _ _ _ _ => trivial⟩
  have hsize : TsExHashmap.size (⟨1, [⟨[(1, 7)], 1⟩]⟩ : TsExHashmap ℕ ℕ) = 1 := rfl
  have hdiv : ((1 : ℕ) : ℚ) / (1 / 2) = ((2 : ℕ) : ℚ) := by norm_num
  change rehashCount 1 _ < _
  rw [rehashCount, hdiv, Nat.ceil_natCast]
  decide

end UbuntuProjects.Hashmap
