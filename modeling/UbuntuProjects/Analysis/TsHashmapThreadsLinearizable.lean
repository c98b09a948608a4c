import UbuntuProjects.Analysis.TsHashmapThreadsInvariant
import UbuntuProjects.Concurrency.Simulation

/-!
# `ts_hashmap` is linearizable

The purpose of the map as a sequential object (`mapSpec`): a call for one key does to the
finite map what `KeyOp.apply` says and returns what it finds. A call that throws leaves the
map as it is, except that an assignment may leave any value behind and that a `remove` may
have removed the entry before it throws. Nothing is said of what `copy` writes.

The entries of the buckets are the parts of the finite map (`Parts`), except for a bucket in
which `remove_if` has come past the entry: then the bucket is ahead of its part (`Behind`).
Nobody else looks into this bucket until `remove_if` has ended, and only then it is known
whether the call returns or throws.
-/

set_option autoImplicit false

namespace UbuntuProjects.TsHashmap

open Concurrency (Config Run Step Simulates SeqSpec Status Point AtomicMove Linearizable observed
  anyStep)
open Hashmap
open Maps (KeyEq AssocMap Placed)

variable {Tid K V : Type}

/-! ## The finite map as a sequential object -/

/-- What one call may do to the finite map behind `n` buckets. -/
inductive MapStep (E : KeyEq K) (n : ℕ) :
    AssocMap E V → Op K V → Result K V → AssocMap E V → Prop
  | key (m : AssocMap E V) (o : KeyOp K V) :
      MapStep E n m (.key o) (.of (o.result (m.lookup o.key))) (o.apply m)
  | thrown (m : AssocMap E V) (o : KeyOp K V) : MapStep E n m (.key o) .thrown m
  | assignThrown (m : AssocMap E V) (k : K) (v w : V) :
      MapStep E n m (.key (.insertOrAssign k v)) .thrown (m.assign k w)
  | removeThrown (m : AssocMap E V) (k : K) :
      MapStep E n m (.key (.remove k)) .thrown (m.erase k)
  | copied (m : AssocMap E V) (out : List (K × V)) : MapStep E n m .copy (.copied out) m
  | copyThrown (m : AssocMap E V) : MapStep E n m .copy .thrown m
  | bucketsCount (m : AssocMap E V) : MapStep E n m .bucketsCount (.count n) m

/-- The finite map as a sequential object. -/
def mapSpec (E : KeyEq K) (n : ℕ) (V : Type) : SeqSpec (Op K V) (Result K V) (AssocMap E V) :=
  ⟨.empty, MapStep E n⟩

/-- Where a thread at a control point is in its use of the finite map. -/
def Pc.status : Pc K V → Status (Op K V) (Result K V)
  | .idle => .idle
  | .undefined => .idle
  | .returning r => .done r
  | .unlock _ _ r => .done r
  | .bucketFor o => .pending (.key o)
  | .lock o _ => .pending (.key o)
  | .find o _ _ => .pending (.key o)
  | .assign k m _ _ => .pending (.key (.insertOrAssign k m))
  | .push k m _ true => .pending (.key (.insertOrAssign k m))
  | .push k m _ false => .pending (.key (.insert k m))
  | .read k _ _ => .pending (.key (.mappedFor k))
  | .removeIf k _ _ => .pending (.key (.remove k))
  | .copyTest _ _ => .pending .copy
  | .copyLock _ _ => .pending .copy
  | .copyEntry _ _ _ => .pending .copy
  | .copyUnlock _ _ => .pending .copy
  | .countRead => .pending .bucketsCount

theorem status_entry (op : Op K V) : op.entry.status = .pending op := by
  cases op <;> rfl

theorem status_afterLock (o : KeyOp K V) (i : ℕ) : (afterLock o i).status = .pending (.key o) := by
  cases o <;> rfl

/-! ## The parts of the finite map -/

/-- The part `d` of the finite map and the entries `d'` of the bucket `i`: they are the same,
or `remove_if` is past the entry that it is to remove. -/
def Behind (H : LawfulKeys K) (c : Config Tid (Pc K V) (Shared Tid K V)) (i : ℕ)
    (d d' : List (K × V)) : Prop :=
  d' = d ∨ ∃ t k it, c.pc t = .removeIf k i it ∧ d' = H.keyEq.erase k d

/-- The finite map in parts, one for each bucket. -/
structure Parts (H : LawfulKeys K) (n : ℕ) (c : Config Tid (Pc K V) (Shared Tid K V))
    (parts : List (List (K × V))) (m : AssocMap H.keyEq V) : Prop where
  placed : Placed (fun k => H.hasher k % n) parts
  perm : parts.flatten.Perm m.entries
  bucket : ∀ i d', entriesAt c.sh i = some d' → ∃ d, parts[i]? = some d ∧ Behind H c i d d'

/-- The finite map has the parts, and every thread is where its control point says. -/
def MapRel (H : LawfulKeys K) (n : ℕ) (c : Config Tid (Pc K V) (Shared Tid K V))
    (m : AssocMap H.keyEq V) (f : Tid → Status (Op K V) (Result K V)) : Prop :=
  f = (fun t => (c.pc t).status) ∧ ∃ parts, Parts H n c parts m

section Following

variable {H : LawfulKeys K} {n : ℕ} {c : Config Tid (Pc K V) (Shared Tid K V)} {t : Tid}
  {p p' : Pc K V} {s' : Shared Tid K V} {l : Lab K V} {m m' : AssocMap H.keyEq V}
  {parts : List (List (K × V))} {i : ℕ} {k : K} {d d' : List (K × V)}

/-- INTERNAL: equal keys have the same bucket. -/
theorem place_congr (H : LawfulKeys K) (n : ℕ) :
    ∀ a b, H.keyEq.same a b → H.hasher a % n = H.hasher b % n := by
  intro a b hab
  rw [H.hash_eq a b hab]

/-- INTERNAL: a thread that is in a bucket, and not in `remove_if`, finds the part of the
finite map. -/
theorem Inv.current (hI : Inv H n c) (h : Behind H c i d d') (ht : (c.pc t).hold i ≠ .free)
    (hno : ∀ k it, c.pc t ≠ .removeIf k i it) : d' = d := by
  rcases h with rfl | ⟨u, k, it, hu, -⟩
  · rfl
  · have hex : (c.pc u).hold i = .exclusive := by
      rw [hu]
      exact Pc.hold_self rfl
    have htu : t ≠ u := by
      rintro rfl
      exact hno k it hu
    exact absurd (hI.alone hex htu) ht

/-- INTERNAL: what the finite map has for a key is in the part of the key's bucket. -/
theorem Parts.lookup (h : Parts H n c parts m) (hi : H.hasher k % n = i)
    (hd : parts[i]? = some d) : m.lookup k = H.keyEq.find k d ∧ H.keyEq.Distinct d := by
  subst hi
  have hdistinct : H.keyEq.Distinct parts.flatten := m.distinct.perm h.perm.symm
  refine ⟨?_, Maps.distinct_bucket hdistinct hd⟩
  rw [AssocMap.lookup, ← KeyEq.find_perm hdistinct h.perm]
  exact h.placed.find_flatten (place_congr H n) hdistinct hd

variable [DecidableEq Tid]

/-- INTERNAL: a bucket ahead of its part stays so while `remove_if` goes on. -/
theorem Behind.frame (h : Behind H c i d d')
    (hp : ∀ k it, c.pc t = .removeIf k i it → ∃ it', p' = .removeIf k i it') :
    Behind H ⟨Function.update c.pc t p', s'⟩ i d d' := by
  rcases h with rfl | ⟨u, k, it, hu, hd⟩
  · exact .inl rfl
  · refine .inr ?_
    by_cases hut : u = t
    · subst hut
      obtain ⟨it', hit⟩ := hp k it hu
      refine ⟨u, k, it', ?_, hd⟩
      simpa using hit
    · refine ⟨u, k, it, ?_, hd⟩
      simpa [Function.update_of_ne hut] using hu

/-- INTERNAL: a step that changes no entries. -/
theorem Parts.keep (h : Parts H n c parts m)
    (he : ∀ i, entriesAt s' i = entriesAt c.sh i)
    (hp : ∀ k i it, c.pc t = .removeIf k i it → ∃ it', p' = .removeIf k i it') :
    Parts H n ⟨Function.update c.pc t p', s'⟩ parts m := by
  refine ⟨h.placed, h.perm, fun i d' hd' => ?_⟩
  obtain ⟨d, hd, hbehind⟩ := h.bucket i d' ((he i).symm.trans hd')
  exact ⟨d, hd, hbehind.frame fun k it => hp k i it⟩

/-- INTERNAL: a step after which the bucket of the thread is its part again, and the part is
what an operation on the entry of the key makes of it. -/
theorem Parts.update (h : Parts H n c parts m) (hi : H.hasher k % n = i)
    (hd : parts[i]? = some d) {f : List (K × V) → List (K × V)} (hf : H.keyEq.KeyLocal k f)
    (hm : m'.entries = f m.entries)
    (hplaced : Placed (fun k => H.hasher k % n) (table s').mBuckets)
    (he : entriesAt s' i = some (f d))
    (hother : ∀ j, j ≠ i → entriesAt s' j = entriesAt c.sh j)
    (hp : ∀ k j it, c.pc t = .removeIf k j it → j = i) :
    Parts H n ⟨Function.update c.pc t p', s'⟩ (parts.set i (f d)) m' := by
  refine ⟨h.placed.set fun e hm => ?_, ?_, fun j d' hd' => ?_⟩
  · exact hplaced i (f d) ((table_getElem? s' i).trans he) e hm
  · subst hi
    rw [hm]
    exact (h.placed.update_perm (place_congr H n) hf hd).trans (hf.perm h.perm)
  · by_cases hji : j = i
    · subst hji
      refine ⟨f d, List.getElem?_set_self (List.getElem?_eq_some_iff.mp hd).1, .inl ?_⟩
      exact Option.some.inj (hd'.symm.trans he)
    · obtain ⟨d₀, hd₀, hbehind⟩ := h.bucket j d' ((hother j hji).symm.trans hd')
      refine ⟨d₀, ?_, hbehind.frame fun k it hk => absurd (hp k j it hk) hji⟩
      rw [List.getElem?_set_ne (Ne.symm hji)]
      exact hd₀

/-- One move of the finite map that matches a step of thread `t` to `p'` and `s'`. -/
def Follows (H : LawfulKeys K) (n : ℕ) (c : Config Tid (Pc K V) (Shared Tid K V)) (t : Tid)
    (m : AssocMap H.keyEq V) (l : Lab K V) (p' : Pc K V) (s' : Shared Tid K V) : Prop :=
  ∃ v m' parts', AtomicMove (mapSpec H.keyEq n V) m (c.pc t).status v m' p'.status ∧
    v.bind Point.event = l ∧ Parts H n ⟨Function.update c.pc t p', s'⟩ parts' m'

/-- INTERNAL: a step that the finite map does not see. -/
theorem follows_stutter (hst : p'.status = (c.pc t).status)
    (hparts : Parts H n ⟨Function.update c.pc t p', s'⟩ parts m) :
    Follows H n c t m none p' s' := by
  refine ⟨none, m, parts, ?_, rfl, hparts⟩
  rw [hst]
  exact .stutter m _

/-- INTERNAL: a step at which a call takes effect. -/
theorem follows_lin {op : Op K V} {r : Result K V} (hst : (c.pc t).status = .pending op)
    (hst' : p'.status = .done r) (hm : MapStep H.keyEq n m op r m')
    (hparts : Parts H n ⟨Function.update c.pc t p', s'⟩ parts m') :
    Follows H n c t m none p' s' := by
  refine ⟨some (.lin op r), m', parts, ?_, rfl, hparts⟩
  rw [hst, hst']
  exact .lin hm

end Following

/-! ## Steps -/

section Steps

variable {H : LawfulKeys K} {n : ℕ} {c : Config Tid (Pc K V) (Shared Tid K V)} {t : Tid}
  {p p' : Pc K V} {s' : Shared Tid K V} {l : Lab K V} {m m' : AssocMap H.keyEq V}
  {parts : List (List (K × V))} {i : ℕ} {k : K} {b : LockedBucket Tid K V}

/-- INTERNAL: a thread that is in a bucket, and not in `remove_if`, finds its part. -/
theorem Parts.current (hI : Inv H n c) (hm : Parts H n c parts m)
    (hget : c.sh.mBuckets[i]? = some b) (ht : (c.pc t).hold i ≠ .free)
    (hno : ∀ k it, c.pc t ≠ .removeIf k i it) : parts[i]? = some b.mData := by
  obtain ⟨d, hd, hbehind⟩ := hm.bucket i b.mData (entriesAt_eq hget)
  rw [hI.current hbehind ht hno]
  exact hd

variable [DecidableEq Tid]

/-- INTERNAL: a step outside `remove_if` that changes the control point only. -/
theorem Parts.stay (hm : Parts H n c parts m) (hno : ∀ k i it, c.pc t ≠ .removeIf k i it) :
    Parts H n ⟨Function.update c.pc t p', c.sh⟩ parts m :=
  hm.keep (fun _ => rfl) fun k i it hr => absurd hr (hno k i it)

/-- INTERNAL: a mutex is taken or released. -/
theorem Parts.hold (hm : Parts H n c parts m) (hno : ∀ k i it, c.pc t ≠ .removeIf k i it)
    (hget : c.sh.mBuckets[i]? = some b) (h : Concurrency.Hold) :
    Parts H n ⟨Function.update c.pc t p', setBucket c.sh i (b.hold t h)⟩ parts m := by
  refine hm.keep (fun j => ?_) fun k i it hr => absurd hr (hno k i it)
  rw [entriesAt_setBucket hget]
  split
  · subst_vars
    exact (entriesAt_eq hget).symm
  · rfl

/-- INTERNAL: calls and returns, and `buckets_count`. -/
theorem clientStep_follows (hI : Inv H n c) (hm : Parts H n c parts m) (hp : c.pc t = p)
    (hs : ClientStep p c.sh l p' s') : Follows H n c t m l p' s' := by
  cases hs with
  | call _ op =>
    refine ⟨some (.call op), m, parts, ?_, rfl, hm.stay (by simp [hp])⟩
    rw [hp, status_entry]
    exact .call m op
  | ret _ r =>
    refine ⟨some (.ret r), m, parts, ?_, rfl, hm.stay (by simp [hp])⟩
    rw [hp]
    exact .ret m r
  | countRead =>
    refine follows_lin (congrArg Pc.status hp) rfl ?_ (hm.stay (by simp [hp]))
    rw [hI.count]
    exact .bucketsCount m

/-- INTERNAL: the choice of the bucket and its mutex. -/
theorem lockStep_follows (hn : 0 < n) (hI : Inv H n c) (hm : Parts H n c parts m)
    (hp : c.pc t = p) (hs : LockStep H.toKeys t p c.sh l p' s') :
    Follows H n c t m l p' s' := by
  cases hs with
  | bucketFor _ o =>
    have hlt : H.hasher o.key % n < n := Nat.mod_lt _ hn
    rw [Buckets.bucketFor, hI.count, hI.length, if_neg hn.ne', if_pos hlt]
    exact follows_stutter (congrArg Pc.status hp).symm (hm.stay (by simp [hp]))
  | hashThrew _ o =>
    exact follows_lin (congrArg Pc.status hp) rfl (.thrown m o) (hm.stay (by simp [hp]))
  | lock hget hg =>
    refine follows_stutter ?_ (hm.hold (by simp [hp]) hget _)
    rw [hp, status_afterLock]
    rfl
  | unlock hget =>
    exact follows_stutter (congrArg Pc.status hp).symm (hm.hold (by simp [hp]) hget _)

/-- INTERNAL: the search. -/
theorem findStep_follows (hI : Inv H n c) (hm : Parts H n c parts m) (hp : c.pc t = p)
    (hs : FindStep H.toKeys p c.sh l p' s') : Follows H n c t m l p' s' := by
  have hknows := hI.knows t
  have hst := congrArg Pc.status hp
  have hno : ∀ {o : KeyOp K V} {i it : ℕ}, c.pc t = .find o i it →
      ∀ k i it, c.pc t ≠ .removeIf k i it := by
    intro o i it h
    simp [h]
  -- the search is in the part of the key
  have hpart : ∀ {o : KeyOp K V} {i it : ℕ} {b : LockedBucket Tid K V},
      c.pc t = .find o i it → c.sh.mBuckets[i]? = some b → H.hasher o.key % n = i →
      m.lookup o.key = H.keyEq.find o.key b.mData := by
    intro o i it b h hget hi
    refine (hm.lookup hi (Parts.current hI hm hget (t := t) ?_ fun k => hno h k i)).1
    rw [h, Pc.hold_self rfl]
    cases o <;> exact nofun
  rw [hp] at hknows
  cases hs with
  | next | foundAssign | foundRead | endInsert | endAssign =>
    exact follows_stutter hst.symm (hm.stay (hno hp))
  | threw _ o => exact follows_lin hst rfl (.thrown m o) (hm.stay (hno hp))
  | @foundInsert _ k v i it b e hget he hk =>
    have hfound : findEntry H.toKeys k b.mData = some it :=
      KeyEq.Avoids.findIdx? (E := H.keyEq) (hknows.2.get hget) he hk
    have hsome : (m.lookup k).isSome := by
      have hlookup : m.lookup k = H.keyEq.find k b.mData := hpart hp hget hknows.2.1
      rw [hlookup]
      exact (find_of_findEntry hfound).2
    have hstep := MapStep.key (n := n) m (.insert k v)
    simp only [KeyOp.result, KeyOp.key, KeyOp.apply, Option.isNone_eq_false_iff.mpr hsome,
      AssocMap.insert_of_isSome hsome] at hstep
    exact follows_lin hst rfl hstep (hm.stay (hno hp))
  | @endRead _ k i it b hget he =>
    have hnone : m.lookup k = none := by
      have hlookup : m.lookup k = H.keyEq.find k b.mData := hpart hp hget hknows.2.1
      have havoids : H.keyEq.Avoids k (b.mData.take it) := hknows.2.get hget
      rw [hlookup, KeyEq.find_eq_none_iff]
      exact havoids.of_take he
    have hstep := MapStep.key (n := n) m (.mappedFor k)
    simp only [KeyOp.result, KeyOp.key, KeyOp.apply, hnone] at hstep
    exact follows_lin hst rfl hstep (hm.stay (hno hp))

/-- INTERNAL: `copy`. -/
theorem copyStep_follows (hm : Parts H n c parts m) (hp : c.pc t = p)
    (hs : CopyStep t p c.sh l p' s') : Follows H n c t m l p' s' := by
  have hst := congrArg Pc.status hp
  cases hs with
  | test _ i out =>
    unfold afterCopyTest
    split
    · exact follows_lin hst rfl (.copied m out) (hm.stay (by simp [hp]))
    · exact follows_stutter hst.symm (hm.stay (by simp [hp]))
  | lock hget hg => exact follows_stutter hst.symm (hm.hold (by simp [hp]) hget _)
  | entry => exact follows_stutter hst.symm (hm.stay (by simp [hp]))
  | threw => exact follows_lin hst rfl (.copyThrown m) (hm.stay (by simp [hp]))
  | copied => exact follows_stutter hst.symm (hm.stay (by simp [hp]))
  | unlock hget => exact follows_stutter hst.symm (hm.hold (by simp [hp]) hget _)

/-- INTERNAL: the work in the bucket behind the search. -/
theorem foundStep_follows (hI : Inv H n c) (hm : Parts H n c parts m) (hp : c.pc t = p)
    (hno : ∀ k i it, p ≠ .removeIf k i it)
    (hplaced : Placed (fun k => H.hasher k % n) (table s').mBuckets)
    (hs : BucketStep H.toKeys p c.sh l p' s') : Follows H n c t m l p' s' := by
  have hknows := hI.knows t
  have hst := congrArg Pc.status hp
  have hno' : ∀ k i it, c.pc t ≠ .removeIf k i it := by
    rw [hp]
    exact hno
  -- the part of the key is what is in the bucket
  have hpart : ∀ {k : K} {i : ℕ} {b : LockedBucket Tid K V}, c.sh.mBuckets[i]? = some b →
      p.hold i ≠ .free → H.hasher k % n = i → parts[i]? = some b.mData ∧
        m.lookup k = H.keyEq.find k b.mData ∧ H.keyEq.Distinct b.mData := by
    intro k i b hget hhold hi
    have hd := Parts.current hI hm hget (t := t) (by rwa [hp]) fun k => hno' k i
    exact ⟨hd, hm.lookup hi hd⟩
  -- the bucket is written as the finite map is
  have hwrite : ∀ {k : K} {i : ℕ} {b : LockedBucket Tid K V}
      {f : List (K × V) → List (K × V)} {d : List (K × V)} {m' : AssocMap H.keyEq V},
      c.sh.mBuckets[i]? = some b → p.hold i ≠ .free → H.hasher k % n = i →
      H.keyEq.KeyLocal k f → d = f b.mData → m'.entries = f m.entries →
      Placed (fun k => H.hasher k % n) (table (setBucket c.sh i { b with mData := d })).mBuckets →
      Parts H n ⟨Function.update c.pc t p', setBucket c.sh i { b with mData := d }⟩
        (parts.set i (f b.mData)) m' := by
    intro k i b f d m' hget hhold hi hf hd hm' hpl
    refine hm.update hi (hpart hget hhold hi).1 hf hm' hpl ?_ ?_ fun k j it hr =>
      absurd hr (hno' k j it)
    · rw [entriesAt_setBucket hget, if_pos rfl, hd]
    · intro j hj
      rw [entriesAt_setBucket hget, if_neg hj]
  rw [hp] at hknows
  cases hs with
  | @assign _ k v i it b hget =>
    have hfound : findEntry H.toKeys k b.mData = some it := InBucket.get hknows hget
    have hhold : (Pc.assign k v i it).hold i ≠ .free := by
      rw [Pc.hold_self rfl]
      decide
    obtain ⟨-, hlookup, hdistinct⟩ := hpart hget hhold hknows.1
    have hstep := MapStep.key (n := n) m (.insertOrAssign k v)
    simp only [KeyOp.result, KeyOp.key, KeyOp.apply, hlookup,
      Option.isNone_eq_false_iff.mpr (find_of_findEntry hfound).2] at hstep
    exact follows_lin hst rfl hstep (hwrite hget hhold hknows.1 KeyEq.keyLocal_insertOrAssign
      (assignAt_eq_insertOrAssign hdistinct hfound v) rfl hplaced)
  | @assignThrew _ k v v' i it b hget =>
    have hfound : findEntry H.toKeys k b.mData = some it := InBucket.get hknows hget
    have hhold : (Pc.assign k v i it).hold i ≠ .free := by
      rw [Pc.hold_self rfl]
      decide
    obtain ⟨-, -, hdistinct⟩ := hpart hget hhold hknows.1
    exact follows_lin hst rfl (.assignThrown m k v v') (hwrite hget hhold hknows.1
      KeyEq.keyLocal_assign (assignAt_eq_assign hdistinct hfound v') rfl hplaced)
  | @push _ k v i orAssign b hget =>
    have hnone : findEntry H.toKeys k b.mData = none := InBucket.get hknows hget
    have hhold : (Pc.push k v i orAssign).hold i ≠ .free := by
      rw [Pc.hold_self rfl]
      decide
    obtain ⟨-, hlookup, -⟩ := hpart hget hhold hknows.1
    rw [findEntry_eq_none.mp hnone] at hlookup
    cases orAssign with
    | true =>
      have hstep := MapStep.key (n := n) m (.insertOrAssign k v)
      simp only [KeyOp.result, KeyOp.key, KeyOp.apply, hlookup, Option.isNone_none] at hstep
      exact follows_lin hst rfl hstep (hwrite hget hhold hknows.1
        KeyEq.keyLocal_insertOrAssign (push_eq_insertOrAssign hnone v) rfl hplaced)
    | false =>
      have hstep := MapStep.key (n := n) m (.insert k v)
      simp only [KeyOp.result, KeyOp.key, KeyOp.apply, hlookup, Option.isNone_none] at hstep
      exact follows_lin hst rfl hstep (hwrite hget hhold hknows.1 KeyEq.keyLocal_insert
        (push_eq_insert hnone v) rfl hplaced)
  | pushThrew _ k v i orAssign =>
    cases orAssign with
    | true => exact follows_lin hst rfl (.thrown m (.insertOrAssign k v)) (hm.stay hno')
    | false => exact follows_lin hst rfl (.thrown m (.insert k v)) (hm.stay hno')
  | @read _ k i it b e hget he =>
    have hfound : findEntry H.toKeys k b.mData = some it := InBucket.get hknows hget
    have hhold : (Pc.read k i it : Pc K V).hold i ≠ .free := by
      rw [Pc.hold_self rfl]
      decide
    obtain ⟨-, hlookup, -⟩ := hpart hget hhold hknows.1
    rw [(find_of_findEntry hfound).1, he] at hlookup
    have hstep := MapStep.key (n := n) m (.mappedFor k)
    simp only [KeyOp.result, KeyOp.key, KeyOp.apply, hlookup, Option.map_some] at hstep
    exact follows_lin hst rfl hstep (hm.stay hno')
  | readThrew _ k i it => exact follows_lin hst rfl (.thrown m (.mappedFor k)) (hm.stay hno')
  | keep | erase | removed | removeThrew => exact absurd rfl (hno _ _ _)

/-- INTERNAL: `remove_if`. Only at its end it is known whether the call returns. -/
theorem removeStep_follows {it : ℕ} (hI : Inv H n c) (hm : Parts H n c parts m)
    (hp : c.pc t = .removeIf k i it)
    (hplaced : Placed (fun k => H.hasher k % n) (table s').mBuckets)
    (hs : BucketStep H.toKeys (.removeIf k i it) c.sh l p' s') :
    Follows H n c t m l p' s' := by
  have hknows := hI.knows t
  rw [hp] at hknows
  obtain ⟨hi, d', hd', havoids⟩ := hknows
  obtain ⟨d, hd, hbehind⟩ := hm.bucket i d' hd'
  have hdistinct := (hm.lookup hi hd).2
  have hst := congrArg Pc.status hp
  -- the remover of the bucket is the thread itself
  have hself : d' = d ∨ d' = H.keyEq.erase k d := by
    rcases hbehind with heq | ⟨u, k', it', hu, heq⟩
    · exact .inl heq
    · by_cases hut : u = t
      · subst hut
        rw [hp] at hu
        cases hu
        exact .inr heq
      · have hex : (c.pc t).hold i = .exclusive := by
          rw [hp]
          exact Pc.hold_self rfl
        have hfree := hI.alone hex hut
        rw [hu, Pc.hold_self rfl] at hfree
        cases hfree
  have hdone : ∀ {f : List (K × V) → List (K × V)} {m' : AssocMap H.keyEq V},
      H.keyEq.KeyLocal k f → d' = f d → m'.entries = f m.entries → s' = c.sh →
      Parts H n ⟨Function.update c.pc t p', s'⟩ (parts.set i (f d)) m' := by
    intro f m' hf heq hm' hsh
    refine hm.update hi hd hf hm' hplaced ?_ (fun j _ => by rw [hsh]) ?_
    · rw [hsh, hd', heq]
    · intro k' j it' hr
      rw [hp] at hr
      cases hr
      rfl
  cases hs with
  | keep hget he hne =>
    refine follows_stutter hst.symm (hm.keep (fun _ => rfl) fun k' j it' hr => ?_)
    rw [hp] at hr
    cases hr
    exact ⟨_, rfl⟩
  | @erase _ _ _ _ b e hget he hk =>
    obtain rfl := Option.some.inj ((entriesAt_eq hget).symm.trans hd')
    have hfound : findEntry H.toKeys k b.mData = some it :=
      KeyEq.Avoids.findIdx? (E := H.keyEq) havoids he hk
    -- the entry was still there
    have heq : b.mData = d := by
      refine hself.resolve_right fun herased => ?_
      have hmem : e ∈ H.keyEq.erase k d := herased ▸ List.mem_of_getElem? he
      have hkeep := (List.mem_filter.mp hmem).2
      have hsame : H.keyEq.same e.1 k = true := hk
      simp [hsame] at hkeep
    suffices hbucket : ∀ j d₁, entriesAt (setBucket c.sh i _) j = some d₁ →
        ∃ d, parts[j]? = some d ∧ Behind H ⟨_, setBucket c.sh i _⟩ j d d₁ from
      follows_stutter hst.symm ⟨hm.placed, hm.perm, hbucket⟩
    intro j d₁ hd₁
    rw [entriesAt_setBucket hget] at hd₁
    by_cases hji : j = i
    · subst hji
      rw [if_pos rfl] at hd₁
      refine ⟨d, hd, .inr ⟨t, k, it, Function.update_self .., ?_⟩⟩
      rw [← Option.some.inj hd₁, ← heq]
      exact eraseIdx_eq_erase (heq ▸ hdistinct) hfound
    · rw [if_neg hji] at hd₁
      obtain ⟨d₀, hd₀, hbehind₀⟩ := hm.bucket j d₁ hd₁
      refine ⟨d₀, hd₀, hbehind₀.frame fun k' it' hr => ?_⟩
      rw [hp] at hr
      cases hr
      exact absurd rfl hji
  | @removed _ _ _ _ b hget he =>
    obtain rfl := Option.some.inj ((entriesAt_eq hget).symm.trans hd')
    have hall : H.keyEq.Avoids k b.mData := KeyEq.Avoids.of_take havoids he
    have heq : b.mData = H.keyEq.erase k d := by
      rcases hself with heq | heq
      · rw [← heq]
        exact hall.erase.symm
      · exact heq
    exact follows_lin hst rfl (.key m (.remove k))
      (hdone KeyEq.keyLocal_erase heq rfl rfl)
  | removeThrew =>
    rcases hself with heq | heq
    · exact follows_lin hst rfl (.thrown m (.remove k))
        (hdone (f := id) ⟨fun hp => hp, fun _ => rfl⟩ heq rfl rfl)
    · exact follows_lin hst rfl (.removeThrown m k) (hdone KeyEq.keyLocal_erase heq rfl rfl)

/-- The finite map follows every step. -/
theorem hashmapStep_follows (hn : 0 < n) (hI : Inv H n c) (hm : Parts H n c parts m)
    (hs : HashmapStep H.toKeys t (c.pc t) c.sh l p' s') : Follows H n c t m l p' s' := by
  have hplaced := hashmapStep_placed (hI.knows t) hI.placed hs
  generalize hp : c.pc t = p at hs
  cases hs with
  | client hs => exact clientStep_follows hI hm hp hs
  | lock hs => exact lockStep_follows hn hI hm hp hs
  | find hs => exact findStep_follows hI hm hp hs
  | copy hs => exact copyStep_follows hm hp hs
  | bucket hs =>
    by_cases hremove : ∃ k i it, p = .removeIf k i it
    · obtain ⟨k, i, it, rfl⟩ := hremove
      exact removeStep_follows hI hm hp hplaced hs
    · exact foundStep_follows hI hm hp (fun k i it h => hremove ⟨k, i, it, h⟩) hplaced hs

end Steps

/-! ## Every run -/

section Runs

variable [DecidableEq Tid] {H : LawfulKeys K} {n : ℕ}

omit [DecidableEq Tid] in
/-- INTERNAL: a new map is empty, and no call is in progress. -/
theorem mapRel_newMap : MapRel H n (newMap Tid K V n) .empty fun _ => .idle := by
  refine ⟨rfl, List.replicate n [], Maps.placed_replicate _ n, ?_, fun i d' hd' => ?_⟩
  · rw [List.flatten_replicate_nil]
    exact .refl _
  · rw [← table_getElem?] at hd'
    have htable : (table (newMap Tid K V n).sh).mBuckets = List.replicate n [] :=
      List.map_replicate
    rw [htable] at hd'
    exact ⟨d', hd', .inl rfl⟩

/-- INTERNAL: the finite map follows every run. -/
theorem mapRel_simulates (hn : 0 < n) :
    Simulates (HashmapStep H.toKeys : Concurrency.Program Tid (Pc K V) (Shared Tid K V) (Lab K V))
      (fun c _ => Inv H n c) (mapSpec H.keyEq n V) id Point.event (MapRel H n) := by
  constructor
  rintro c c' t l m f ⟨rfl, parts, hm⟩ hI ⟨hs⟩
  rename_i p' s'
  obtain ⟨v, m', parts', hmove, hv, hm'⟩ := hashmapStep_follows hn hI hm hs
  refine ⟨v, m', p'.status, hmove, hv, ?_, parts', hm'⟩
  funext u
  by_cases hut : u = t
  · subst hut
    simp
  · simp [Function.update_of_ne hut]

/-- **`ts_hashmap` is linearizable.** In every run of a map constructed with at least one
bucket no thread gets to where the source has no behaviour, and there is an order of the
calls that respects real time and in which the calls for one key return what a finite map
modulo `Key_eq` returns, also if some of them throw. -/
theorem map_linearizable (H : LawfulKeys K) (n : ℕ) (hn : 1 ≤ n)
    {tr : List (Tid × Lab K V)} {c : Config Tid (Pc K V) (Shared Tid K V)}
    (h : Run (HashmapStep H.toKeys) anyStep (newMap Tid K V n) tr c) :
    (∀ t, c.pc t ≠ .undefined) ∧ Linearizable (mapSpec H.keyEq n V) (observed id tr) := by
  refine ⟨fun t ht => ?_, ?_⟩
  · have hknows := (inv_run hn h).knows t
    rw [ht] at hknows
    exact hknows
  · refine (h.reached.mono fun _ _ hr => ?_).linearizable (mapRel_simulates hn) mapRel_newMap
    obtain ⟨-, tr', hr⟩ := hr
    exact inv_run hn hr

/-- A `remove` that throws behind the entry that it has erased, while another thread looks
into the other bucket. -/
theorem map_linearizable_throw :
    ∃ tr : List (Bool × Lab ℕ ℕ),
      observed id tr = [(true, .call (.key (.insert 5 1))), (true, .ret (.of (.bool true))),
        (true, .call (.key (.remove 5))), (false, .call (.key (.mappedFor 4))),
        (true, .ret .thrown), (false, .ret (.of (.value none)))] ∧
      Linearizable (mapSpec natKeys.keyEq 2 ℕ) (observed id tr) := by
  have h₀ : Run (HashmapStep natKeys.toKeys) anyStep (newMap Bool ℕ ℕ 2) [] _ := .nil
  have h₁ := h₀.snoc true trivial (.client (.call _ (.key (.insert 5 1))))
  have h₂ := h₁.snoc true trivial (.lock (.bucketFor _ _))
  have h₃ := h₂.snoc true trivial (.lock (.lock rfl fun u => by cases u <;> rfl))
  have h₄ := h₃.snoc true trivial (.find (.endInsert rfl rfl))
  have h₅ := h₄.snoc true trivial (.bucket (.push rfl))
  have h₆ := h₅.snoc true trivial (.lock (.unlock rfl))
  have h₇ := h₆.snoc true trivial (.client (.ret _ _))
  have k₁ := h₇.snoc true trivial (.client (.call _ (.key (.remove 5))))
  have k₂ := k₁.snoc true trivial (.lock (.bucketFor _ _))
  have k₃ := k₂.snoc true trivial (.lock (.lock rfl fun u => by cases u <;> rfl))
  have k₄ := k₃.snoc true trivial (.bucket (.erase rfl rfl rfl))
  have l₁ := k₄.snoc false trivial (.client (.call _ (.key (.mappedFor 4))))
  have l₂ := l₁.snoc false trivial (.lock (.bucketFor _ _))
  have l₃ := l₂.snoc false trivial (.lock (.lock rfl fun u => by cases u <;> decide))
  have l₄ := l₃.snoc false trivial (.find (.endRead rfl rfl))
  have k₅ := l₄.snoc true trivial (.bucket (.removeThrew _ _ _ _))
  have k₆ := k₅.snoc true trivial (.lock (.unlock rfl))
  have k₇ := k₆.snoc true trivial (.client (.ret _ _))
  have l₅ := k₇.snoc false trivial (.lock (.unlock rfl))
  have l₆ := l₅.snoc false trivial (.client (.ret _ _))
  exact ⟨_, rfl, (map_linearizable natKeys 2 (by decide) l₆).2⟩

end Runs

end UbuntuProjects.TsHashmap
