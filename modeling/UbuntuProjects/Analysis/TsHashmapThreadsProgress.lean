import UbuntuProjects.Analysis.TsHashmapThreadsInvariant
import UbuntuProjects.Concurrency.Progress

/-!
# `ts_hashmap` does not deadlock

A thread that holds the mutex of a bucket never waits: its loop comes to the end of the list
and it unlocks (`exists_leaves`). So all mutexes can be given back, and then every call can be
finished by its thread alone, one call after another (`all_calls_return`).
-/

set_option autoImplicit false

namespace UbuntuProjects.TsHashmap

open Concurrency (Config Run Step Hold Program Solo anyStep exists_run_settled)
open Hashmap

variable {Tid K V : Type} [DecidableEq Tid]

/-! ## One thread alone -/

/-- An exception is on its way to the caller. -/
def Pc.thrown : Pc K V → Prop
  | .returning r => r = .thrown
  | .unlock _ _ r => r = .thrown
  | _ => False

/-- The steps at which nothing throws. -/
def CalmStep (H : Keys K) (t : Tid) (p : Pc K V) (s : Shared Tid K V) (l : Lab K V)
    (p' : Pc K V) (s' : Shared Tid K V) : Prop :=
  HashmapStep H t p s l p' s' ∧ (p'.thrown → p.thrown)

/-- The step is no new call. -/
def Quiet (_ : Pc K V) (_ : Shared Tid K V) (l : Lab K V) : Prop := ∀ op, l ≠ some (.call op)

/-- Thread `t`, stepping alone, comes from one control point and shared state to another. It
makes no call, and nothing throws. -/
abbrev Comes (H : Keys K) (t : Tid) (p : Pc K V) (s : Shared Tid K V) (p' : Pc K V)
    (s' : Shared Tid K V) : Prop :=
  Solo (CalmStep H : Program Tid (Pc K V) (Shared Tid K V) (Lab K V)) Quiet t p s p' s'

/-- Thread `t`, alone, gets to its return. -/
def Leaves (H : Keys K) (t : Tid) (p : Pc K V) (s : Shared Tid K V) : Prop :=
  ∃ r s', Comes H t p s (.returning r) s'

section Alone

variable {H : Keys K} {t : Tid} {p p' : Pc K V} {s s' : Shared Tid K V} {i : ℕ}
  {b : LockedBucket Tid K V}

/-- INTERNAL: one silent step first. -/
theorem comes_step {p'' : Pc K V} {s'' : Shared Tid K V} (h : HashmapStep H t p s none p' s')
    (hcalm : p'.thrown → p.thrown) (h' : Comes H t p' s' p'' s'') : Comes H t p s p'' s'' :=
  .step ⟨h, hcalm⟩ nofun h'

/-- INTERNAL: one silent step first. -/
theorem leaves_step (h : HashmapStep H t p s none p' s') (hcalm : p'.thrown → p.thrown)
    (h' : Leaves H t p' s') : Leaves H t p s := by
  obtain ⟨r, s'', h'⟩ := h'
  exact ⟨r, s'', comes_step h hcalm h'⟩

theorem leaves_unlock {h : Hold} {r : Result K V} (hget : s.mBuckets[i]? = some b) :
    Leaves H t (.unlock h i r) s :=
  ⟨r, _, comes_step (.lock (.unlock hget)) id (.refl _ _)⟩

omit [DecidableEq Tid] in
/-- INTERNAL: a written bucket is still there. -/
theorem getElem?_setBucket (hget : s.mBuckets[i]? = some b) (b' : LockedBucket Tid K V) :
    (setBucket s i b').mBuckets[i]? = some b' :=
  List.getElem?_set_self (List.getElem?_eq_some_iff.mp hget).1

theorem leaves_assign {k : K} {m : V} {it : ℕ} (hget : s.mBuckets[i]? = some b) :
    Leaves H t (.assign k m i it) s :=
  leaves_step (.bucket (.assign hget)) nofun (leaves_unlock (getElem?_setBucket hget _))

theorem leaves_push {k : K} {m : V} {orAssign : Bool} (hget : s.mBuckets[i]? = some b) :
    Leaves H t (.push k m i orAssign) s :=
  leaves_step (.bucket (.push hget)) nofun (leaves_unlock (getElem?_setBucket hget _))

theorem leaves_read {k : K} {it : ℕ} {e : K × V} (hget : s.mBuckets[i]? = some b)
    (he : b.mData[it]? = some e) : Leaves H t (.read k i it) s :=
  leaves_step (.bucket (.read hget he)) nofun (leaves_unlock hget)

/-- INTERNAL: the search comes to an end. -/
theorem leaves_find {o : KeyOp K V} {it : ℕ} (ho : ∀ k, o ≠ .remove k)
    (hget : s.mBuckets[i]? = some b) : Leaves H t (.find o i it) s := by
  induction hd : b.mData.length - it generalizing it with
  | zero =>
    have he : b.mData[it]? = none := List.getElem?_eq_none (by omega)
    cases o with
    | insert k m => exact leaves_step (.find (.endInsert hget he)) nofun (leaves_push hget)
    | insertOrAssign k m =>
      exact leaves_step (.find (.endAssign hget he)) nofun (leaves_push hget)
    | remove k => exact absurd rfl (ho k)
    | mappedFor k => exact leaves_step (.find (.endRead hget he)) nofun (leaves_unlock hget)
  | succ d ih =>
    have he : b.mData[it]? = some b.mData[it] := List.getElem?_eq_getElem (by omega)
    cases hk : H.keyEqual b.mData[it].1 o.key with
    | false =>
      apply leaves_step (.find (.next hget he hk)) nofun
      apply ih
      omega
    | true =>
      cases o with
      | insert k m =>
        exact leaves_step (.find (.foundInsert hget he hk)) nofun (leaves_unlock hget)
      | insertOrAssign k m =>
        exact leaves_step (.find (.foundAssign hget he hk)) nofun (leaves_assign hget)
      | remove k => exact absurd rfl (ho k)
      | mappedFor k =>
        exact leaves_step (.find (.foundRead hget he hk)) nofun (leaves_read hget he)

/-- INTERNAL: `remove_if` comes to an end: an entry is passed or erased. -/
theorem leaves_removeIf {k : K} {it : ℕ} (hget : s.mBuckets[i]? = some b) :
    Leaves H t (.removeIf k i it) s := by
  induction hd : b.mData.length - it generalizing it s b with
  | zero =>
    have he : b.mData[it]? = none := List.getElem?_eq_none (by omega)
    exact leaves_step (.bucket (.removed hget he)) nofun (leaves_unlock hget)
  | succ d ih =>
    have he : b.mData[it]? = some b.mData[it] := List.getElem?_eq_getElem (by omega)
    cases hk : H.keyEqual b.mData[it].1 k with
    | false =>
      apply leaves_step (.bucket (.keep hget he hk)) nofun
      apply ih hget
      omega
    | true =>
      apply leaves_step (.bucket (.erase hget he hk)) nofun
      apply ih (getElem?_setBucket hget _)
      rw [List.length_eraseIdx_of_lt (by omega)]
      omega

/-- INTERNAL: `copy` comes to the end of a bucket. -/
theorem comes_copyEntry (it : ℕ) (out : List (K × V)) (hget : s.mBuckets[i]? = some b) :
    ∃ out' s', Comes H t (.copyEntry i it out) s (.copyTest (i + 1) out') s' := by
  induction hd : b.mData.length - it generalizing it out with
  | zero =>
    have he : b.mData[it]? = none := List.getElem?_eq_none (by omega)
    exact ⟨out, _, comes_step (.copy (.copied hget he)) nofun
      (comes_step (.copy (.unlock hget)) nofun (.refl _ _))⟩
  | succ d ih =>
    have he : b.mData[it]? = some b.mData[it] := List.getElem?_eq_getElem (by omega)
    obtain ⟨out', s', h⟩ := ih (it + 1) (out ++ [b.mData[it]]) (by omega)
    exact ⟨out', s', comes_step (.copy (.entry hget he)) nofun h⟩

end Alone

/-! ## Giving back the mutexes -/

section Leaving

variable {H : LawfulKeys K} {n : ℕ} {t : Tid} {p p' : Pc K V} {s s' : Shared Tid K V}

/-- A thread that holds the mutex of a bucket gives it back without waiting. -/
theorem exists_leaves (hn : 0 < n) (hlen : s.mBuckets.length = n) (h : Knows H n s p)
    (hp : p.held ≠ none) : ∃ p' s', Comes H.toKeys t p s p' s' ∧ p'.held = none ∧
      ((∃ r, p' = .returning r) ∨ ∃ i out, p' = .copyTest i out) := by
  have hget : ∀ {i : ℕ}, i < n → ∃ b, s.mBuckets[i]? = some b := fun hi =>
    ⟨_, List.getElem?_eq_getElem (hlen ▸ hi)⟩
  have hleaves : Leaves H.toKeys t p s → ∃ p' s', Comes H.toKeys t p s p' s' ∧
      p'.held = none ∧ ((∃ r, p' = .returning r) ∨ ∃ i out, p' = .copyTest i out) := by
    rintro ⟨r, s', hcomes⟩
    exact ⟨_, s', hcomes, rfl, .inl ⟨r, rfl⟩⟩
  cases p with
  | find o i it =>
    obtain ⟨b, hb⟩ := hget (h.2.lt hn)
    exact hleaves (leaves_find h.1 hb)
  | assign k m i it =>
    obtain ⟨b, hb⟩ := hget (InBucket.lt h hn)
    exact hleaves (leaves_assign hb)
  | push k m i orAssign =>
    obtain ⟨b, hb⟩ := hget (InBucket.lt h hn)
    exact hleaves (leaves_push hb)
  | read k i it =>
    obtain ⟨b, hb⟩ := hget (InBucket.lt h hn)
    have hfound : findEntry H.toKeys k b.mData = some it := InBucket.get h hb
    have hlt : it < b.mData.length := (List.findIdx?_eq_some_iff_findIdx_eq.mp hfound).1
    exact hleaves (leaves_read hb (List.getElem?_eq_getElem hlt))
  | removeIf k i it =>
    obtain ⟨b, hb⟩ := hget (InBucket.lt h hn)
    exact hleaves (leaves_removeIf hb)
  | unlock x i r =>
    obtain ⟨b, hb⟩ := hget h
    exact hleaves (leaves_unlock hb)
  | copyEntry i it out =>
    obtain ⟨b, hb⟩ := hget h
    obtain ⟨out', s', hcomes⟩ := comes_copyEntry (H := H.toKeys) (t := t) it out hb
    exact ⟨_, s', hcomes, rfl, .inr ⟨i + 1, out', rfl⟩⟩
  | copyUnlock i out =>
    obtain ⟨b, hb⟩ := hget h
    exact ⟨_, _, comes_step (.copy (.unlock hb)) nofun (.refl _ _), rfl, .inr ⟨i + 1, out, rfl⟩⟩
  | _ => exact absurd rfl hp

/-- The situation of a thread that is the only one to hold mutexes. -/
structure Only (H : LawfulKeys K) (n : ℕ) (t : Tid) (p : Pc K V) (s : Shared Tid K V) :
    Prop where
  count : s.mBucketsCount = n
  length : s.mBuckets.length = n
  own : ∀ i, holdAt s i t = p.hold i
  others : ∀ u, u ≠ t → ∀ i, holdAt s i u = .free
  knows : Knows H n s p

/-- INTERNAL: the thread stays the only one. -/
theorem Only.comes (hn : 0 < n) (h : Only H n t p s) (hc : Comes H.toKeys t p s p' s') :
    Only H n t p' s' := by
  refine hc.invariant (Only H n t) (fun p s l p' s' h _ hs => ?_) h
  have heffect := hashmapStep_effect hs.1
  exact ⟨heffect.count.trans h.count, heffect.length.trans h.length, heffect.own h.own,
    fun u hu i => (heffect.others u hu i).trans (h.others u hu i),
    hashmapStep_knows hn h.count h.length h.knows hs.1⟩

omit [DecidableEq Tid] in
/-- INTERNAL: the buckets of the map. -/
theorem Only.get {i : ℕ} (h : Only H n t p s) (hi : i < n) : ∃ b, s.mBuckets[i]? = some b :=
  ⟨_, List.getElem?_eq_getElem (h.length ▸ hi)⟩

/-- INTERNAL: every mutex is granted. -/
theorem Only.grants {i : ℕ} {b : LockedBucket Tid K V} (h : Only H n t p s)
    (hp : p.held = none) (hget : s.mBuckets[i]? = some b) (x : Hold) : b.mMut.Grants x := by
  have hfree : ∀ u, b.mMut u = .free := by
    intro u
    rw [← holdAt_eq hget]
    by_cases hu : u = t
    · rw [hu, h.own, Pc.hold_of_none hp]
    · exact h.others u hu i
  cases x with
  | free => trivial
  | shared => exact Concurrency.SharedMutex.not_exclusive_of_free hfree
  | exclusive => exact hfree

/-- INTERNAL: `copy` locks the next bucket and comes to its end. -/
theorem Only.copyLock_comes {i : ℕ} {out : List (K × V)} (h : Only H n t (.copyLock i out) s) :
    ∃ out' s', Comes H.toKeys t (.copyLock i out) s (.copyTest (i + 1) out') s' := by
  obtain ⟨b, hget⟩ := h.get h.knows
  obtain ⟨out', s', hcomes⟩ := comes_copyEntry (H := H.toKeys) (t := t) 0 out
    (getElem?_setBucket hget (b.hold t .shared))
  exact ⟨out', s', comes_step (.copy (.lock hget (h.grants rfl hget .shared))) nofun hcomes⟩

/-- INTERNAL: `copy` finishes. -/
theorem Only.copyTest_leaves {i : ℕ} {out : List (K × V)} (hn : 0 < n)
    (h : Only H n t (.copyTest i out) s) : Leaves H.toKeys t (.copyTest i out) s := by
  have hle : i ≤ n := h.knows
  have hlen := h.length
  have htest := CopyStep.test (t := t) s i out
  induction hd : n - i generalizing i out s with
  | zero =>
    obtain rfl : i = n := by omega
    rw [afterCopyTest, if_pos hlen.symm] at htest
    exact ⟨_, _, comes_step (.copy htest) nofun (.refl _ _)⟩
  | succ d ih =>
    rw [afterCopyTest, if_neg (by omega)] at htest
    have hlock : Comes H.toKeys t (.copyTest i out) s (.copyLock i out) s :=
      comes_step (.copy htest) nofun (.refl _ _)
    obtain ⟨out', s', hcomes⟩ := (h.comes hn hlock).copyLock_comes
    have hall := hlock.trans hcomes
    have h' := h.comes hn hall
    obtain ⟨r, s'', hrest⟩ := ih h' (by omega) h'.length (CopyStep.test s' _ _) (by omega)
    exact ⟨r, s'', hall.trans hrest⟩

/-- INTERNAL: a call for one key gets its mutex and finishes. -/
theorem Only.lock_leaves {o : KeyOp K V} {i : ℕ} (hn : 0 < n) (h : Only H n t (.lock o i) s) :
    Leaves H.toKeys t (.lock o i) s := by
  have hi : H.hasher o.key % n = i := h.knows
  obtain ⟨b, hget⟩ := h.get (hi ▸ Nat.mod_lt _ hn)
  have hget' := getElem?_setBucket hget (b.hold t (bucketHold o))
  cases o with
  | remove k =>
    exact leaves_step (.lock (.lock hget (h.grants rfl hget _))) nofun (leaves_removeIf hget')
  | insert | insertOrAssign | mappedFor =>
    exact leaves_step (.lock (.lock hget (h.grants rfl hget _))) nofun (leaves_find nofun hget')

/-- INTERNAL: the thread comes to its return. -/
theorem Only.leaves (hn : 0 < n) (h : Only H n t p s) (hp : p ≠ .idle) :
    Leaves H.toKeys t p s := by
  by_cases hheld : p.held = none
  · cases p with
    | idle => exact absurd rfl hp
    | returning r => exact ⟨r, s, .refl _ _⟩
    | undefined => exact h.knows.elim
    | bucketFor o =>
      have hfor := LockStep.bucketFor (H := H.toKeys) (t := t) s o
      have hlt : H.hasher o.key % n < n := Nat.mod_lt _ hn
      rw [Buckets.bucketFor, h.count, h.length, if_neg hn.ne', if_pos hlt] at hfor
      have hcomes : Comes H.toKeys t (.bucketFor o) s _ s :=
        comes_step (.lock hfor) id (.refl _ _)
      obtain ⟨r, s', hrest⟩ := (h.comes hn hcomes).lock_leaves hn
      exact ⟨r, s', hcomes.trans hrest⟩
    | lock o i => exact h.lock_leaves hn
    | copyTest i out => exact h.copyTest_leaves hn
    | copyLock i out =>
      obtain ⟨out', s', hcomes⟩ := h.copyLock_comes
      obtain ⟨r, s'', hrest⟩ := (h.comes hn hcomes).copyTest_leaves hn
      exact ⟨r, s'', hcomes.trans hrest⟩
    | countRead =>
      refine ⟨_, s, comes_step (.client (.countRead s)) ?_ (.refl _ _)⟩
      intro hthrown
      cases hthrown
    | _ => cases hheld
  · obtain ⟨p', s', hcomes, -, ⟨r, rfl⟩ | ⟨i, out, rfl⟩⟩ :=
      exists_leaves hn h.length h.knows hheld
    · exact ⟨r, s', hcomes⟩
    · obtain ⟨r, s'', hrest⟩ := (h.comes hn hcomes).copyTest_leaves hn
      exact ⟨r, s'', hcomes.trans hrest⟩

end Leaving

/-! ## Every run -/

section Runs

variable {H : LawfulKeys K} {n : ℕ} {c c' : Config Tid (Pc K V) (Shared Tid K V)} {t : Tid}

/-- No call is made. -/
def Finishing (_ : Config Tid (Pc K V) (Shared Tid K V)) (e : Tid × Lab K V) : Prop :=
  ∀ op, e.2 ≠ some (.call op)

/-- INTERNAL: the run in which a thread steps alone. -/
theorem Inv.comes {p' : Pc K V} {s' : Shared Tid K V} (hn : 0 < n) (hI : Inv H n c)
    (h : Comes H.toKeys t (c.pc t) c.sh p' s') :
    ∃ tr, Run (CalmStep H.toKeys) Finishing c tr ⟨Function.update c.pc t p', s'⟩ ∧
      Inv H n ⟨Function.update c.pc t p', s'⟩ := by
  obtain ⟨tr, hr⟩ := h.run (G := Finishing) fun _ _ hok => hok
  refine ⟨tr, hr.mono fun _ _ hg => hg.1, ?_⟩
  exact hr.invariant (Inv H n) hI fun _ _ _ hI _ hs => hI.step hn (hs.weaken fun _ _ _ _ _ _ hs => hs.1)

/-- INTERNAL: a thread gives back its mutex, and the others hold what they held. -/
theorem Inv.frees (hn : 0 < n) (hI : Inv H n c) (ht : (c.pc t).held ≠ none) :
    ∃ tr c', Run (CalmStep H.toKeys) Finishing c tr c' ∧ Inv H n c' ∧
      (c'.pc t).held = none ∧ ∀ u, (c.pc u).held = none → (c'.pc u).held = none := by
  obtain ⟨p', s', hcomes, hp', -⟩ := exists_leaves (t := t) hn hI.length (hI.knows t) ht
  obtain ⟨tr, hr, hI'⟩ := hI.comes hn hcomes
  refine ⟨tr, _, hr, hI', by simpa using hp', fun u hu => ?_⟩
  by_cases hut : u = t
  · subst hut
    simpa using hp'
  · simpa [Function.update_of_ne hut] using hu

/-- INTERNAL: while all mutexes are free a thread finishes its call, and they are free
again. -/
theorem Inv.finishes (hn : 0 < n) (hI : Inv H n c) (hfree : ∀ u, (c.pc u).held = none)
    (ht : c.pc t ≠ .idle) :
    ∃ tr c', Run (CalmStep H.toKeys) Finishing c tr c' ∧
      (Inv H n c' ∧ ∀ u, (c'.pc u).held = none) ∧ c'.pc t = .idle ∧
        ∀ u, c.pc u = .idle → c'.pc u = .idle := by
  have honly : Only H n t (c.pc t) c.sh := by
    refine ⟨hI.count, hI.length, hI.owns t, fun u _ i => ?_, hI.knows t⟩
    rw [hI.owns, Pc.hold_of_none (hfree u)]
  obtain ⟨r, s', hcomes⟩ := honly.leaves hn ht
  have hidle : Comes H.toKeys t (c.pc t) c.sh .idle s' :=
    Solo.snoc hcomes ⟨.client (.ret s' r), nofun⟩ nofun
  obtain ⟨tr, hr, hI'⟩ := hI.comes hn hidle
  refine ⟨tr, _, hr, ⟨hI', fun u => ?_⟩, Function.update_self .., fun u hu => ?_⟩
  · by_cases hut : u = t
    · subst hut
      simp [Pc.held]
    · simpa [Function.update_of_ne hut] using hfree u
  · by_cases hut : u = t
    · subst hut
      exact Function.update_self ..
    · simpa [Function.update_of_ne hut] using hu

/-- **`ts_hashmap` does not deadlock.** Every run of a map constructed with at least one
bucket can be continued, without new calls and without exceptions, until every call has
returned. -/
theorem all_calls_return (H : LawfulKeys K) (n : ℕ) (hn : 1 ≤ n) {tr : List (Tid × Lab K V)}
    (h : Run (HashmapStep H.toKeys) anyStep (newMap Tid K V n) tr c) :
    ∃ tr' c', Run (CalmStep H.toKeys) Finishing c tr' c' ∧ ∀ t, c'.pc t = .idle := by
  have hmoved : ∀ {tr c}, Run (HashmapStep H.toKeys) anyStep (newMap Tid K V n) tr c →
      {t | c.pc t ≠ (.idle : Pc K V)}.Finite := fun hr => hr.finite_moved
  obtain ⟨tr₁, c₁, hr₁, hI₁, hfree⟩ := exists_run_settled (G := Finishing)
    (R := fun c t => (c.pc t).held = none) (fun _ _ hI ht => Inv.frees hn hI ht) (inv_run hn h)
    ((hmoved h).subset fun t ht hidle => ht (by rw [hidle]; rfl))
  obtain ⟨tr₂, c₂, hr₂, -, hidle⟩ := exists_run_settled (G := Finishing)
    (R := fun c t => c.pc t = .idle) (I := fun c => Inv H n c ∧ ∀ t, (c.pc t).held = none)
    (fun _ _ hI ht => Inv.finishes hn hI.1 hI.2 ht) ⟨hI₁, hfree⟩ (hmoved (h.trans (hr₁.any.weaken fun _ _ _ _ _ _ hs => hs.1)))
  exact ⟨_, c₂, hr₁.trans hr₂, hidle⟩

/-- A thread waits for the mutex of a bucket that `copy` shares. -/
theorem all_calls_return_copy :
    ∃ (c : Config Bool (Pc ℕ ℕ) (Shared Bool ℕ ℕ)) (tr : List (Bool × Lab ℕ ℕ)),
      Run (HashmapStep natKeys.toKeys) anyStep (newMap Bool ℕ ℕ 1) tr c ∧
        c.pc false = .copyEntry 0 0 [] ∧ c.pc true = .lock (.insert 5 1) 0 ∧
        ∃ tr' c', Run (CalmStep natKeys.toKeys) Finishing c tr' c' ∧ ∀ t, c'.pc t = .idle := by
  have h₀ : Run (HashmapStep natKeys.toKeys) anyStep (newMap Bool ℕ ℕ 1) [] _ := .nil
  have h₁ := h₀.snoc false trivial (.client (.call _ .copy))
  have h₂ := h₁.snoc true trivial (.client (.call _ (.key (.insert 5 1))))
  have h₃ := h₂.snoc false trivial (.copy (.test _ _ _))
  have h₄ := h₃.snoc true trivial (.lock (.bucketFor _ _))
  have h₅ := h₄.snoc false trivial (.copy (.lock rfl fun u => by cases u <;> decide))
  exact ⟨_, _, h₅, rfl, rfl, all_calls_return natKeys 1 (by decide) h₅⟩

end Runs

end UbuntuProjects.TsHashmap
