import Mathlib.Data.List.Nodup
import UbuntuProjects.Analysis.TsExHashmapContents

/-!
# `ts_ex_hashmap` is linearizable

The entries of the map and those that a `rehash` has moved to its new vector are together a
permutation of the entries of the finite map (`MapRel`). Only the thread that holds `m_mut`
exclusively has moved any, and nobody looks at the buckets meanwhile. So the finite map
follows every run in which `rehash` leaves at least one bucket, that is, finds counters
that are not all zero (`rehashCount_pos`), and the map is linearizable
(`hashmap_linearizable`).
-/

set_option autoImplicit false

namespace UbuntuProjects.TsExHashmap

open Concurrency (Config Run Step Status Simulates Linearizable observed Point)
open Hashmap
open Maps (KeyEq AssocMap)

variable {Tid K V : Type}

/-! ## The simulation relation -/

/-- The entries that the `rehash` in progress has moved to its new vector. -/
structure Moved (c : Config Tid (Pc K V) (Shared Tid K V)) (moved : List (K × V)) :
    Prop where
  exclusive : ∀ t, c.sh.mMut t = .exclusive → moved = (c.pc t).moved
  free : (∀ t, c.sh.mMut t ≠ .exclusive) → moved = []

/-- The finite map has the entries of the buckets and the moved ones, and every thread is
where its control point says. -/
def MapRel {E : KeyEq K} (c : Config Tid (Pc K V) (Shared Tid K V)) (m : AssocMap E V)
    (f : Tid → Status (Op K V) (Result K V)) : Prop :=
  f = (fun t => (c.pc t).status) ∧
    ∃ moved, Moved c moved ∧ (c.sh.table.copy ++ moved).Perm m.entries

section Relation

variable [DecidableEq Tid] {c : Config Tid (Pc K V) (Shared Tid K V)} {t : Tid}
  {p' : Pc K V} {s' : Shared Tid K V} {moved : List (K × V)}

/-- INTERNAL: a thread that is not in `rehash` moves nothing. -/
theorem Moved.keep (h : Moved c moved) (hrely : ∀ u, u ≠ t → s'.mMut u = c.sh.mMut u)
    (hno : c.sh.mMut t ≠ .exclusive) (hno' : s'.mMut t ≠ .exclusive) :
    Moved ⟨Function.update c.pc t p', s'⟩ moved := by
  refine ⟨fun u hu => ?_, fun hall => h.free fun u => ?_⟩
  · have hut : u ≠ t := by
      rintro rfl
      exact hno' hu
    simp only [Function.update_of_ne hut]
    exact h.exclusive u ((hrely u hut).symm.trans hu)
  · by_cases hut : u = t
    · subst hut
      exact hno
    · rw [← hrely u hut]
      exact hall u

/-- INTERNAL: what a thread in `rehash` has moved. -/
theorem moved_of_exclusive (hvalid : s'.mMut.Valid) (hex : s'.mMut t = .exclusive) :
    Moved ⟨Function.update c.pc t p', s'⟩ p'.moved := by
  refine ⟨fun u hu => ?_, fun hall => absurd hex (hall t)⟩
  by_cases hut : u = t
  · subst hut
    simp
  · have hu' : s'.mMut u = .exclusive := hu
    rw [hvalid t u hex hut] at hu'
    cases hu'

/-- INTERNAL: nothing is moved when nobody is in `rehash`. -/
theorem moved_nil (hno : ∀ u, s'.mMut u ≠ .exclusive) :
    Moved (⟨Function.update c.pc t p', s'⟩ : Config Tid (Pc K V) (Shared Tid K V)) [] :=
  ⟨fun u hu => absurd hu (hno u), fun _ => rfl⟩

/-- INTERNAL: the statuses after a step. -/
theorem status_update (c : Config Tid (Pc K V) (Shared Tid K V)) (t : Tid) (p' : Pc K V)
    (s' : Shared Tid K V) :
    Function.update (fun u => (c.pc u).status) t p'.status =
      fun u => ((⟨Function.update c.pc t p', s'⟩ :
        Config Tid (Pc K V) (Shared Tid K V)).pc u).status := by
  funext u
  by_cases hut : u = t
  · subst hut
    simp
  · simp [Function.update_of_ne hut]

end Relation

/-! ## The simulation -/

section Simulation

variable [DecidableEq Tid] {H : LawfulKeys K} {n : ℕ}

/-- INTERNAL: outside `rehash` no thread takes or has `m_mut` exclusively. -/
theorem mapHold_ne_exclusive {s s' : Shared Tid K V} {t : Tid} {p p' : Pc K V}
    {l : Lab K V} (h : ClientStep t p s l p' s' ∨ KeyStep H.toKeys t p s l p' s' ∨
      BucketStep t p s l p' s' ∨ ReadStep t p s l p' s') :
    p.mapHold ≠ .exclusive ∧ p'.mapHold ≠ .exclusive := by
  rcases h with h | h | h | h
  · cases h with
    | call _ op => cases op <;> simp [Pc.mapHold, Op.entry]
    | ret _ r => simp [Pc.mapHold]
  · cases h with
    | bucketFor _ o =>
      unfold afterBucketFor
      split <;> simp [Pc.mapHold]
    | @find _ o r b hr =>
      rw [(afterFind_holds H.toKeys o r b.toBucket).1]
      exact ⟨by simp [Pc.mapHold], by decide⟩
    | _ => simp [Pc.mapHold]
  · cases h with
    | @push _ k v r counted b hr => cases counted <;> simp [Pc.mapHold, afterPush]
    | _ => simp [Pc.mapHold]
  · cases h with
    | test _ q x =>
      unfold afterReadTest
      split <;> simp [Pc.mapHold]
    | _ => simp [Pc.mapHold]

/-- INTERNAL: the finite map follows a step out of a configuration in which the outline
holds, if `rehash` finds that the counters are not all zero. -/
theorem MapRel.step {c c' : Config Tid (Pc K V) (Shared Tid K V)} {t : Tid} {l : Lab K V}
    {m : AssocMap H.keyEq V} {f : Tid → Status (Op K V) (Result K V)} (h : MapRel c m f)
    (hO : (outline Tid H.toKeys).Holds c) (hne : RehashNonempty c (t, l))
    (hs : Step (HashmapStep H.toKeys) c (t, l) c') :
    ∃ v m' st', Concurrency.AtomicMove (mapSpec H.keyEq V) m (f t) v m' st' ∧
      v.bind Point.event = l ∧ MapRel c' m' (Function.update f t st') := by
  obtain ⟨rfl, moved, hmoved, hm⟩ := h
  obtain ⟨hs⟩ := hs
  rename_i p' s'
  obtain ⟨_, hI, hA⟩ := hO
  have hg := hashmapStep_guarantee hI (hA t) hne hs
  have ht := (hA t).map
  have ht' := hg.asserts.map
  -- a match of the step gives the move, once it is known what is moved afterwards
  suffices hfollows : ∃ moved', Moved ⟨Function.update c.pc t p', s'⟩ moved' ∧
      Follows m (c.pc t) l p' (s'.table.copy ++ moved') by
    obtain ⟨moved', hmoved', v, m', hmove, hv, hperm⟩ := hfollows
    exact ⟨v, m', p'.status, hmove, hv, status_update c t p' s', moved', hmoved', hperm⟩
  have hkeep : (c.pc t).mapHold ≠ .exclusive ∧ p'.mapHold ≠ .exclusive →
      Moved ⟨Function.update c.pc t p', s'⟩ moved := fun hno =>
    hmoved.keep (fun u hu => (hg.rely u hu).map) (ht ▸ hno.1) (ht' ▸ hno.2)
  have hshared : (c.pc t).mapHold = .shared → moved = [] := fun hsh =>
    hmoved.free (hI.map.not_exclusive_of_shared (ht.trans hsh))
  cases hs with
  | client h =>
    refine ⟨moved, hkeep (mapHold_ne_exclusive (H := H) (.inl h)), ?_⟩
    have hsh : s' = c.sh := by
      generalize c.pc t = p at h
      cases h <;> rfl
    rw [hsh]
    exact clientStep_follows hm h
  | key h =>
    exact ⟨moved, hkeep (mapHold_ne_exclusive (.inr (.inl h))),
      keyStep_follows hI (hA t) hm hshared h⟩
  | bucket h =>
    have hsh : (c.pc t).mapHold = .shared := by
      generalize c.pc t = p at h
      cases h <;> rfl
    refine ⟨moved, hkeep (mapHold_ne_exclusive (H := H) (.inr (.inr (.inl h)))), ?_⟩
    rw [hshared hsh, List.append_nil] at hm ⊢
    exact bucketStep_follows hI (hA t) hm h
  | read h =>
    refine ⟨moved, hkeep (mapHold_ne_exclusive (H := H) (.inr (.inr (.inr h)))), ?_⟩
    obtain ⟨hfollows, hcopy⟩ := readStep_follows hm h
    rw [hcopy]
    exact hfollows
  | rehash h =>
    refine ⟨p'.moved, ?_, rehashStep_follows (hA t) hm (fun hex =>
      hmoved.exclusive t (ht.trans hex)) hmoved.free h⟩
    by_cases hex : p'.mapHold = .exclusive
    · exact moved_of_exclusive hg.inv.map (ht'.trans hex)
    · -- `m_mut` was released
      have hunlock : p'.moved = [] ∧ (c.pc t).mapHold = .exclusive := by
        generalize c.pc t = p at h
        cases h with
        | unlock _ res => exact ⟨rfl, rfl⟩
        | @move _ c tmp b e oldData hlast hr hdata =>
          unfold afterMove at hex ⊢
          split at hex
          · exact absurd rfl hex
          · exact ⟨rfl, rfl⟩
        | _ => exact absurd rfl hex
      rw [hunlock.1]
      refine moved_nil fun u => ?_
      by_cases hut : u = t
      · subst hut
        rwa [ht']
      · rw [(hg.rely u hut).map, (hI.alone (ht.trans hunlock.2)).1 u hut]
        decide

/-- The finite map follows every step of a run in which `rehash` finds that the counters
are not all zero. -/
theorem mapRel_simulates (hn : 0 < n) :
    Simulates (HashmapStep H.toKeys : Concurrency.Program Tid (Pc K V) (Shared Tid K V) (Lab K V))
      (fun c e => RehashNonempty c e ∧
        ∃ tr, Run (HashmapStep H.toKeys) RehashNonempty (newMap Tid K V n) tr c)
      (mapSpec H.keyEq V) id Point.event MapRel := by
  constructor
  rintro c c' t l m f hrel ⟨hne, tr, hrun⟩ hs
  exact hrel.step (outline_run hn hrun) hne hs

omit [DecidableEq Tid] in
/-- INTERNAL: a new map is empty, and no call is in progress. -/
theorem mapRel_newMap (E : KeyEq K) :
    MapRel (newMap Tid K V n) (AssocMap.empty : AssocMap E V) fun _ => .idle := by
  have htable : (newMap Tid K V n).sh.table = TsExHashmap.new n := table_map_newLocked
  refine ⟨rfl, [], ⟨fun t ht => ?_, fun _ => rfl⟩, ?_⟩
  · cases ht
  · rw [htable, copy_new]
    exact .refl _

end Simulation

/-! ## Inserts of equal keys -/

section Inserts

variable {E : KeyEq K}

/-- The call is one for a key equal to `k`. -/
def Op.touches (E : KeyEq K) (k : K) : Op K V → Bool
  | .key o => E.same o.key k
  | _ => false

/-- INTERNAL: a call for another key leaves the entry of `k` alone. -/
theorem lookup_of_not_touches {k : K} {m m' : AssocMap E V} {op : Op K V} {r : Result K V}
    (hop : op.touches E k = false) (h : MapStep E m op r m') : m'.lookup k = m.lookup k := by
  cases h with
  | key o =>
    have hne : E.same o.key k = false := hop
    cases o with
    | insert k' v =>
      show E.find k (E.insert k' v m.entries) = _
      rw [KeyEq.insert]
      split
      · rfl
      · exact KeyEq.find_cons_of_ne hne
    | insertOrAssign k' v =>
      show E.find k (E.insertOrAssign k' v m.entries) = _
      rw [KeyEq.insertOrAssign]
      split
      · exact KeyEq.find_assign_of_ne hne
      · exact KeyEq.find_cons_of_ne hne
    | remove k' => exact KeyEq.find_erase_of_ne hne
    | mappedFor k' => rfl
  | assignThrown k' v w => exact KeyEq.find_assign_of_ne hop
  | _ => rfl

/-- INTERNAL: after an insert the key has an entry. -/
theorem lookup_insert_isSome {k k' : K} (hk : E.same k' k) (m : AssocMap E V) (v : V) :
    ((m.insert k' v).lookup k).isSome := by
  rw [AssocMap.lookup, ← KeyEq.find_congr hk]
  show (E.find k' (E.insert k' v m.entries)).isSome
  rw [KeyEq.insert]
  split
  · assumption
  · rw [KeyEq.find_isSome_iff]
    exact ⟨(k', v), List.mem_cons_self, E.refl k'⟩

/-- INTERNAL: if the only calls for a key are inserts that return, the first one returns
true and the others return false. -/
theorem inserts_legal (k : K) {l : List (Op K V × Result K V)} {m : AssocMap E V}
    (h : (mapSpec E V).Legal (mapSpec E V).init l m)
    (hins : ∀ x ∈ l, x.1.touches E k →
      ∃ k' v b, x.1 = .key (.insert k' v) ∧ x.2 = .of (.bool b)) :
    ((l.filter fun x => x.1.touches E k).map Prod.snd = [] ∧ m.lookup k = none) ∨
    ∃ n, (l.filter fun x => x.1.touches E k).map Prod.snd =
      .of (.bool true) :: List.replicate n (.of (.bool false)) ∧ (m.lookup k).isSome := by
  induction h with
  | nil => exact .inl ⟨rfl, rfl⟩
  | @snoc l s s' op r _ hstep ih =>
    specialize ih fun x hx => hins x (List.mem_append_left _ hx)
    rw [List.filter_append, List.map_append]
    by_cases hop : op.touches E k
    · obtain ⟨k', v, b, rfl, rfl⟩ := hins (op, r) (by simp) hop
      have hk : E.same k' k := hop
      cases hstep with
      | key _ =>
        have hsome := lookup_insert_isSome hk s v
        have hlookup : s.lookup k' = s.lookup k := KeyEq.find_congr hk s.entries
        rcases ih with ⟨hnil, hnone⟩ | ⟨n, hlist, hin⟩
        · refine .inr ⟨0, ?_, hsome⟩
          rw [hnil]
          simp [hop, KeyOp.key, hlookup, hnone]
        · refine .inr ⟨n + 1, ?_, hsome⟩
          rw [hlist]
          simp [hop, KeyOp.key, hlookup, Option.isNone_eq_false_iff.mpr hin,
            List.replicate_succ']
    · have hkeep := lookup_of_not_touches (by simpa using hop) hstep
      simp only [hop, Bool.false_eq_true, not_false_eq_true, List.filter_cons_of_neg,
        List.filter_nil, List.map_nil, List.append_nil, hkeep]
      exact ih

/-- Of two returned inserts of equal keys exactly one returns true, if no other call for
an equal key is made. -/
theorem insert_once {h : Concurrency.History Tid (Op K V) (Result K V)}
    (hlin : Linearizable (mapSpec E V) h) {i₁ i₂ j₁ j₂ : ℕ} {t₁ t₂ : Tid} {k₁ k₂ : K}
    {v₁ v₂ : V} {b₁ b₂ : Bool} (hne : i₁ ≠ i₂) (hk : E.same k₂ k₁)
    (hc₁ : h[i₁]? = some (t₁, .call (.key (.insert k₁ v₁))))
    (hc₂ : h[i₂]? = some (t₂, .call (.key (.insert k₂ v₂))))
    (hr₁ : Concurrency.Returns h i₁ j₁ (.of (.bool b₁)))
    (hr₂ : Concurrency.Returns h i₂ j₂ (.of (.bool b₂)))
    (hother : ∀ i t op, h[i]? = some (t, .call op) → i ≠ i₁ → i ≠ i₂ →
      op.touches E k₁ = false) : b₁ = !b₂ := by
  obtain ⟨L, hL⟩ := hlin
  -- the calls in the order are those of the history
  have hcall : ∀ {i t op op' r}, h[i]? = some (t, .call op) → (i, op', r) ∈ L → op' = op := by
    intro i t op op' r hi hmem
    obtain ⟨t', ht'⟩ := hL.calls _ hmem
    have heq := ht'.symm.trans hi
    simp only [Option.some.injEq, Prod.mk.injEq, Concurrency.Event.call.injEq] at heq
    exact heq.2
  obtain ⟨op₁, hm₁⟩ := hL.returned i₁ j₁ _ hr₁
  obtain ⟨op₂, hm₂⟩ := hL.returned i₂ j₂ _ hr₂
  obtain rfl := hcall hc₁ hm₁
  obtain rfl := hcall hc₂ hm₂
  have hnodup : L.Nodup := List.Nodup.of_map Prod.fst hL.once
  have huniq : ∀ {x y}, x ∈ L → y ∈ L → x.1 = y.1 → x = y := fun hx hy heq =>
    List.inj_on_of_nodup_map hL.once hx hy heq
  have htouch : ∀ x ∈ L, x.2.1.touches E k₁ →
      x = (i₁, .key (.insert k₁ v₁), .of (.bool b₁)) ∨
      x = (i₂, .key (.insert k₂ v₂), .of (.bool b₂)) := by
    intro x hx hop
    by_cases h₁ : x.1 = i₁
    · exact .inl (huniq hx hm₁ h₁)
    · by_cases h₂ : x.1 = i₂
      · exact .inr (huniq hx hm₂ h₂)
      · obtain ⟨t, ht⟩ := hL.calls x hx
        rw [hother _ _ _ ht h₁ h₂] at hop
        cases hop
  -- the two inserts are the calls for the key, in one order or the other
  have hperm : (L.filter fun x => x.2.1.touches E k₁).Perm
      [(i₁, .key (.insert k₁ v₁), .of (.bool b₁)),
        (i₂, .key (.insert k₂ v₂), .of (.bool b₂))] := by
    refine (List.perm_ext_iff_of_nodup (hnodup.filter _) (by simp [hne])).mpr fun x => ?_
    rw [List.mem_filter, List.mem_cons, List.mem_singleton]
    refine ⟨fun hx => htouch x hx.1 hx.2, ?_⟩
    rintro (rfl | rfl)
    · exact ⟨hm₁, E.refl k₁⟩
    · exact ⟨hm₂, hk⟩
  obtain ⟨m, hlegal⟩ := hL.legal
  have hresults := (hperm.map Prod.snd).map Prod.snd
  have hins : ∀ x ∈ L.map Prod.snd, x.1.touches E k₁ →
      ∃ k' v b, x.1 = .key (.insert k' v) ∧ x.2 = .of (.bool b) := by
    intro x hx hop
    obtain ⟨y, hy, rfl⟩ := List.mem_map.mp hx
    rcases htouch y hy hop with rfl | rfl
    · exact ⟨_, _, _, rfl, rfl⟩
    · exact ⟨_, _, _, rfl, rfl⟩
  rcases inserts_legal k₁ hlegal hins with ⟨hnil, -⟩ | ⟨n, hlist, -⟩
  · rw [List.filter_map, List.map_map] at hnil
    have hlen := hresults.length_eq
    rw [List.map_map] at hlen
    simp only [Function.comp_def] at hnil hlen
    rw [hnil] at hlen
    simp at hlen
  · rw [List.filter_map, List.map_map] at hlist
    rw [List.map_map] at hresults
    simp only [Function.comp_def] at hlist hresults
    rw [hlist] at hresults
    have hlen := hresults.length_eq
    obtain rfl : n = 1 := by simpa using hlen
    have htrue := hresults.mem_iff (a := .of (.bool true))
    have hfalse := hresults.mem_iff (a := .of (.bool false))
    cases b₁ <;> cases b₂ <;> simp at htrue hfalse ⊢

end Inserts

/-- **`ts_ex_hashmap` is linearizable.** Every run of a map constructed with at least one
bucket, in which every `rehash` leaves at least one bucket, has an order of its calls that
respects real time and in which the calls for one key return what a finite map modulo
`Key_eq` returns and `rehash` is the identity. In particular, of two inserts of equal keys
that have returned exactly one returns true, if there is no other call for an equal key. -/
theorem hashmap_linearizable [DecidableEq Tid] (H : LawfulKeys K) (n : ℕ) (hn : 1 ≤ n)
    {tr : List (Tid × Lab K V)} {c : Config Tid (Pc K V) (Shared Tid K V)}
    (h : Run (HashmapStep H.toKeys) RehashNonempty (newMap Tid K V n) tr c) :
    Linearizable (mapSpec H.keyEq V) (observed id tr) ∧
    ∀ (i₁ i₂ j₁ j₂ : ℕ) (t₁ t₂ : Tid) (k₁ k₂ : K) (v₁ v₂ : V) (b₁ b₂ : Bool), i₁ ≠ i₂ →
      H.keyEqual k₂ k₁ →
      (observed id tr)[i₁]? = some (t₁, .call (.key (.insert k₁ v₁))) →
      (observed id tr)[i₂]? = some (t₂, .call (.key (.insert k₂ v₂))) →
      Concurrency.Returns (observed id tr) i₁ j₁ (.of (.bool b₁)) →
      Concurrency.Returns (observed id tr) i₂ j₂ (.of (.bool b₂)) →
      (∀ i t op, (observed id tr)[i]? = some (t, .call op) → i ≠ i₁ → i ≠ i₂ →
        op.touches H.keyEq k₁ = false) → b₁ = !b₂ := by
  have hlin : Linearizable (mapSpec H.keyEq V) (observed id tr) :=
    h.reached.linearizable (mapRel_simulates hn) (mapRel_newMap H.keyEq)
  refine ⟨hlin, ?_⟩
  intro i₁ i₂ j₁ j₂ t₁ t₂ k₁ k₂ v₁ v₂ b₁ b₂ hne hk hc₁ hc₂ hr₁ hr₂ hother
  exact insert_once hlin hne hk hc₁ hc₂ hr₁ hr₂ hother

/-- A load factor of two buckets for each entry. -/
def half : LoadFactor := ⟨1 / 2, by norm_num⟩

/-- Two threads insert equal keys while a third one rehashes; the insert that is second finds
the entry of the first in its new bucket. -/
theorem hashmap_linearizable_inserts :
    ∃ tr : List (Option Bool × Lab ℕ ℕ),
      observed id tr = [(some true, .call (.key (.insert 5 1))), (none, .call (.rehash half)),
        (some false, .call (.key (.insert 5 2))), (some true, .ret (.of (.bool true))),
        (none, .ret (.of .void)), (some false, .ret (.of (.bool false)))] ∧
      Linearizable (mapSpec natKeys.keyEq ℕ) (observed id tr) := by
  have hcount : rehashCount 1 half = 2 := by
    have hdiv : ((1 : ℕ) : ℚ) / (1 / 2) = ((2 : ℕ) : ℚ) := by norm_num
    rw [rehashCount, half, hdiv, Nat.ceil_natCast]
  have hmake : ∀ (t : Option Bool) (c : Cursor) (s : Shared (Option Bool) ℕ ℕ), c.index = c.last →
      RehashStep natKeys.toKeys t (.rehashSum half c 1) s none (.rehashMake half 2) s := by
    intro t c s hlast
    rw [← hcount]
    exact .sumEnd hlast
  have h₀ : Run (HashmapStep natKeys.toKeys) RehashNonempty (newMap (Option Bool) ℕ ℕ 1) [] _ :=
    .nil
  have h₁ := h₀.snoc (some true) (fun lf h => by cases h)
    (.client (.call _ (.key (.insert 5 1))))
  have h₂ := h₁.snoc none (fun lf h => by cases h)
    (.client (.call _ (.rehash half)))
  have h₃ := h₂.snoc (some true) (fun lf h => by cases h)
    (.key (.lock fun u => by rcases u with _ | _ | _ <;> decide))
  have h₄ := h₃.snoc (some true) (fun lf h => by cases h)
    (.key (.bucketFor _ _))
  have h₅ := h₄.snoc (some false) (fun lf h => by cases h)
    (.client (.call _ (.key (.insert 5 2))))
  have h₆ := h₅.snoc (some true) (fun lf h => by cases h)
    (.key (.bucketLock rfl fun u => by rcases u with _ | _ | _ <;> rfl))
  have h₇ := h₆.snoc (some true) (fun lf h => by cases h)
    (.key (.find rfl))
  have h₈ := h₇.snoc (some true) (fun lf h => by cases h)
    (.bucket (.push rfl))
  have h₉ := h₈.snoc (some true) (fun lf h => by cases h)
    (.bucket (.countPushed rfl))
  have h₁₀ := h₉.snoc (some true) (fun lf h => by cases h)
    (.key (.bucketUnlock rfl))
  have h₁₁ := h₁₀.snoc (some true) (fun lf h => by cases h)
    (.key (.mapUnlock _ _))
  -- the entry moves to the second of two buckets
  have r₁ := h₁₁.snoc none (fun _ _ => Nat.one_ne_zero)
    (.rehash (.lock fun u => by rcases u with _ | _ | _ <;> decide))
  have r₂ := r₁.snoc none (fun lf h => by cases h)
    (.rehash (.sum Nat.zero_ne_one rfl))
  have r₃ := r₂.snoc none (fun lf h => by cases h)
    (.rehash (hmake _ _ _ rfl))
  have r₄ := r₃.snoc none (fun lf h => by cases h)
    (.rehash (.make _ _ _))
  have r₅ := r₄.snoc none (fun lf h => by cases h)
    (.rehash (.move Nat.zero_ne_one rfl rfl))
  have r₆ := r₅.snoc none (fun lf h => by cases h)
    (.rehash (.moveNext Nat.zero_ne_one rfl rfl))
  have r₇ := r₆.snoc none (fun lf h => by cases h)
    (.rehash (.moveEnd rfl))
  have r₈ := r₇.snoc none (fun lf h => by cases h)
    (.rehash (.swap _ _))
  have r₉ := r₈.snoc none (fun lf h => by cases h)
    (.rehash (.count _ _))
  have r₁₀ := r₉.snoc none (fun lf h => by cases h)
    (.rehash (.unlock _ _))
  have k₁ := r₁₀.snoc (some false) (fun lf h => by cases h)
    (.key (.lock fun u => by rcases u with _ | _ | _ <;> decide))
  have k₂ := k₁.snoc (some false) (fun lf h => by cases h)
    (.key (.bucketFor _ _))
  have k₃ := k₂.snoc (some false) (fun lf h => by cases h)
    (.key (.bucketLock rfl fun u => by rcases u with _ | _ | _ <;> rfl))
  have k₄ := k₃.snoc (some false) (fun lf h => by cases h)
    (.key (.find rfl))
  have k₅ := k₄.snoc (some true) (fun lf h => by cases h)
    (.client (.ret _ _))
  have k₆ := k₅.snoc (some false) (fun lf h => by cases h)
    (.key (.bucketUnlock rfl))
  have k₇ := k₆.snoc (some false) (fun lf h => by cases h)
    (.key (.mapUnlock _ _))
  have k₈ := k₇.snoc none (fun lf h => by cases h)
    (.client (.ret _ _))
  have k₉ := k₈.snoc (some false) (fun lf h => by cases h)
    (.client (.ret _ _))
  exact ⟨_, rfl, (hashmap_linearizable natKeys 1 (by decide) k₉).1⟩

end UbuntuProjects.TsExHashmap
