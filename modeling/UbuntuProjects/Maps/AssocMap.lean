import Mathlib.Data.List.Perm.Basic

/-!
# Finite maps as lists of entries

A finite map modulo a test for the equality of keys (`KeyEq`) is a list of entries of
which no two have equal keys (`AssocMap`). The order of the list means nothing: lists
that are permutations of each other have the same entry for every key (`find_perm`).

An operation on the entry of one key acts on the part of the list that holds the key and
leaves the rest alone (`KeyLocal`), so it may be done on that part. Where the entry is at
a known position, it is done there (`modify_of_findIdx?`, `eraseIdx_of_findIdx?`).
-/

set_option autoImplicit false

namespace Maps

/-- A test for the equality of keys. -/
structure KeyEq (K : Type) where
  same : K → K → Bool
  refl : ∀ a, same a a
  symm : ∀ {a b}, same a b → same b a
  trans : ∀ {a b c}, same a b → same b c → same a c

variable {K V : Type}

namespace KeyEq

variable (E : KeyEq K)

/-! ## Lists of entries -/

/-- No entry of the list has the key. -/
def Avoids (k : K) (l : List (K × V)) : Prop := ∀ e ∈ l, E.same e.1 k = false

/-- No two entries of the list have equal keys. -/
def Distinct (l : List (K × V)) : Prop := l.Pairwise fun a b => E.same a.1 b.1 = false

/-- The value of the first entry that has the key. -/
def find (k : K) (l : List (K × V)) : Option V :=
  (l.find? fun e => E.same e.1 k).map Prod.snd

/-- Writing a value to the entries that have the key. -/
def assign (k : K) (v : V) (l : List (K × V)) : List (K × V) :=
  l.map fun e => if E.same e.1 k then (e.1, v) else e

/-- Leaving out the entries that have the key. -/
def erase (k : K) (l : List (K × V)) : List (K × V) := l.filter fun e => !E.same e.1 k

/-- Adding an entry unless the key has one. -/
def insert (k : K) (v : V) (l : List (K × V)) : List (K × V) :=
  if (E.find k l).isSome then l else (k, v) :: l

/-- Adding an entry, or writing to the one that the key has. -/
def insertOrAssign (k : K) (v : V) (l : List (K × V)) : List (K × V) :=
  if (E.find k l).isSome then E.assign k v l else (k, v) :: l

variable {E} {k : K} {v : V} {l l' : List (K × V)}

/-- A key without an entry. -/
theorem find_eq_none_iff : E.find k l = none ↔ E.Avoids k l := by
  simp [find, Avoids]

/-- A key with an entry. -/
theorem find_isSome_iff : (E.find k l).isSome ↔ ∃ e ∈ l, E.same e.1 k := by
  simp [find]

/-- Keys equal to one and the same key are equal. -/
theorem same_of_same {a b : K} (ha : E.same a k) (hb : E.same b k) : E.same a b :=
  E.trans ha (E.symm hb)

/-- In a list with distinct keys an entry behind one with the key does not have it. -/
theorem Distinct.avoids_tail {e : K × V} (h : E.Distinct (e :: l)) (hk : E.same e.1 k) :
    E.Avoids k l := by
  intro e' he'
  have hne := (List.pairwise_cons.mp h).1 e' he'
  by_contra hsame
  simp only [Bool.not_eq_false] at hsame
  simp [same_of_same hk hsame] at hne

/-- Distinct keys stay so in any order. -/
theorem Distinct.perm (h : E.Distinct l) (hp : l.Perm l') : E.Distinct l' := by
  refine (hp.pairwise_iff ?_).mp h
  intro a b hab
  by_contra hba
  simp only [Bool.not_eq_false] at hba
  simp [E.symm hba] at hab

/-- The first part of a list with distinct keys has distinct keys. -/
theorem Distinct.left (h : E.Distinct (l ++ l')) : E.Distinct l :=
  (List.pairwise_append.mp h).1

/-- Writing to an entry that does not exist. -/
theorem Avoids.assign (h : E.Avoids k l) (v : V) : E.assign k v l = l := by
  rw [KeyEq.assign, List.map_congr_left (g := id) fun e he => by simp [h e he], List.map_id]

/-- Leaving out an entry that does not exist. -/
theorem Avoids.erase (h : E.Avoids k l) : E.erase k l = l := by
  rw [KeyEq.erase, List.filter_eq_self]
  intro e he
  simp [h e he]

/-! ## The entry of a key, whatever the order -/

/-- The entry of a key does not depend on the order of the list. -/
theorem find_perm (h : E.Distinct l) (hp : l.Perm l') (k : K) : E.find k l = E.find k l' := by
  induction hp with
  | nil => rfl
  | cons e _ ih =>
    have htail := ih (List.pairwise_cons.mp h).2
    simp only [find, List.find?_cons] at htail ⊢
    split
    · rfl
    · exact htail
  | swap a b l =>
    have hab : E.same b.1 a.1 = false := (List.pairwise_cons.mp h).1 a (by simp)
    simp only [find, List.find?_cons]
    cases ha : E.same a.1 k <;> cases hb : E.same b.1 k <;> simp
    simp [same_of_same hb ha] at hab
  | trans hp₁ _ ih₁ ih₂ => exact (ih₁ h).trans (ih₂ (h.perm hp₁))

/-- Whether a key has an entry does not depend on the order either. -/
theorem find_isSome_perm (hp : l.Perm l') (k : K) :
    (E.find k l).isSome = (E.find k l').isSome := by
  rw [Bool.eq_iff_iff, find_isSome_iff, find_isSome_iff]
  simp only [hp.mem_iff]

/-- The entry of a key is not in a part that avoids it. -/
theorem find_append (h : E.Avoids k l') : E.find k (l ++ l') = E.find k l := by
  have hnone : l'.find? (fun e => E.same e.1 k) = none := by
    simpa [Avoids] using h
  simp [find, List.find?_append, hnone]

/-- Equal keys have the same entry. -/
theorem find_congr {k' : K} (h : E.same k' k) (l : List (K × V)) :
    E.find k' l = E.find k l := by
  have hp : (fun e : K × V => E.same e.1 k') = fun e => E.same e.1 k := by
    funext e
    rw [Bool.eq_iff_iff]
    exact ⟨fun he => E.trans he h, fun he => same_of_same he h⟩
  rw [find, find, hp]

/-! ## The entries of the other keys -/

section Others

variable {k' : K} (hne : E.same k' k = false)

include hne

/-- A key equal to `k` differs from a key that differs from `k`. -/
theorem ne_of_same {a : K} (hk : E.same a k) : E.same a k' = false := by
  by_contra hsame
  simp only [Bool.not_eq_false] at hsame
  simp [E.trans (E.symm hsame) hk] at hne

/-- A new entry of another key. -/
theorem find_cons_of_ne : E.find k ((k', v) :: l) = E.find k l := by
  simp [find, hne]

/-- Writing to the entry of another key. -/
theorem find_assign_of_ne : E.find k (E.assign k' v l) = E.find k l := by
  have hkeys : ((fun e : K × V => E.same e.1 k) ∘
      fun e => if E.same e.1 k' then (e.1, v) else e) = fun e => E.same e.1 k := by
    funext e
    simp only [Function.comp_apply]
    split <;> rfl
  rw [find, find, assign, List.find?_map, hkeys, Option.map_map]
  cases hf : l.find? fun e => E.same e.1 k with
  | none => rfl
  | some e =>
    have hk : E.same e.1 k := by simpa using List.find?_some hf
    simp [ne_of_same hne hk]

/-- Leaving out the entry of another key. -/
theorem find_erase_of_ne : E.find k (E.erase k' l) = E.find k l := by
  have hkeys : (fun e : K × V => (!E.same e.1 k') && E.same e.1 k) =
      fun e => E.same e.1 k := by
    funext e
    cases hk : E.same e.1 k with
    | false => simp
    | true =>
      simp [ne_of_same hne hk]
  rw [find, find, erase, List.find?_filter]
  congr 2
  funext e
  exact Bool.eq_iff_iff.mpr (by simpa using Bool.eq_iff_iff.mp (congrFun hkeys e))

end Others

/-! ## Operations on the entry of one key -/

/-- An operation that acts on the entry of the key `k` only. -/
structure KeyLocal (E : KeyEq K) (k : K) (f : List (K × V) → List (K × V)) : Prop where
  perm : ∀ {l l'}, l.Perm l' → (f l).Perm (f l')
  append : ∀ {l l'}, E.Avoids k l' → f (l ++ l') = f l ++ l'

theorem keyLocal_assign : KeyLocal E k (E.assign k v) where
  perm hp := hp.map _
  append h := by
    conv_rhs => rw [← h.assign v]
    exact List.map_append

theorem keyLocal_erase : KeyLocal (V := V) E k (E.erase k) where
  perm hp := hp.filter _
  append h := by
    conv_rhs => rw [← h.erase]
    exact List.filter_append ..

theorem keyLocal_insert : KeyLocal E k (E.insert k v) where
  perm hp := by
    rw [insert, insert, find_isSome_perm hp]
    split
    · exact hp
    · exact hp.cons _
  append h := by
    rw [insert, insert, find_append h]
    split <;> rfl

theorem keyLocal_insertOrAssign : KeyLocal E k (E.insertOrAssign k v) where
  perm hp := by
    rw [insertOrAssign, insertOrAssign, find_isSome_perm hp]
    split
    · exact keyLocal_assign.perm hp
    · exact hp.cons _
  append h := by
    rw [insertOrAssign, insertOrAssign, find_append h]
    split
    · exact keyLocal_assign.append h
    · rfl

/-! ## Operations at a position -/

/-- No position holds the key. -/
theorem findIdx?_eq_none : l.findIdx? (fun e => E.same e.1 k) = none ↔ E.Avoids k l := by
  rw [List.findIdx?_eq_none_iff, Avoids]

/-- The value at the position of the key. -/
theorem find_of_findIdx? {i : ℕ} (hi : l.findIdx? (fun e => E.same e.1 k) = some i) :
    E.find k l = l[i]?.map Prod.snd := by
  rw [List.findIdx?_eq_some_iff_getElem] at hi
  obtain ⟨hlt, hsame, hfirst⟩ := hi
  have hfind : l.find? (fun e => E.same e.1 k) = some l[i] := by
    rw [List.find?_eq_some_iff_getElem]
    exact ⟨hsame, i, hlt, rfl, fun j hj => by simpa using hfirst j hj⟩
  rw [find, hfind, List.getElem?_eq_getElem hlt]

/-- Writing to the position of the key. -/
theorem modify_of_findIdx? (h : E.Distinct l) {i : ℕ}
    (hi : l.findIdx? (fun e => E.same e.1 k) = some i) (v : V) :
    l.modify i (fun e => (e.1, v)) = E.assign k v l := by
  induction l generalizing i with
  | nil => simp at hi
  | cons e l ih =>
    rw [List.findIdx?_cons] at hi
    by_cases hk : E.same e.1 k
    · obtain rfl : 0 = i := by simpa [hk] using hi
      have htail := (h.avoids_tail hk).assign v
      simp only [assign] at htail
      simp [assign, hk, htail]
    · simp only [hk, Bool.false_eq_true, if_false] at hi
      obtain ⟨j, hj, rfl⟩ := Option.map_eq_some_iff.mp hi
      have htail := ih (List.pairwise_cons.mp h).2 hj
      simp only [assign] at htail
      simp [assign, hk, htail]

/-- Leaving out the position of the key. -/
theorem eraseIdx_of_findIdx? (h : E.Distinct l) {i : ℕ}
    (hi : l.findIdx? (fun e => E.same e.1 k) = some i) : l.eraseIdx i = E.erase k l := by
  induction l generalizing i with
  | nil => simp at hi
  | cons e l ih =>
    rw [List.findIdx?_cons] at hi
    by_cases hk : E.same e.1 k
    · obtain rfl : 0 = i := by simpa [hk] using hi
      have htail := (h.avoids_tail hk).erase
      simp only [erase] at htail
      simp [erase, hk, htail]
    · simp only [hk, Bool.false_eq_true, if_false] at hi
      obtain ⟨j, hj, rfl⟩ := Option.map_eq_some_iff.mp hi
      have htail := ih (List.pairwise_cons.mp h).2 hj
      simp only [erase] at htail
      simp [erase, hk, htail]

/-! ## Searching entry by entry -/

section Search

variable {e : K × V} {i : ℕ}

/-- One more entry that does not have the key. -/
theorem Avoids.take_succ (h : E.Avoids k (l.take i)) (hi : l[i]? = some e)
    (hne : E.same e.1 k = false) : E.Avoids k (l.take (i + 1)) := by
  intro a ha
  rw [List.take_add_one, hi] at ha
  rcases List.mem_append.mp ha with ha | ha
  · exact h a ha
  · obtain rfl : a = e := by simpa using ha
    exact hne

/-- The search has come to the end. -/
theorem Avoids.of_take (h : E.Avoids k (l.take i)) (hi : l[i]? = none) : E.Avoids k l := by
  rwa [List.take_of_length_le (List.getElem?_eq_none_iff.mp hi)] at h

/-- The search has come to an entry with the key. -/
theorem Avoids.findIdx? (h : E.Avoids k (l.take i)) (hi : l[i]? = some e)
    (hk : E.same e.1 k) : l.findIdx? (fun e => E.same e.1 k) = some i := by
  obtain ⟨hlt, rfl⟩ := List.getElem?_eq_some_iff.mp hi
  rw [List.findIdx?_eq_some_iff_getElem]
  refine ⟨hlt, hk, fun j hj => ?_⟩
  have hmem : l[j] ∈ l.take i := List.mem_take_iff_getElem.mpr ⟨j, by omega, rfl⟩
  simpa using h l[j] hmem

end Search

/-! ## Distinct keys are kept -/

theorem distinct_assign (h : E.Distinct l) (k : K) (v : V) : E.Distinct (E.assign k v l) := by
  rw [Distinct, assign, List.pairwise_map]
  refine h.imp ?_
  intro a b hab
  split <;> split <;> exact hab

theorem distinct_erase (h : E.Distinct l) (k : K) : E.Distinct (E.erase k l) :=
  h.filter _

theorem distinct_cons (h : E.Distinct l) (hk : E.Avoids k l) (v : V) :
    E.Distinct ((k, v) :: l) := by
  refine List.pairwise_cons.mpr ⟨fun e he => ?_, h⟩
  by_contra hsame
  simp only [Bool.not_eq_false] at hsame
  simpa [E.symm hsame] using hk e he

theorem distinct_insert (h : E.Distinct l) (k : K) (v : V) : E.Distinct (E.insert k v l) := by
  rw [insert]
  split
  · exact h
  · rename_i hk
    exact distinct_cons h (find_eq_none_iff.mp (by simpa using hk)) v

theorem distinct_insertOrAssign (h : E.Distinct l) (k : K) (v : V) :
    E.Distinct (E.insertOrAssign k v l) := by
  rw [insertOrAssign]
  split
  · exact distinct_assign h k v
  · rename_i hk
    exact distinct_cons h (find_eq_none_iff.mp (by simpa using hk)) v

end KeyEq

/-! ## Finite maps -/

/-- A finite map modulo the equality of keys. -/
structure AssocMap (E : KeyEq K) (V : Type) where
  entries : List (K × V)
  distinct : E.Distinct entries

namespace AssocMap

variable {E : KeyEq K}

/-- The map without entries. -/
def empty : AssocMap E V := ⟨[], List.Pairwise.nil⟩

/-- The value of a key. -/
def lookup (m : AssocMap E V) (k : K) : Option V := E.find k m.entries

/-- Adding an entry unless the key has one. -/
def insert (m : AssocMap E V) (k : K) (v : V) : AssocMap E V :=
  ⟨E.insert k v m.entries, KeyEq.distinct_insert m.distinct k v⟩

/-- Adding an entry, or writing to the one that the key has. -/
def insertOrAssign (m : AssocMap E V) (k : K) (v : V) : AssocMap E V :=
  ⟨E.insertOrAssign k v m.entries, KeyEq.distinct_insertOrAssign m.distinct k v⟩

/-- Writing to the entry of a key, if it has one. -/
def assign (m : AssocMap E V) (k : K) (v : V) : AssocMap E V :=
  ⟨E.assign k v m.entries, KeyEq.distinct_assign m.distinct k v⟩

/-- Leaving out the entry of a key. -/
def erase (m : AssocMap E V) (k : K) : AssocMap E V :=
  ⟨E.erase k m.entries, KeyEq.distinct_erase m.distinct k⟩

/-- Adding an entry for a key that has one. -/
theorem insert_of_isSome {m : AssocMap E V} {k : K} (h : (m.lookup k).isSome) (v : V) :
    m.insert k v = m := by
  have hentries : E.insert k v m.entries = m.entries := if_pos h
  cases m
  simpa [insert] using hentries

end AssocMap

end Maps
