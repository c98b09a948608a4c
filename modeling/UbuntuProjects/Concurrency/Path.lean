import Mathlib.Data.List.Basic
import Mathlib.Data.List.Nodup

/-!
# Paths along a successor function

A linked structure in memory is seen through its successor function, which says where
the link of a node points (`none` for a null link or a dead node). `Path next a xs b`
says that following the links from `a` visits the nodes `xs` one after another and
arrives at `b`. Since each node has one successor, paths from one node are prefixes of
each other, and a path that ends in a node without successor meets no node twice.
`Linked next a xs` says that the nodes after `a`, up to the null link, are `xs`.
-/

set_option autoImplicit false

namespace Concurrency

variable {α : Type} {next next' : α → Option α}

/-- Following the links from `a` visits the nodes `xs` and arrives at `b`. -/
inductive Path (next : α → Option α) : α → List α → α → Prop
  | nil (a : α) : Path next a [] a
  | cons {a b c : α} {xs : List α} : next a = some b → Path next b xs c → Path next a (a :: xs) c

@[simp] theorem Path.nil_iff {a b : α} : Path next a [] b ↔ a = b :=
  ⟨fun h => by cases h; rfl, fun h => h ▸ .nil a⟩

theorem Path.cons_iff {a x c : α} {xs : List α} :
    Path next a (x :: xs) c ↔ x = a ∧ ∃ b, next a = some b ∧ Path next b xs c := by
  constructor
  · intro h
    cases h with
    | cons hn hp => exact ⟨rfl, _, hn, hp⟩
  · rintro ⟨rfl, b, hn, hp⟩
    exact .cons hn hp

/-- Two paths in a row. -/
theorem Path.append {a b c : α} {xs ys : List α} (h : Path next a xs b)
    (h' : Path next b ys c) : Path next a (xs ++ ys) c := by
  induction h with
  | nil => exact h'
  | cons hn _ ih => exact .cons hn (ih h')

/-- A path through `b` splits there. -/
theorem Path.split {a c : α} {xs ys : List α} (h : Path next a (xs ++ ys) c) :
    ∃ b, Path next a xs b ∧ Path next b ys c := by
  induction xs generalizing a with
  | nil => exact ⟨a, .nil a, h⟩
  | cons x xs ih =>
    obtain ⟨rfl, b, hn, hp⟩ := Path.cons_iff.mp h
    obtain ⟨b', h₁, h₂⟩ := ih hp
    exact ⟨b', .cons hn h₁, h₂⟩

/-- One more link at the end. -/
theorem Path.snoc {a b c : α} {xs : List α} (h : Path next a xs b) (hn : next b = some c) :
    Path next a (xs ++ [b]) c :=
  h.append (.cons hn (.nil c))

/-- Links outside the path do not matter. -/
theorem Path.congr {a b : α} {xs : List α} (h : Path next a xs b)
    (hx : ∀ x ∈ xs, next' x = next x) : Path next' a xs b := by
  induction h with
  | nil a => exact .nil a
  | @cons a b c xs hn _ ih =>
    exact .cons ((hx a (by simp)).trans hn) (ih fun x hx' => hx x (by simp [hx']))

/-- A nonempty path starts with its first node. -/
theorem Path.head_mem {a b : α} {xs : List α} (h : Path next a xs b) (hab : a ≠ b) :
    ∃ c ys, xs = a :: ys ∧ next a = some c ∧ Path next c ys b := by
  cases h with
  | nil => exact absurd rfl hab
  | cons hn hp => exact ⟨_, _, rfl, hn, hp⟩

/-- Of two paths from one node, the one that avoids the other's end is a prefix. -/
theorem Path.prefix_of_notMem {a b c : α} {xs ys : List α} (h : Path next a xs b)
    (h' : Path next a ys c) (hc : c ∉ xs) : ∃ zs, ys = xs ++ zs ∧ Path next b zs c := by
  induction h generalizing ys with
  | nil => exact ⟨ys, rfl, h'⟩
  | @cons a b _ xs hn _ ih =>
    obtain ⟨b', ys', rfl, hn', hp'⟩ := h'.head_mem (by rintro rfl; simp at hc)
    obtain rfl : b = b' := by simpa using hn.symm.trans hn'
    obtain ⟨zs, rfl, hz⟩ := ih hp' (fun hmem => hc (by simp [hmem]))
    exact ⟨zs, rfl, hz⟩

/-- Two paths between the same nodes that do not pass their end are the same. -/
theorem Path.unique {a b : α} {xs ys : List α} (h : Path next a xs b) (h' : Path next a ys b)
    (hx : b ∉ xs) (hy : b ∉ ys) : xs = ys := by
  obtain ⟨zs, rfl, hz⟩ := h.prefix_of_notMem h' hx
  cases hz with
  | nil => simp
  | cons hn hp => simp at hy

/-- Every node of a path but the end has a successor. -/
theorem Path.next_isSome {a b x : α} {xs : List α} (h : Path next a xs b) (hx : x ∈ xs) :
    (next x).isSome := by
  induction h with
  | nil => simp at hx
  | cons hn _ ih =>
    rcases List.mem_cons.mp hx with rfl | hx
    · simp [hn]
    · exact ih hx

/-- A path that meets a node again comes back to it. -/
theorem Path.mem_split {a b x : α} {xs : List α} (h : Path next a xs b) (hx : x ∈ xs) :
    ∃ ys zs, xs = ys ++ x :: zs ∧ Path next a ys x ∧ Path next x (x :: zs) b := by
  obtain ⟨ys, zs, rfl⟩ := List.append_of_mem hx
  obtain ⟨y, h₁, h₂⟩ := h.split
  obtain ⟨rfl, -⟩ := Path.cons_iff.mp h₂
  exact ⟨ys, zs, rfl, h₁, h₂⟩

/-- A path to a node without successor meets no node twice. -/
theorem Path.nodup_of_terminal {a b : α} {xs : List α} (h : Path next a xs b)
    (hb : next b = none) : (xs ++ [b]).Nodup := by
  induction h with
  | nil => simp
  | @cons a b' c xs hn hp ih =>
    rw [List.cons_append, List.nodup_cons]
    refine ⟨fun hmem => ?_, ih hb⟩
    have hac : a ≠ c := by rintro rfl; simp [hn] at hb
    have ha : a ∈ xs := by simpa [hac] using hmem
    -- going round from `a` to `a` would make two different paths from `a` to the end
    obtain ⟨ys, zs, rfl, -, h₂⟩ := hp.mem_split ha
    have hc : c ∉ a :: zs := fun hm => by
      have := h₂.next_isSome hm
      simp [hb] at this
    have hc' : c ∉ a :: (ys ++ a :: zs) := fun hm => by
      have := (Path.cons hn hp).next_isSome hm
      simp [hb] at this
    have hlen := congrArg List.length (h₂.unique (.cons hn hp) hc hc')
    simp at hlen
    omega

/-! ## Null-terminated lists -/

/-- The links from `a` lead through the nodes `xs` to a null link. -/
def Linked (next : α → Option α) : α → List α → Prop
  | a, [] => next a = none
  | a, b :: bs => next a = some b ∧ Linked next b bs

/-- The nodes after `a` are determined by the links. -/
theorem Linked.unique {a : α} {xs ys : List α} (h : Linked next a xs) (h' : Linked next a ys) :
    xs = ys := by
  induction xs generalizing a ys with
  | nil =>
    cases ys with
    | nil => rfl
    | cons y ys => cases h.symm.trans h'.1
  | cons x xs ih =>
    cases ys with
    | nil => cases h.1.symm.trans h'
    | cons y ys =>
      obtain rfl : x = y := Option.some.inj (h.1.symm.trans h'.1)
      rw [ih h.2 h'.2]

/-- Links outside the list do not matter. -/
theorem Linked.congr {a : α} {xs : List α} (h : Linked next a xs)
    (hx : ∀ x ∈ a :: xs, next' x = next x) : Linked next' a xs := by
  induction xs generalizing a with
  | nil => exact (hx a (by simp)).trans h
  | cons b bs ih =>
    exact ⟨(hx a (by simp)).trans h.1, ih h.2 fun x hx' => hx x (List.mem_cons_of_mem _ hx')⟩

/-- A null-terminated list is a path to its last node. -/
theorem Linked.path {a : α} {xs : List α} (h : Linked next a xs) :
    Path next a (a :: xs).dropLast (xs.getLastD a) ∧ next (xs.getLastD a) = none := by
  induction xs generalizing a with
  | nil => exact ⟨.nil a, h⟩
  | cons b bs ih =>
    obtain ⟨hp, hn⟩ := ih h.2
    rw [List.getLastD_cons]
    exact ⟨.cons h.1 hp, hn⟩

/-- A null-terminated list meets no node twice. -/
theorem Linked.nodup {a : α} {xs : List α} (h : Linked next a xs) : (a :: xs).Nodup := by
  have hp := h.path.1.nodup_of_terminal h.path.2
  rwa [← List.getLast_eq_getLastD (List.cons_ne_nil a xs), List.dropLast_concat_getLast] at hp

/-- The nodes behind a prefix of the list. -/
theorem Linked.drop {a : α} {xs ys : List α} (h : Linked next a (xs ++ ys)) :
    Linked next (xs.getLastD a) ys := by
  induction xs generalizing a with
  | nil => exact h
  | cons b bs ih =>
    rw [List.getLastD_cons]
    exact ih h.2

/-- A node of the list that has a successor stands before it. -/
theorem Linked.split {a p c : α} {xs : List α} (h : Linked next a xs) (hp : p ∈ a :: xs)
    (hc : next p = some c) : ∃ ys zs, xs = ys ++ c :: zs ∧ ys.getLastD a = p := by
  induction xs generalizing a with
  | nil =>
    obtain rfl := List.mem_singleton.mp hp
    cases hc.symm.trans h
  | cons b bs ih =>
    rcases List.mem_cons.mp hp with rfl | hp
    · obtain rfl : c = b := Option.some.inj (hc.symm.trans h.1)
      exact ⟨[], bs, rfl, rfl⟩
    · obtain ⟨ys, zs, rfl, hl⟩ := ih h.2 hp
      exact ⟨b :: ys, zs, rfl, by rwa [List.getLastD_cons]⟩

/-- Linking a new node behind the first one. -/
theorem Linked.insert {a n : α} {xs : List α} (h : Linked next a xs) (ha : next' a = some n)
    (hn : next' n = next a) (hx : ∀ x ∈ xs, next' x = next x) : Linked next' a (n :: xs) := by
  refine ⟨ha, ?_⟩
  cases xs with
  | nil => exact hn.trans h
  | cons b bs => exact ⟨hn.trans h.1, h.2.congr hx⟩

/-- Unlinking the node `c`. -/
theorem Linked.unlink {a c : α} {ys zs : List α} (h : Linked next a (ys ++ c :: zs))
    (hp : next' (ys.getLastD a) = next c)
    (hx : ∀ x ∈ a :: (ys ++ zs), x ≠ ys.getLastD a → next' x = next x) :
    Linked next' a (ys ++ zs) := by
  have hnd := h.nodup
  induction ys generalizing a with
  | nil =>
    simp only [List.nil_append, List.getLastD_nil] at *
    have hcz : ∀ x ∈ zs, next' x = next x := fun x hx' => by
      refine hx x (List.mem_cons_of_mem _ hx') ?_
      rintro rfl
      simp [hx'] at hnd
    cases zs with
    | nil => exact hp.trans h.2
    | cons b bs => exact ⟨hp.trans h.2.1, h.2.2.congr hcz⟩
  | cons b bs ih =>
    rw [List.getLastD_cons] at hp hx
    have ha : a ≠ bs.getLastD b := by
      rintro rfl
      exact (List.nodup_cons.mp hnd).1 (List.mem_append_left _ List.getLastD_mem_cons)
    exact ⟨(hx a (by simp) ha).trans h.1,
      ih h.2 hp (fun x hx' => hx x (List.mem_cons_of_mem _ hx')) (List.nodup_cons.mp hnd).2⟩

/-- The successor of a node of the list is a node of the list. -/
theorem Linked.next_mem {a p c : α} {xs : List α} (h : Linked next a xs) (hp : p ∈ a :: xs)
    (hc : next p = some c) : c ∈ xs := by
  obtain ⟨ys, zs, rfl, -⟩ := h.split hp hc
  simp

/-- A node stands before its successor. -/
theorem Linked.idxOf_lt [DecidableEq α] {a p c : α} {xs : List α} (h : Linked next a xs)
    (hp : p ∈ a :: xs) (hc : next p = some c) : (a :: xs).idxOf p < (a :: xs).idxOf c := by
  induction xs generalizing a with
  | nil =>
    obtain rfl := List.mem_singleton.mp hp
    cases hc.symm.trans h
  | cons b bs ih =>
    have hnd := List.nodup_cons.mp h.nodup
    have hac : a ≠ c := fun he => hnd.1 (he ▸ h.next_mem hp hc)
    rw [List.idxOf_cons_ne _ hac]
    rcases List.mem_cons.mp hp with rfl | hp'
    · simp
    · have hap : a ≠ p := fun he => hnd.1 (he ▸ hp')
      rw [List.idxOf_cons_ne _ hap]
      exact Nat.succ_lt_succ (ih h.2 hp')

end Concurrency
