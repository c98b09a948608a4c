import UbuntuProjects.Memory.CString

/-!
# Expansion of a format

What the functions of the `printf` family make of a format and its arguments. The
conversions that are expanded are `%%`, `%s` and, with the text of `errno`, `%m`; a format
that asks for an argument that is not there, or ends in a lone `%`, has no defined
expansion.
-/

set_option autoImplicit false

namespace Memory

/-- `%` -/
def percent : UInt8 := 37

/-- The expansion of a format, `error` being the text for `%m`. -/
def expand (error : CString) : List UInt8 → List CString → Option (List UInt8)
  | [], _ => some []
  | b :: format, args =>
    if b ≠ percent then (expand error format args).map (b :: ·)
    else match format, args with
      | [], _ => none
      | c :: format, args =>
        if c = percent then (expand error format args).map (percent :: ·)
        else if c = 109 then (expand error format args).map (error.bytes ++ ·)
        else match args with
          | [] => none
          | s :: args =>
            if c = 115 then (expand error format args).map (s.bytes ++ ·) else none

/-- `"%s"` -/
def percentS : CString := ⟨[percent, 115], by decide⟩

variable {error : CString}

/-- INTERNAL: `%s` alone expands to its argument. -/
theorem expand_percentS (s : CString) : expand error percentS.bytes [s] = some s.bytes := by
  show (some []).map (s.bytes ++ ·) = _
  rw [Option.map_some, List.append_nil]

/-- **Text without a percent sign is its own expansion.** -/
theorem expand_eq_self (args : List CString) :
    ∀ format : List UInt8, percent ∉ format → expand error format args = some format := by
  intro format
  induction format with
  | nil => exact fun _ => rfl
  | cons b format ih =>
    intro hb
    rw [List.mem_cons, not_or] at hb
    unfold expand
    rw [if_pos (Ne.symm hb.1), ih hb.2, Option.map_some]

/-- INTERNAL: an expansion loses a percent sign with each conversion. -/
theorem count_expand (herror : percent ∉ error.bytes) (format : List UInt8)
    (args : List CString) (hargs : ∀ s ∈ args, percent ∉ s.bytes) (out : List UInt8)
    (hout : expand error format args = some out) :
    out.count percent ≤ format.count percent ∧
      (percent ∈ format → out.count percent < format.count percent) := by
  fun_induction expand error format args generalizing out with
  | case1 =>
    obtain rfl := Option.some.inj hout
    exact ⟨le_rfl, fun h => absurd h List.not_mem_nil⟩
  | case2 b format args hb ih =>
    obtain ⟨rest, hrest, rfl⟩ := Option.map_eq_some_iff.mp hout
    obtain ⟨hle, hlt⟩ := ih hargs rest hrest
    rw [List.count_cons_of_ne hb, List.count_cons_of_ne hb]
    refine ⟨hle, fun h => hlt ?_⟩
    exact (List.mem_cons.mp h).resolve_left (Ne.symm hb)
  | case4 b hb format args ih =>
    rw [ne_eq, not_not] at hb
    obtain ⟨rest, hrest, rfl⟩ := Option.map_eq_some_iff.mp hout
    have hle := (ih hargs rest hrest).1
    rw [hb, List.count_cons_self, List.count_cons_self, List.count_cons_self]
    omega
  | case5 b hb format args hc ih =>
    rw [ne_eq, not_not] at hb
    obtain ⟨rest, hrest, rfl⟩ := Option.map_eq_some_iff.mp hout
    have hle := (ih hargs rest hrest).1
    have hzero := List.count_eq_zero.mpr herror
    rw [hb, List.count_cons_self, List.count_cons_of_ne hc, List.count_append, hzero]
    omega
  | case7 b hb format s args hc _ ih =>
    rw [ne_eq, not_not] at hb
    obtain ⟨rest, hrest, rfl⟩ := Option.map_eq_some_iff.mp hout
    have hle := (ih (fun t ht => hargs t (List.mem_cons_of_mem _ ht)) rest hrest).1
    have hzero := List.count_eq_zero.mpr (hargs s List.mem_cons_self)
    rw [hb, List.count_cons_self, List.count_cons_of_ne hc, List.count_append, hzero]
    omega
  | case3 | case6 | case8 => exact absurd hout (by simp)

/-- **Only text without a percent sign is its own expansion.** -/
theorem expand_eq_self_iff (herror : percent ∉ error.bytes) (format : List UInt8) :
    expand error format [] = some format ↔ percent ∉ format := by
  constructor
  · intro h hmem
    have hlt := (count_expand herror format [] (by simp) format h).2 hmem
    exact absurd hlt (Nat.lt_irrefl _)
  · exact expand_eq_self [] format

end Memory
