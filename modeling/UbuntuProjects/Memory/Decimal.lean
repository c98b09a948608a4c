import Mathlib.Data.Nat.Digits.Lemmas
import UbuntuProjects.Memory.CString

/-!
# Decimal texts

The text that `%ld` makes of a natural number, and the number that a reader makes of a text
of digits. Reading what has been written gives the number back (`ofDecimal_decimal`).
-/

set_option autoImplicit false

namespace Memory

/-- The digits of a number, the highest first. -/
def decimalDigits (n : ℕ) : List ℕ := if n = 0 then [0] else (Nat.digits 10 n).reverse

/-- INTERNAL: they are digits. -/
theorem decimalDigits_lt {n d : ℕ} (h : d ∈ decimalDigits n) : d < 10 := by
  unfold decimalDigits at h
  split at h
  · rw [List.mem_singleton.mp h]
    omega
  · apply Nat.digits_lt_base (by omega)
    exact List.mem_reverse.mp h

/-- The character of a digit. -/
def digitByte (d : ℕ) : UInt8 := UInt8.ofNat (48 + d)

/-- INTERNAL: the digit can be read back. -/
theorem toNat_digitByte {d : ℕ} (h : d < 10) : (digitByte d).toNat = 48 + d := by
  unfold digitByte
  rw [UInt8.toNat_ofNat']
  omega

/-- The decimal text of a number. -/
def decimal (n : ℕ) : CString where
  bytes := (decimalDigits n).map digitByte
  no_nul := by
    intro h
    obtain ⟨d, hd, heq⟩ := List.mem_map.mp h
    have hval := toNat_digitByte (decimalDigits_lt hd)
    rw [heq] at hval
    simp only [UInt8.toNat_zero] at hval
    omega

/-- The number that a text of digits stands for. -/
def ofDecimal (s : CString) : ℕ := s.bytes.foldl (fun n b => 10 * n + (b.toNat - 48)) 0

/-- **A number is read back from its text.** -/
theorem ofDecimal_decimal (n : ℕ) : ofDecimal (decimal n) = n := by
  have hfold : ∀ ds : List ℕ, (∀ d ∈ ds, d < 10) → ∀ a : ℕ,
      (ds.map digitByte).foldl (fun n b => 10 * n + (b.toNat - 48)) a =
        ds.foldl (fun n d => 10 * n + d) a := by
    intro ds
    induction ds with
    | nil => exact fun _ _ => rfl
    | cons d ds ih =>
      intro hds a
      rw [List.map_cons, List.foldl_cons, List.foldl_cons,
        toNat_digitByte (hds d List.mem_cons_self), Nat.add_sub_cancel_left]
      apply ih
      intro e he
      exact hds e (List.mem_cons_of_mem d he)
  have hdigits : (decimalDigits n).foldl (fun n d => 10 * n + d) 0 = n := by
    unfold decimalDigits
    split
    · simp only [List.foldl_cons, List.foldl_nil]
      omega
    · rw [List.foldl_reverse]
      have hof := Nat.ofDigits_digits 10 n
      rw [Nat.ofDigits_eq_foldr] at hof
      simpa [Nat.add_comm] using hof
  unfold ofDecimal decimal
  rw [hfold _ fun d hd => decimalDigits_lt hd]
  exact hdigits

/-- **The length of the text of a number below a power of ten.** -/
theorem length_decimal_le {n k : ℕ} (hk : 0 < k) (hn : n < 10 ^ k) : (decimal n).length ≤ k := by
  show ((decimalDigits n).map digitByte).length ≤ k
  rw [List.length_map]
  unfold decimalDigits
  split
  · exact hk
  · rw [List.length_reverse]
    exact (Nat.digits_length_le_iff (by omega) n).mpr hn

end Memory
