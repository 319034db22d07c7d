import Mathlib.Data.List.Basic

/-! Decimal numerals with leading zeros: their value, and their length. -/

namespace Decimal

def width (n : Nat) : Nat := (toString n).length

def padded (w n : Nat) : String := String.ofList (List.leftpad w '0' (toString n).toList)

def value (s : String) : Nat := Nat.ofDigitChars 10 s.toList 0

variable {w w' n m : Nat}

theorem toList_toString : (toString n).toList = Nat.toDigits 10 n := Nat.toList_repr

theorem toString_inj (h : toString n = toString m) : n = m := by
  have hdigits : Nat.toDigits 10 n = Nat.toDigits 10 m := by
    rw [← toList_toString, ← toList_toString, h]
  simpa using congrArg (Nat.ofDigitChars 10 · 0) hdigits

theorem width_eq : width n = (Nat.toDigits 10 n).length := by
  rw [width, ← toList_toString, String.length_toList]

theorem width_le_four_iff : width n ≤ 4 ↔ n < 10000 := by
  rw [width_eq]
  exact Nat.length_toDigits_le_iff (by decide) (by decide)

theorem width_le_five_iff : width n ≤ 5 ↔ n < 100000 := by
  rw [width_eq]
  exact Nat.length_toDigits_le_iff (by decide) (by decide)

@[simp] theorem value_padded : value (padded w n) = n := by
  rw [value, padded, String.toList_ofList, List.leftpad, Nat.ofDigitChars_append,
    Nat.ofDigitChars_replicate_zero, toList_toString]
  simp

theorem length_padded : (padded w n).length = max w (width n) := by
  rw [padded, String.length_ofList, List.length_leftpad, String.length_toList, width]

theorem padded_inj (h : padded w n = padded w' m) : n = m := by
  simpa using congrArg value h

end Decimal
