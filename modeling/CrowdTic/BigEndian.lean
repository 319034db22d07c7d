import Mathlib.Data.Nat.Digits.Lemmas

/-! Byte strings read as numbers, the first byte the most significant. -/

namespace BigEndian

def toNat (bs : List UInt8) : Nat := Nat.ofDigits 256 (bs.reverse.map UInt8.toNat)

def bytes (n : Nat) : List UInt8 := ((Nat.digits 256 n).map UInt8.ofNat).reverse

/-- `bs` with zeros in front, up to `k` bytes. -/
def padded (k : Nat) (bs : List UInt8) : List UInt8 := List.replicate (k - bs.length) 0 ++ bs

theorem toNat_append (as bs : List UInt8) : toNat (as ++ bs) = toNat as * 256 ^ bs.length + toNat bs := by
  rw [toNat, List.reverse_append, List.map_append, Nat.ofDigits_append, List.length_map, List.length_reverse,
    ← toNat, ← toNat]
  ring

theorem length_padded {k : Nat} {bs : List UInt8} (h : bs.length ≤ k) : (padded k bs).length = k := by
  rw [padded, List.length_append, List.length_replicate]
  omega

theorem toNat_lt (bs : List UInt8) : toNat bs < 256 ^ bs.length := by
  have hdigits : ∀ d ∈ bs.reverse.map UInt8.toNat, d < 256 := by
    intro d hd
    obtain ⟨b, -, rfl⟩ := List.mem_map.mp hd
    exact b.toNat_lt
  have hlt := Nat.ofDigits_lt_base_pow_length (by decide) hdigits
  simpa [toNat] using hlt

theorem toNat_ofNat_of_mem_digits {n d : Nat} (h : d ∈ Nat.digits 256 n) : (UInt8.ofNat d).toNat = d :=
  UInt8.toNat_ofNat_of_lt' (Nat.digits_lt_base (by decide) h)

@[simp] theorem toNat_bytes (n : Nat) : toNat (bytes n) = n := by
  have hdigits : ((Nat.digits 256 n).map UInt8.ofNat).map UInt8.toNat = Nat.digits 256 n := by
    have hbyte : ∀ d ∈ Nat.digits 256 n, (UInt8.toNat ∘ UInt8.ofNat) d = id d := fun d hd =>
      toNat_ofNat_of_mem_digits hd
    rw [List.map_map, List.map_congr_left hbyte, List.map_id]
  rw [toNat, bytes, List.reverse_reverse, hdigits, Nat.ofDigits_digits]

theorem length_bytes_le_iff {n k : Nat} : (bytes n).length ≤ k ↔ n < 256 ^ k := by
  rw [bytes, List.length_reverse, List.length_map, Nat.digits_length_le_iff (by decide)]

theorem length_bytes_pos {n : Nat} (h : 0 < n) : 0 < (bytes n).length := by
  by_contra hzero
  have hlt := length_bytes_le_iff.mp (Nat.le_of_not_lt hzero)
  omega

theorem head_bytes (n : Nat) : (bytes n).head? ≠ some 0 := by
  intro h
  rcases Nat.eq_zero_or_pos n with rfl | hpos
  · simp [bytes] at h
  · have hne := Nat.digits_ne_nil_iff_ne_zero (b := 256).mpr (by omega : n ≠ 0)
    have hlast := Nat.getLast_digit_ne_zero 256 (by omega : n ≠ 0)
    rw [bytes, List.head?_reverse, List.getLast?_map, List.getLast?_eq_some_getLast hne, Option.map_some,
      Option.some.injEq] at h
    have hzero := congrArg UInt8.toNat h
    rw [toNat_ofNat_of_mem_digits (List.getLast_mem hne)] at hzero
    exact hlast hzero

end BigEndian
