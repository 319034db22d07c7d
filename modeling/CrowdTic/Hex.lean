import CrowdTic.BigEndian

/-! Hexadecimal text as `encoding/hex` reads and writes it. A text is the
string of its bytes. -/

namespace Hex

def digit (b : UInt8) : Option Nat :=
  if 48 ≤ b.toNat ∧ b.toNat ≤ 57 then some (b.toNat - 48)
  else if 97 ≤ b.toNat ∧ b.toNat ≤ 102 then some (b.toNat - 87)
  else if 65 ≤ b.toNat ∧ b.toNat ≤ 70 then some (b.toNat - 55)
  else none

def char (n : Nat) : UInt8 := if n < 10 then .ofNat (48 + n) else .ofNat (87 + n)

inductive DecodeError
  | invalidByte (b : UInt8)
  | length
  deriving DecidableEq

/-- The bytes before the first error, and the error. -/
def decodeString : List UInt8 → List UInt8 × Option DecodeError
  | [] => ([], none)
  | [p] => match digit p with
    | none => ([], some (.invalidByte p))
    | some _ => ([], some .length)
  | p :: q :: rest => match digit p, digit q with
    | none, _ => ([], some (.invalidByte p))
    | some _, none => ([], some (.invalidByte q))
    | some a, some b => (.ofNat (16 * a + b) :: (decodeString rest).1, (decodeString rest).2)

def encodeToString (bs : List UInt8) : List UInt8 :=
  bs.flatMap fun b => [char (b.toNat / 16), char (b.toNat % 16)]

def toNat (s : List UInt8) : Nat := Nat.ofDigits 16 (s.reverse.map fun b => (digit b).getD 0)

/-- What `%x` writes for a number. -/
def ofNat (n : Nat) : List UInt8 :=
  if n = 0 then [char 0] else ((Nat.digits 16 n).map char).reverse

/-- `strings.TrimPrefix` of `0x` -/
def trim0x : List UInt8 → List UInt8
  | 48 :: 120 :: s => s
  | s => s

@[simp] theorem trim0x_cons (s : List UInt8) : trim0x (48 :: 120 :: s) = s := rfl

/-- A text of digits, two for each byte. -/
structure Text where
  digits : List UInt8
  hex : ∀ b ∈ digits, (digit b).isSome
  even : digits.length % 2 = 0

def Text.bytes (t : Text) : List UInt8 := (decodeString t.digits).1

theorem trim0x_of_digits {s : List UInt8} (h : ∀ b ∈ s, (digit b).isSome) : trim0x s = s := by
  unfold trim0x
  split
  · rename_i rest
    have hx := h 120 (List.mem_cons_of_mem _ List.mem_cons_self)
    cases hx
  · rfl

theorem digit_char : ∀ n < 16, digit (char n) = some n := by decide +kernel

theorem decodeString_cons {p q : UInt8} {a b : Nat} (hp : digit p = some a) (hq : digit q = some b)
    (rest : List UInt8) : decodeString (p :: q :: rest) =
      (.ofNat (16 * a + b) :: (decodeString rest).1, (decodeString rest).2) := by
  rw [decodeString, hp, hq]

@[simp] theorem decodeString_encodeToString (bs : List UInt8) :
    decodeString (encodeToString bs) = (bs, none) := by
  induction bs with
  | nil => rfl
  | cons b bs ih =>
    have hb := b.toNat_lt
    have hhigh := digit_char (b.toNat / 16) (by omega)
    have hlow := digit_char (b.toNat % 16) (by omega)
    have hbyte : UInt8.ofNat (16 * (b.toNat / 16) + b.toNat % 16) = b := by
      rw [Nat.div_add_mod, UInt8.ofNat_toNat]
    show decodeString (char (b.toNat / 16) :: char (b.toNat % 16) :: encodeToString bs) = _
    rw [decodeString_cons hhigh hlow, ih, hbyte]

theorem length_encodeToString (bs : List UInt8) : (encodeToString bs).length = 2 * bs.length := by
  induction bs with
  | nil => rfl
  | cons b bs ih =>
    show (encodeToString bs).length + 1 + 1 = 2 * (bs.length + 1)
    omega

/-- Two digits a byte, no more and no less. -/
theorem decodeString_of_even : ∀ {s : List UInt8}, (∀ b ∈ s, (digit b).isSome) → s.length % 2 = 0 →
    (decodeString s).2 = none ∧ 2 * (decodeString s).1.length = s.length
  | [], _, _ => ⟨rfl, rfl⟩
  | [_], _, heven => by simp at heven
  | p :: q :: rest, hhex, heven => by
    obtain ⟨a, ha⟩ := Option.isSome_iff_exists.mp (hhex p List.mem_cons_self)
    obtain ⟨b, hb⟩ := Option.isSome_iff_exists.mp (hhex q (List.mem_cons_of_mem _ List.mem_cons_self))
    have hrest : rest.length % 2 = 0 := by
      simp only [List.length_cons] at heven
      omega
    obtain ⟨hnone, hlen⟩ := decodeString_of_even
      (fun c hc => hhex c (List.mem_cons_of_mem _ (List.mem_cons_of_mem _ hc))) hrest
    rw [decodeString_cons ha hb]
    refine ⟨hnone, ?_⟩
    simp only [List.length_cons]
    omega

theorem length_decodeString_le : ∀ s : List UInt8, (decodeString s).1.length ≤ s.length
  | [] => Nat.le_refl 0
  | [p] => by
    rw [decodeString]
    split <;> exact Nat.zero_le _
  | p :: q :: rest => by
    have hrest := length_decodeString_le rest
    rw [decodeString]
    split
    · exact Nat.zero_le _
    · exact Nat.zero_le _
    · simp only [List.length_cons]
      omega

theorem length_ofNat_le {n k : Nat} (hk : 0 < k) (h : n < 16 ^ k) : (ofNat n).length ≤ k := by
  rw [ofNat]
  split
  · exact hk
  · rw [List.length_reverse, List.length_map]
    exact (Nat.digits_length_le_iff (by decide) n).mpr h

theorem hex_ofNat (n : Nat) : ∀ b ∈ ofNat n, (digit b).isSome := by
  intro b hb
  rw [ofNat] at hb
  split at hb
  · rw [List.mem_singleton.mp hb, digit_char 0 (by decide)]
    rfl
  · obtain ⟨d, hd, rfl⟩ := List.mem_map.mp (List.mem_reverse.mp hb)
    rw [digit_char d (Nat.digits_lt_base (by decide) hd)]
    rfl

/-- A digit is left over. -/
theorem decodeString_of_odd : ∀ {s : List UInt8}, (∀ b ∈ s, (digit b).isSome) → s.length % 2 = 1 →
    (decodeString s).2 = some .length
  | [], _, hodd => by simp at hodd
  | [p], hhex, _ => by
    obtain ⟨a, ha⟩ := Option.isSome_iff_exists.mp (hhex p List.mem_cons_self)
    rw [decodeString, ha]
  | p :: q :: rest, hhex, hodd => by
    obtain ⟨a, ha⟩ := Option.isSome_iff_exists.mp (hhex p List.mem_cons_self)
    obtain ⟨b, hb⟩ := Option.isSome_iff_exists.mp (hhex q (List.mem_cons_of_mem _ List.mem_cons_self))
    rw [decodeString_cons ha hb]
    apply decodeString_of_odd
    · exact fun c hc => hhex c (List.mem_cons_of_mem _ (List.mem_cons_of_mem _ hc))
    · simp only [List.length_cons] at hodd
      omega

/-- The digits of a number, when they are even in number, are those of its bytes. -/
theorem digits_of_even {n : Nat} (h : (Nat.digits 16 n).length % 2 = 0) :
    ((Nat.digits 16 n).map char).reverse = encodeToString (BigEndian.bytes n) := by
  induction n using Nat.strong_induction_on with
  | _ n ih =>
    rcases Nat.eq_zero_or_pos n with rfl | hpos
    · rfl
    · have hlow : Nat.digits 16 n = n % 16 :: Nat.digits 16 (n / 16) := Nat.digits_def' (by decide) hpos
      have htop : 0 < n / 16 := by
        by_contra hzero
        rw [hlow, Nat.eq_zero_of_not_pos hzero] at h
        simp at h
      have hhigh : Nat.digits 16 (n / 16) = n / 16 % 16 :: Nat.digits 16 (n / 256) := by
        rw [Nat.digits_def' (by decide) htop, Nat.div_div_eq_div_mul]
      have hbytes : BigEndian.bytes n = BigEndian.bytes (n / 256) ++ [.ofNat (n % 256)] := by
        rw [BigEndian.bytes, Nat.digits_def' (by decide) hpos, List.map_cons, List.reverse_cons]
        rfl
      have hrest : (Nat.digits 16 (n / 256)).length % 2 = 0 := by
        rw [hlow, hhigh, List.length_cons, List.length_cons] at h
        omega
      have hbyte : (UInt8.ofNat (n % 256)).toNat = n % 256 :=
        UInt8.toNat_ofNat_of_lt' (Nat.mod_lt n (by decide))
      have hpair : encodeToString [.ofNat (n % 256)] = [char (n / 16 % 16), char (n % 16)] := by
        show [char ((UInt8.ofNat (n % 256)).toNat / 16), char ((UInt8.ofNat (n % 256)).toNat % 16)] = _
        rw [hbyte, show n % 256 / 16 = n / 16 % 16 by omega, show n % 256 % 16 = n % 16 by omega]
      have hsplit : encodeToString (BigEndian.bytes n) =
          encodeToString (BigEndian.bytes (n / 256)) ++ encodeToString [.ofNat (n % 256)] := by
        rw [hbytes, encodeToString, List.flatMap_append]
        rfl
      rw [hsplit, ← ih (n / 256) (by omega) hrest, hpair, hlow, hhigh]
      simp

/-- The digits that `%x` writes fill whole bytes. The one digit of zero does not. -/
def Whole (n : Nat) : Prop := n ≠ 0 ∧ (Nat.digits 16 n).length % 2 = 0

instance (n : Nat) : Decidable (Whole n) := inferInstanceAs (Decidable (_ ∧ _))

theorem Whole.decodeString {n : Nat} (h : Whole n) : decodeString (ofNat n) = (BigEndian.bytes n, none) := by
  rw [ofNat, if_neg h.1, digits_of_even h.2, decodeString_encodeToString]

theorem decodeString_of_not_whole {n : Nat} (h : ¬ Whole n) :
    ∃ bs, decodeString (ofNat n) = (bs, some .length) := by
  refine ⟨_, Prod.ext rfl (decodeString_of_odd (hex_ofNat n) ?_)⟩
  rw [ofNat]
  split
  · rfl
  · rename_i hn
    have hodd := not_and.mp h hn
    rw [List.length_reverse, List.length_map]
    omega

theorem Text.decode (t : Text) : decodeString t.digits = (t.bytes, none) :=
  Prod.ext rfl (decodeString_of_even t.hex t.even).1

end Hex
