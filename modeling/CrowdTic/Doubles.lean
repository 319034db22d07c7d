import Mathlib.Algebra.Order.Ring.Rat
import Mathlib.Data.Int.Log
import Mathlib.Data.Rat.Floor
import Mathlib.Tactic.Linarith
import Mathlib.Tactic.Positivity
import Mathlib.Tactic.FieldSimp

/-! Arithmetic whose results are rounded: the rounding that keeps every rational, and the one
to the nearest double. -/

/-- A rounding keeps the order, what is rounded already, and the whole numbers below 2^53. -/
structure Rounding where
  fl : ℚ → ℚ
  mono : Monotone fl
  idem : ∀ x, fl (fl x) = fl x
  whole : ∀ n : Nat, n < 2 ^ 53 → fl n = n

namespace Rounding

instance : CoeFun Rounding fun _ => ℚ → ℚ := ⟨fl⟩

def exact : Rounding := ⟨id, monotone_id, fun _ => rfl, fun _ _ => rfl⟩

@[simp] theorem exact_apply (x : ℚ) : exact x = x := rfl

theorem map_zero (rd : Rounding) : rd 0 = 0 := by exact_mod_cast rd.whole 0 (by decide)

theorem map_nonneg (rd : Rounding) {x : ℚ} (h : 0 ≤ x) : 0 ≤ rd x :=
  rd.map_zero.symm.trans_le (rd.mono h)

end Rounding

namespace Double

/-- The nearest integer, and the even one of two. -/
def nearestInt (x : ℚ) : ℤ :=
  if x - ⌊x⌋ < 1 / 2 then ⌊x⌋
  else if 1 / 2 < x - ⌊x⌋ then ⌊x⌋ + 1
  else if 2 ∣ ⌊x⌋ then ⌊x⌋ else ⌊x⌋ + 1

theorem floor_le_nearestInt (x : ℚ) : ⌊x⌋ ≤ nearestInt x := by
  unfold nearestInt
  split_ifs <;> omega

theorem nearestInt_le_floor (x : ℚ) : nearestInt x ≤ ⌊x⌋ + 1 := by
  unfold nearestInt
  split_ifs <;> omega

theorem nearestInt_intCast (n : ℤ) : nearestInt n = n := by
  simp [nearestInt]

theorem nearestInt_mono {x y : ℚ} (h : x ≤ y) : nearestInt x ≤ nearestInt y := by
  rcases (Int.floor_mono h).lt_or_eq with hlt | heq
  · have hx := nearestInt_le_floor x
    have hy := floor_le_nearestInt y
    omega
  · have hsub : x - ⌊x⌋ ≤ y - ⌊y⌋ := by
      rw [heq]
      exact sub_le_sub_right h _
    by_cases hlow : x - ⌊x⌋ < 1 / 2
    · have hfloor : nearestInt x = ⌊x⌋ := if_pos hlow
      rw [hfloor, heq]
      exact floor_le_nearestInt y
    · have hlowY : ¬ y - ⌊y⌋ < 1 / 2 := not_lt.mpr ((not_lt.mp hlow).trans hsub)
      by_cases hhigh : 1 / 2 < y - ⌊y⌋
      · have hceil : nearestInt y = ⌊y⌋ + 1 := (if_neg hlowY).trans (if_pos hhigh)
        rw [hceil, ← heq]
        exact nearestInt_le_floor x
      · have hhighX : ¬ 1 / 2 < x - ⌊x⌋ := not_lt.mpr (hsub.trans (not_lt.mp hhigh))
        rw [nearestInt, nearestInt, if_neg hlow, if_neg hlowY, if_neg hhigh, if_neg hhighX, heq]

/-- The exponent of the last digit of a positive number: 53 digits, none below 2^-1074. -/
def lastDigit (x : ℚ) : ℤ := max (Int.log 2 x - 52) (-1074)

def roundPos (x : ℚ) : ℚ := nearestInt (x / 2 ^ lastDigit x) * 2 ^ lastDigit x

section Positive

variable {x y : ℚ} {n : ℤ}

theorem two_zpow_pos (n : ℤ) : (0 : ℚ) < 2 ^ n := zpow_pos (by norm_num) n

theorem roundPos_nonneg (h : 0 < x) : 0 ≤ roundPos x := by
  have hdiv : 0 ≤ x / 2 ^ lastDigit x := div_nonneg h.le (two_zpow_pos _).le
  have hint : 0 ≤ nearestInt (x / 2 ^ lastDigit x) :=
    (Int.floor_nonneg.mpr hdiv).trans (floor_le_nearestInt _)
  exact mul_nonneg (by exact_mod_cast hint) (two_zpow_pos _).le

theorem lastDigit_mono (hx : 0 < x) (h : x ≤ y) : lastDigit x ≤ lastDigit y :=
  max_le_max_right _ (Int.sub_le_sub_right (Int.log_mono_right hx h) 52)

/-- A multiple of its last digit is kept. -/
theorem roundPos_eq_self {m : ℤ} (h : x = m * 2 ^ lastDigit x) : roundPos x = x := by
  have hdiv : x / 2 ^ lastDigit x = m := (div_eq_iff (two_zpow_pos _).ne').mpr h
  rw [roundPos, hdiv, nearestInt_intCast]
  exact h.symm

theorem zpow_eq_mul_lastDigit (h : lastDigit x ≤ n) :
    (2 : ℚ) ^ n = ((2 ^ (n - lastDigit x).toNat : ℤ) : ℚ) * 2 ^ lastDigit x := by
  have hn : ((n - lastDigit x).toNat : ℤ) = n - lastDigit x := Int.toNat_of_nonneg (by omega)
  rw [Int.cast_pow, ← zpow_natCast, hn, Int.cast_ofNat, ← zpow_add₀ (by norm_num)]
  congr 1
  omega

theorem roundPos_le_zpow (h : x ≤ 2 ^ n) (hd : lastDigit x ≤ n) : roundPos x ≤ 2 ^ n := by
  have hpow := zpow_eq_mul_lastDigit hd
  have hdiv : x / 2 ^ lastDigit x ≤ ((2 ^ (n - lastDigit x).toNat : ℤ) : ℚ) :=
    (div_le_iff₀ (two_zpow_pos _)).mpr (h.trans_eq hpow)
  have hint := nearestInt_mono hdiv
  rw [nearestInt_intCast] at hint
  rw [hpow]
  exact mul_le_mul_of_nonneg_right (by exact_mod_cast hint) (two_zpow_pos _).le

theorem zpow_le_roundPos (h : 2 ^ n ≤ x) (hd : lastDigit x ≤ n) : 2 ^ n ≤ roundPos x := by
  have hpow := zpow_eq_mul_lastDigit hd
  have hdiv : ((2 ^ (n - lastDigit x).toNat : ℤ) : ℚ) ≤ x / 2 ^ lastDigit x :=
    (le_div_iff₀ (two_zpow_pos _)).mpr (hpow.symm.trans_le h)
  have hint := nearestInt_mono hdiv
  rw [nearestInt_intCast] at hint
  rw [hpow]
  exact mul_le_mul_of_nonneg_right (by exact_mod_cast hint) (two_zpow_pos _).le

theorem roundPos_mono (hx : 0 < x) (h : x ≤ y) : roundPos x ≤ roundPos y := by
  rcases (lastDigit_mono hx h).lt_or_eq with hlt | heq
  · -- the power of two below `y` lies between the two
    have hlog := Int.log_mono_right (b := 2) hx h
    have hbelow : lastDigit x < Int.log 2 y ∧ lastDigit y ≤ Int.log 2 y ∧
        Int.log 2 x < Int.log 2 y := by
      simp only [lastDigit] at hlt ⊢
      omega
    have hlow : (2 : ℚ) ^ Int.log 2 y ≤ y := by
      exact_mod_cast Int.zpow_log_le_self (b := 2) (by norm_num) (hx.trans_le h)
    have hxlow : x < 2 ^ Int.log 2 y := by
      have hiff := Int.lt_zpow_iff_log_lt (b := 2) (x := Int.log 2 y) (by norm_num) hx
      exact_mod_cast hiff.mpr hbelow.2.2
    exact (roundPos_le_zpow hxlow.le hbelow.1.le).trans (zpow_le_roundPos hlow hbelow.2.1)
  · have hdiv : x / 2 ^ lastDigit y ≤ y / 2 ^ lastDigit y :=
      div_le_div_of_nonneg_right h (two_zpow_pos _).le
    have hint := nearestInt_mono hdiv
    rw [roundPos, roundPos, heq]
    exact mul_le_mul_of_nonneg_right (by exact_mod_cast hint) (two_zpow_pos _).le

/-- Rounding up to a power of two is the only way to a larger last digit. -/
theorem roundPos_fixed (hz : 0 < roundPos x) : roundPos (roundPos x) = roundPos x := by
  by_cases hd : lastDigit (roundPos x) ≤ lastDigit x
  · have hpow := zpow_eq_mul_lastDigit hd
    refine roundPos_eq_self (m := nearestInt (x / 2 ^ lastDigit x) *
      2 ^ (lastDigit x - lastDigit (roundPos x)).toNat) ?_
    rw [Int.cast_mul, mul_assoc, ← hpow]
    rfl
  · have hxlow : x ≤ 2 ^ max (Int.log 2 x + 1) (-1074) := by
      have hsucc : x < (2 : ℚ) ^ (Int.log 2 x + 1) := by
        exact_mod_cast Int.lt_zpow_succ_log_self (b := 2) (by norm_num) x
      exact hsucc.le.trans (zpow_le_zpow_right₀ (by norm_num) (le_max_left _ _))
    have hle := roundPos_le_zpow hxlow (by simp only [lastDigit]; omega)
    have hlog := Int.log_mono_right (b := 2) hz hle
    have hcast : ((2 : ℕ) : ℚ) = 2 := rfl
    rw [← hcast, Int.log_zpow (by norm_num)] at hlog
    have htop : Int.log 2 (roundPos x) = max (Int.log 2 x + 1) (-1074) ∧
        lastDigit (roundPos x) ≤ max (Int.log 2 x + 1) (-1074) := by
      simp only [lastDigit] at hd ⊢
      omega
    have hge : (2 : ℚ) ^ Int.log 2 (roundPos x) ≤ roundPos x := by
      exact_mod_cast Int.zpow_log_le_self (b := 2) (by norm_num) hz
    rw [htop.1] at hge
    have heq := le_antisymm hle hge
    have hpow := zpow_eq_mul_lastDigit htop.2
    exact roundPos_eq_self (heq.trans hpow)

end Positive

/-- The nearest double. There are no infinities: every number has an exponent. -/
def round (x : ℚ) : ℚ := if 0 < x then roundPos x else if x < 0 then -roundPos (-x) else 0

theorem round_mono : Monotone round := by
  intro x y h
  have hsign (z : ℚ) (hz : ¬ 0 < z) : round z ≤ 0 := by
    rw [round, if_neg hz]
    split_ifs with hn
    · have hr := roundPos_nonneg (neg_pos.mpr hn)
      linarith
    · exact le_rfl
  by_cases hx : 0 < x
  · rw [round, round, if_pos hx, if_pos (hx.trans_le h)]
    exact roundPos_mono hx h
  · by_cases hy : 0 < y
    · refine (hsign x hx).trans ?_
      rw [round, if_pos hy]
      exact roundPos_nonneg hy
    · by_cases hn : y < 0
      · rw [round, round, if_neg hx, if_neg hy, if_pos (h.trans_lt hn), if_pos hn]
        exact neg_le_neg (roundPos_mono (neg_pos.mpr hn) (neg_le_neg h))
      · have hzero : round y = 0 := by rw [round, if_neg hy, if_neg hn]
        rw [hzero]
        exact hsign x hx

theorem round_round (x : ℚ) : round (round x) = round x := by
  have hpos (y : ℚ) (hy : 0 < y) : round (roundPos y) = roundPos y := by
    rcases (roundPos_nonneg hy).lt_or_eq with hz | hz
    · rw [round, if_pos hz]
      exact roundPos_fixed hz
    · rw [← hz]
      rfl
  by_cases hx : 0 < x
  · have hround : round x = roundPos x := if_pos hx
    rw [hround]
    exact hpos x hx
  · by_cases hn : x < 0
    · have hneg := hpos (-x) (neg_pos.mpr hn)
      have hodd : round (-roundPos (-x)) = -round (roundPos (-x)) := by
        rcases (roundPos_nonneg (neg_pos.mpr hn)).lt_or_eq with hz | hz
        · simp [round, hz, hz.le.not_gt]
        · simp [← hz, round]
      have hround : round x = -roundPos (-x) := (if_neg hx).trans (if_pos hn)
      rw [hround, hodd, hneg]
    · have hzero : round x = 0 := by rw [round, if_neg hx, if_neg hn]
      rw [hzero]
      rfl

theorem round_natCast {n : Nat} (h : n < 2 ^ 53) : round n = n := by
  rcases Nat.eq_zero_or_pos n with rfl | hpos
  · rfl
  · have hq : (0 : ℚ) < n := by exact_mod_cast hpos
    have hlog : Int.log 2 (n : ℚ) < 53 := by
      have hiff := Int.lt_zpow_iff_log_lt (b := 2) (x := 53) (by norm_num) hq
      refine hiff.mp ?_
      have hcast : (n : ℚ) < (2 ^ 53 : Nat) := by exact_mod_cast h
      exact_mod_cast hcast
    have hlast : lastDigit (n : ℚ) ≤ 0 := by
      simp only [lastDigit]
      omega
    have hone := zpow_eq_mul_lastDigit hlast
    rw [round, if_pos hq]
    refine roundPos_eq_self (m := n * 2 ^ (0 - lastDigit (n : ℚ)).toNat) ?_
    rw [Int.cast_mul, mul_assoc, ← hone, zpow_zero, mul_one, Int.cast_natCast]

end Double

def Rounding.double : Rounding := ⟨Double.round, Double.round_mono, Double.round_round, fun _ => Double.round_natCast⟩

/-- A hundred times 0.29 is below 29. -/
example : Rounding.double (Rounding.double (29 / 100) * 100) < 29 := by decide +kernel
