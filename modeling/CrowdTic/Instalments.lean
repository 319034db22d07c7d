import Mathlib.Algebra.BigOperators.Group.List.Basic
import Mathlib.Algebra.GroupWithZero.Nat

/-! Claims on an amount that accrues in parts of a unit. A claim pays the whole
units of what is owed and writes off the rest, unless it pays nothing. Claiming
often costs less than one unit a claim. -/

namespace Instalments

structure Account where
  accrued : Nat
  owed : Nat
  paid : List Nat

variable (unit : Nat)

def Account.accrue (a : Account) (parts : Nat) : Account :=
  { a with accrued := a.accrued + parts, owed := a.owed + parts }

def Account.claim (a : Account) : Account where
  accrued := a.accrued
  owed := if 0 < a.owed / unit then 0 else a.owed
  paid := a.paid ++ [a.owed / unit]

/-- What has accrued is paid or owed, up to less than a unit for each claim. -/
structure Account.Settled (a : Account) : Prop where
  covered : a.paid.sum * unit + a.owed ≤ a.accrued
  lost : a.accrued ≤ a.paid.sum * unit + a.paid.length * (unit - 1) + a.owed

variable {unit} {a : Account}

theorem Account.Settled.accrue (h : a.Settled unit) (parts : Nat) : (a.accrue parts).Settled unit := by
  obtain ⟨hc, hl⟩ := h
  constructor
  · show a.paid.sum * unit + (a.owed + parts) ≤ a.accrued + parts
    omega
  · show a.accrued + parts ≤ a.paid.sum * unit + a.paid.length * (unit - 1) + (a.owed + parts)
    omega

theorem sum_claim (a : Account) : (a.claim unit).paid.sum = a.paid.sum + a.owed / unit := by
  simp [Account.claim]

theorem length_claim (a : Account) : (a.claim unit).paid.length = a.paid.length + 1 := by
  simp [Account.claim]

/-- A claim pays what is owed up to less than a unit, whether it writes that off or not. -/
theorem Account.Settled.claim_bounds (hu : 0 < unit) (h : a.Settled unit) :
    (a.claim unit).paid.sum * unit ≤ a.accrued ∧
      a.accrued ≤ (a.claim unit).paid.sum * unit + (a.claim unit).paid.length * (unit - 1) := by
  obtain ⟨hc, hl⟩ := h
  have hdiv := Nat.div_add_mod' a.owed unit
  have hmod := Nat.mod_lt a.owed hu
  rw [sum_claim, length_claim, Nat.add_mul, Nat.add_mul, Nat.one_mul]
  omega

theorem Account.Settled.claim (hu : 0 < unit) (h : a.Settled unit) : (a.claim unit).Settled unit := by
  obtain ⟨hle, hlost⟩ := h.claim_bounds hu
  by_cases hpos : 0 < a.owed / unit
  · have howed : (a.claim unit).owed = 0 := if_pos hpos
    constructor
    · rw [howed]
      exact hle
    · rw [howed]
      exact hlost
  · have howed : (a.claim unit).owed = a.owed := if_neg hpos
    have hsum : (a.claim unit).paid.sum = a.paid.sum := by
      rw [sum_claim, Nat.eq_zero_of_not_pos hpos, Nat.add_zero]
    constructor
    · rw [howed, hsum]
      exact h.covered
    · rw [howed]
      exact Nat.le_trans hlost (Nat.le_add_right _ _)

/-- Behind a claim, the payments together are the whole units of all that has accrued, short of fewer
units than there were claims. -/
theorem Account.Settled.paid_after_claim (hu : 0 < unit) (h : a.Settled unit) :
    (a.claim unit).paid.sum ≤ a.accrued / unit ∧
      a.accrued / unit < (a.claim unit).paid.sum + (a.claim unit).paid.length := by
  obtain ⟨hle, hlost⟩ := h.claim_bounds hu
  refine ⟨(Nat.le_div_iff_mul_le hu).mpr hle, (Nat.div_lt_iff_lt_mul hu).mpr ?_⟩
  have hlen : 0 < (a.claim unit).paid.length := by rw [length_claim]; omega
  have hless : (a.claim unit).paid.length * (unit - 1) < (a.claim unit).paid.length * unit :=
    Nat.mul_lt_mul_of_pos_left (by omega) hlen
  rw [Nat.add_mul]
  omega

end Instalments
