import Mathlib.Data.Finset.Card
import Mathlib.Data.Finset.Interval
import Mathlib.Order.Interval.Finset.Nat

/-! Counters that several clients share. An atomic increment hands out every
number once. A counter that is read in one step and written in another may be
written back to a value that it has passed. -/

namespace SharedCounter

section Numbers

variable {κ : Type*} [DecidableEq κ]

/-- Of the numbers that are handed out once each, at most `n` are at most `n`. -/
theorem countP_le_of_distinct {T : List (κ × Nat)} (hT : T.Nodup) (hpos : ∀ x ∈ T, 1 ≤ x.2) (k : κ)
    (n : Nat) : T.countP (fun x => x.1 = k ∧ x.2 ≤ n) ≤ n := by
  rw [List.countP_eq_length_filter]
  have hmem : ∀ x ∈ T.filter fun x => x.1 = k ∧ x.2 ≤ n, x ∈ T ∧ x.1 = k ∧ x.2 ≤ n := by
    intro x hx
    simpa using List.mem_filter.mp hx
  have hinj : ∀ x ∈ T.filter fun x => x.1 = k ∧ x.2 ≤ n,
      ∀ y ∈ T.filter fun x => x.1 = k ∧ x.2 ≤ n, x.2 = y.2 → x = y := by
    intro x hx y hy hxy
    exact Prod.ext ((hmem x hx).2.1.trans (hmem y hy).2.1.symm) hxy
  have hnodup := (hT.filter fun x => x.1 = k ∧ x.2 ≤ n).map_on hinj
  have hsub : ((T.filter fun x => x.1 = k ∧ x.2 ≤ n).map Prod.snd).toFinset ⊆ Finset.Icc 1 n := by
    intro m hm
    obtain ⟨x, hx, rfl⟩ := List.mem_map.mp (List.mem_toFinset.mp hm)
    exact Finset.mem_Icc.mpr ⟨hpos x (hmem x hx).1, (hmem x hx).2.2⟩
  have hcard := Finset.card_le_card hsub
  rwa [List.toFinset_card_of_nodup hnodup, List.length_map, Nat.card_Icc, Nat.add_sub_cancel] at hcard

end Numbers

section Writes

/-- The writes up to `limit` so far, against the value and the number of writes that were not
above the value they replaced. -/
def Spent (limit value lost passed : Nat) : Prop := passed ≤ min value limit + limit * lost

variable {limit value lost passed : Nat}

theorem Spent.write (h : Spent limit value lost passed) {w : Nat} (hw : 1 ≤ w) :
    Spent limit w (if w ≤ value then lost + 1 else lost) (if w ≤ limit then passed + 1 else passed) := by
  have hp : passed ≤ min value limit + limit * lost := h
  show (if w ≤ limit then passed + 1 else passed) ≤
    min w limit + limit * if w ≤ value then lost + 1 else lost
  by_cases hv : w ≤ value
  · rw [if_pos hv, Nat.mul_succ]
    split <;> omega
  · rw [if_neg hv]
    split <;> omega

theorem Spent.mono (h : Spent limit value lost passed) {passed' : Nat} (hp : passed' ≤ passed) :
    Spent limit value lost passed' := le_trans hp h

theorem Spent.le (h : Spent limit value lost passed) : passed ≤ limit * (lost + 1) := by
  have hp : passed ≤ min value limit + limit * lost := h
  rw [Nat.mul_succ]
  omega

end Writes

end SharedCounter
