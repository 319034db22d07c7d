import Mathlib.Algebra.BigOperators.Group.List.Basic
import Mathlib.Algebra.Order.Field.Basic
import Mathlib.Tactic.Linarith
import Mathlib.Tactic.Ring

/-! A meter that fills at a constant rate up to a capacity, and what is taken
from it in a window of time. -/

namespace Meter

variable {F : Type*} [Field F] [LinearOrder F] [IsStrictOrderedRing F]

def taken (g : List (F × F)) (p : F → Prop) [DecidablePred p] : F :=
  ((g.filter fun x => p x.1).map Prod.snd).sum

def refilled (cap rate level last now : F) : F := min cap (level + rate * (now - last))

section Taken

variable (g : List (F × F)) (p q : F → Prop) [DecidablePred p] [DecidablePred q]

omit [LinearOrder F] [IsStrictOrderedRing F] in
theorem taken_cons (t n : F) :
    taken ((t, n) :: g) p = (if p t then n else 0) + taken g p := by
  by_cases h : p t <;> simp [taken, h]

variable {g p q}

omit [LinearOrder F] [IsStrictOrderedRing F] in
theorem taken_congr (h : ∀ x ∈ g, (p x.1 ↔ q x.1)) : taken g p = taken g q := by
  have hf : (g.filter fun x => p x.1) = g.filter fun x => q x.1 := by
    apply List.filter_congr
    intro x hx
    simp [h x hx]
  rw [taken, taken, hf]

omit [LinearOrder F] [IsStrictOrderedRing F] in
theorem taken_eq_zero (h : ∀ x ∈ g, ¬ p x.1) : taken g p = 0 := by
  have hf : (g.filter fun x => p x.1) = [] := by simpa using fun a b hx => h (a, b) hx
  rw [taken, hf]
  rfl

end Taken

/-- The meter stands at `level` at the time `last`, after everything in `g` was taken. -/
structure Within (cap rate : F) (g : List (F × F)) (level last : F) : Prop where
  past : ∀ x ∈ g, x.1 ≤ last
  nonneg : 0 ≤ level
  since : ∀ a ≤ last, taken g (a ≤ ·) + min cap level ≤ cap + rate * (last - a)
  window : ∀ a d, 0 ≤ d → taken g (fun t => a ≤ t ∧ t ≤ a + d) ≤ cap + rate * d

variable {cap rate level last now n : F} {g : List (F × F)}

omit [IsStrictOrderedRing F] in
theorem refilled_le : refilled cap rate level last now ≤ cap := min_le_left _ _

theorem refilled_eq_cap (hl : 0 ≤ level) (h : cap ≤ rate * (now - last)) :
    refilled cap rate level last now = cap := by
  have hfull : cap ≤ level + rate * (now - last) := by linarith
  exact min_eq_left hfull

omit [IsStrictOrderedRing F] in
theorem refilled_self (h : level ≤ cap) : refilled cap rate level now now = level := by
  rw [refilled, sub_self, mul_zero, add_zero]
  exact min_eq_right h

/-- A meter that is looked at on the way fills up to the same level. -/
theorem refilled_refilled {mid : F} (hr : 0 ≤ rate) (hn : mid ≤ now) :
    refilled cap rate (refilled cap rate level last mid) mid now =
      refilled cap rate level last now := by
  have hp : 0 ≤ rate * (now - mid) := mul_nonneg hr (sub_nonneg.mpr hn)
  have hsplit : level + rate * (mid - last) + rate * (now - mid) = level + rate * (now - last) := by
    ring
  have hcap : cap ≤ cap + rate * (now - mid) := le_add_of_nonneg_right hp
  simp only [refilled]
  rw [min_add, hsplit, ← min_assoc, min_eq_left hcap]

theorem Within.full (hc : 0 ≤ cap) (hr : 0 ≤ rate) : Within cap rate [] cap last where
  past := by simp
  nonneg := hc
  since a ha := by
    have hp : 0 ≤ rate * (last - a) := mul_nonneg hr (sub_nonneg.mpr ha)
    simpa [taken] using hp
  window a d hd := by
    have hp : 0 ≤ rate * d := mul_nonneg hr hd
    have hz : taken ([] : List (F × F)) (fun t => a ≤ t ∧ t ≤ a + d) = 0 := rfl
    rw [hz]
    linarith

theorem Within.wait (h : Within cap rate g level last) (hc : 0 ≤ cap) (hr : 0 ≤ rate)
    (hn : last ≤ now) : Within cap rate g (refilled cap rate level last now) now where
  past x hx := (h.past x hx).trans hn
  nonneg := by
    have hp : 0 ≤ rate * (now - last) := mul_nonneg hr (sub_nonneg.mpr hn)
    have hl := h.nonneg
    exact le_min hc (by linarith)
  since a ha := by
    rw [min_eq_right refilled_le]
    by_cases hal : a ≤ last
    · have hs := h.since a hal
      have hlevel : refilled cap rate level last now ≤ min cap level + rate * (now - last) := by
        have hp : 0 ≤ rate * (now - last) := mul_nonneg hr (sub_nonneg.mpr hn)
        rw [refilled, min_add]
        exact min_le_min (by linarith) le_rfl
      have hsplit : rate * (now - a) = rate * (now - last) + rate * (last - a) := by ring
      linarith
    · have hz : taken g (a ≤ ·) = 0 := taken_eq_zero fun x hx hax => hal (hax.trans (h.past x hx))
      have hp : 0 ≤ rate * (now - a) := mul_nonneg hr (sub_nonneg.mpr ha)
      have hcap : refilled cap rate level last now ≤ cap := refilled_le
      linarith
  window := h.window

/-- Less than what is left may be there. -/
theorem Within.lower (h : Within cap rate g level last) (hn : 0 ≤ n) (hle : n ≤ level) :
    Within cap rate g n last where
  past := h.past
  nonneg := hn
  since a ha := by
    have hs := h.since a ha
    have hmin : min cap n ≤ min cap level := min_le_min_left cap hle
    exact (add_le_add le_rfl hmin).trans hs
  window := h.window

theorem Within.take (h : Within cap rate g level last) (hc : 0 ≤ cap) (hr : 0 ≤ rate)
    (hlevel : level ≤ cap) (hn : n ≤ level) : Within cap rate ((last, n) :: g) (level - n) last := by
  have hrest : 0 ≤ level - n := sub_nonneg.mpr hn
  have hsince (a : F) (ha : a ≤ last) :
      taken ((last, n) :: g) (a ≤ ·) + min cap (level - n) ≤ cap + rate * (last - a) := by
    have hs := h.since a ha
    have hm : min cap (level - n) ≤ level - n := min_le_right _ _
    rw [min_eq_right hlevel] at hs
    rw [taken_cons, if_pos ha]
    linarith
  refine ⟨?_, hrest, hsince, ?_⟩
  · intro x hx
    rcases List.mem_cons.mp hx with rfl | hx
    · exact le_rfl
    · exact h.past x hx
  · intro a d hd
    by_cases hin : a ≤ last ∧ last ≤ a + d
    · -- everything taken so far lies before the end of the window
      have hall : taken ((last, n) :: g) (fun t => a ≤ t ∧ t ≤ a + d) =
          taken ((last, n) :: g) (a ≤ ·) := by
        refine taken_congr fun x hx => and_iff_left ?_
        rcases List.mem_cons.mp hx with rfl | hx
        · exact hin.2
        · exact (h.past x hx).trans hin.2
      have hs := hsince a hin.1
      have hm : 0 ≤ min cap (level - n) := le_min hc hrest
      have hlen : rate * (last - a) ≤ rate * d := mul_le_mul_of_nonneg_left (by linarith) hr
      rw [hall]
      linarith
    · rw [taken_cons, if_neg hin, zero_add]
      exact h.window a d hd

end Meter
