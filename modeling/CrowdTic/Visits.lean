import Mathlib.Data.List.Nodup

/-! Histories of members who enter and leave, the newest event in front. -/

inductive Visit (μ : Type*)
  | enters (u : μ)
  | leaves (u : μ)

namespace Visit

variable {μ : Type*}

/-- The newest event about `u` is an entry. -/
def Inside (u : μ) : List (Visit μ) → Prop
  | [] => False
  | .enters v :: h => v = u ∨ Inside u h
  | .leaves v :: h => v ≠ u ∧ Inside u h

/-- Whoever leaves is inside. -/
def Paired : List (Visit μ) → Prop
  | [] => True
  | .enters _ :: h => Paired h
  | .leaves u :: h => Inside u h ∧ Paired h

def leaver : Visit μ → Option μ
  | .enters _ => none
  | .leaves u => some u

instance decidableInside [DecidableEq μ] (u : μ) : (h : List (Visit μ)) → Decidable (Inside u h)
  | [] => inferInstanceAs (Decidable False)
  | .enters v :: h =>
    have := decidableInside u h
    inferInstanceAs (Decidable (v = u ∨ Inside u h))
  | .leaves v :: h =>
    have := decidableInside u h
    inferInstanceAs (Decidable (v ≠ u ∧ Inside u h))

variable {u : μ} {us : List μ} {h : List (Visit μ)}

theorem leavers_leaves (us : List μ) : (us.map .leaves).filterMap leaver = us := by
  simp [List.filterMap_map, Function.comp_def, leaver]

theorem inside_leaves : Inside u (us.map .leaves ++ h) ↔ u ∉ us ∧ Inside u h := by
  induction us with
  | nil => simp
  | cons v us ih =>
    rw [List.map_cons, List.cons_append, Inside, ih, List.mem_cons, not_or, ← and_assoc]
    exact and_congr_left' (and_congr_left' ⟨Ne.symm, Ne.symm⟩)

theorem paired_leaves (hn : us.Nodup) (hin : ∀ u ∈ us, Inside u h) (hp : Paired h) :
    Paired (us.map .leaves ++ h) := by
  induction us with
  | nil => exact hp
  | cons v us ih =>
    obtain ⟨hv, hn⟩ := List.nodup_cons.mp hn
    have hinside := inside_leaves.mpr ⟨hv, hin v List.mem_cons_self⟩
    exact ⟨hinside, ih hn fun u hu => hin u (.tail v hu)⟩

end Visit
