import CrowdTic.FisherYates
import Mathlib.MeasureTheory.Measure.Lebesgue.Basic

/-! The shuffle under independent uniform draws from `[0, 1)`, of which each
pick is the floor of a multiple. -/

namespace FisherYates

open MeasureTheory

variable {α : Type*} {a l : List α} {n : Nat}

noncomputable def drawIndex (x : Fin (n - 1) → ℝ) : Nat → Nat
  | 0 => 0
  | i + 1 => if h : i < n - 1 then ⌊x ⟨i, h⟩ * ((i : ℝ) + 2)⌋₊ else 0

theorem floor_eq_iff_mem {x : ℝ} {j k : Nat} (hj : j < k) :
    x ∈ Set.Ico 0 1 ∧ ⌊x * k⌋₊ = j ↔ x ∈ Set.Ico ((j : ℝ) / k) ((j + 1 : ℝ) / k) := by
  have hk : (0 : ℝ) < k := by exact_mod_cast Nat.zero_lt_of_lt hj
  rw [Set.mem_Ico, Set.mem_Ico, div_le_iff₀ hk, lt_div_iff₀ hk]
  constructor
  · rintro ⟨⟨h0, _⟩, hf⟩
    exact (Nat.floor_eq_iff (mul_nonneg h0 hk.le)).mp hf
  · rintro ⟨hlo, hhi⟩
    have h0 : 0 ≤ x := nonneg_of_mul_nonneg_left ((Nat.cast_nonneg j).trans hlo) hk
    have hlast : (j : ℝ) + 1 ≤ k := by exact_mod_cast hj
    have h1 : x * k < 1 * k := by rw [one_mul]; exact hhi.trans_le hlast
    exact ⟨⟨h0, lt_of_mul_lt_mul_right h1 hk.le⟩,
      (Nat.floor_eq_iff (mul_nonneg h0 hk.le)).mpr ⟨hlo, hhi⟩⟩

/-- The draws that lead to one order are a box. -/
theorem draws_of_order (hn : a.Nodup) (p : Picks a.length) :
    {x : Fin (a.length - 1) → ℝ | (∀ i, x i ∈ Set.Ico 0 1) ∧
      shuffleBy (drawIndex x) (a.length - 1) a = order a p} =
    Set.pi Set.univ fun i : Fin (a.length - 1) =>
      Set.Ico ((p i : ℝ) / ((i : Nat) + 2 : Nat)) ((p i + 1 : ℝ) / ((i : Nat) + 2 : Nat)) := by
  ext x
  rw [Set.mem_ofPred_eq, Set.mem_univ_pi]
  have hbox : ∀ i : Fin (a.length - 1),
      x i ∈ Set.Ico 0 1 ∧ ⌊x i * ((i : Nat) + 2 : Nat)⌋₊ = p i ↔
        x i ∈ Set.Ico ((p i : ℝ) / ((i : Nat) + 2 : Nat)) ((p i + 1 : ℝ) / ((i : Nat) + 2 : Nat)) :=
    fun i => floor_eq_iff_mem (p i).isLt
  have hindex : ∀ i : Fin (a.length - 1),
      drawIndex x (i + 1) = ⌊x i * ((i : Nat) + 2 : Nat)⌋₊ := by
    intro i
    rw [drawIndex, dif_pos i.isLt]
    push_cast
    rfl
  rw [← forall_congr' hbox, forall_and]
  refine and_congr_right fun hx => ?_
  constructor
  · intro h i
    have hlt : ∀ i : Fin (a.length - 1), ⌊x i * ((i : Nat) + 2 : Nat)⌋₊ < i + 2 := by
      intro i
      have hpos : (0 : ℝ) < ((i : Nat) + 2 : Nat) := by positivity
      refine (Nat.floor_lt (mul_nonneg (hx i).1 hpos.le)).mpr ?_
      exact mul_lt_of_lt_one_left hpos (hx i).2
    have hdrawn : order a (fun i => ⟨_, hlt i⟩) = order a p := by
      rw [← h, order]
      refine shuffleBy_congr fun m hm => ?_
      rw [Picks.index_succ _ hm, hindex ⟨m, hm⟩]
    exact congrArg Fin.val (congrFun (order_injective hn hdrawn) i)
  · intro h
    refine shuffleBy_congr fun m hm => ?_
    rw [hindex ⟨m, hm⟩, h ⟨m, hm⟩, p.index_succ hm]

/-- Uniform draws give every order the same probability. -/
theorem volume_order (hn : a.Nodup) (hl : l.Perm a) :
    volume {x : Fin (a.length - 1) → ℝ | (∀ i, x i ∈ Set.Ico 0 1) ∧
      shuffleBy (drawIndex x) (a.length - 1) a = l} = (a.length.factorial : ENNReal)⁻¹ := by
  obtain ⟨p, rfl⟩ := order_surjective hn hl
  have hside : ∀ i : Fin (a.length - 1),
      (p i + 1 : ℝ) / ((i : Nat) + 2 : Nat) - (p i : ℝ) / ((i : Nat) + 2 : Nat) =
        (((i : Nat) + 2 : Nat) : ℝ)⁻¹ := by
    intro i
    rw [← sub_div, add_sub_cancel_left, one_div]
  have hpos : (0 : ℝ) < a.length.factorial := by exact_mod_cast a.length.factorial_pos
  rw [draws_of_order hn p, Real.volume_pi_Ico]
  simp only [hside]
  rw [← ENNReal.ofReal_prod_of_nonneg fun i _ => by positivity, Finset.prod_inv_distrib,
    ← Nat.cast_prod, prod_choices, ENNReal.ofReal_inv_of_pos hpos, ENNReal.ofReal_natCast]

end FisherYates
