import CrowdTic.RetryAfter
import CrowdTic.UniformShuffle

/-! The lottery of a sale. The shuffle of the pool is a fair permutation, and
the active queue takes over its order. -/

namespace CrowdTic

open Ranked FisherYates MeasureTheory

/-- The draws that pick `j` out of `n` are an interval of length `1 / n`. -/
theorem Draw.pick_eq_iff (d : Draw) {n j : Nat} (hn : 0 < n) :
    d.pick n = j ↔ (j : ℚ) / n ≤ d.val ∧ d.val < (j + 1 : ℚ) / n := by
  have hpos : (0 : ℚ) < n := by exact_mod_cast hn
  have hfloor : 0 ≤ ⌊d.val * n⌋ := Int.floor_nonneg.mpr (mul_nonneg d.nonneg hpos.le)
  rw [div_le_iff₀ hpos, lt_div_iff₀ hpos, Draw.pick]
  have hcast : ⌊d.val * n⌋.toNat = j ↔ ⌊d.val * n⌋ = j := by omega
  rw [hcast, Int.floor_eq_iff]
  norm_cast

theorem Draw.pick_lt (d : Draw) {n : Nat} (hn : 0 < n) : d.pick n < n := by
  have hpos : (0 : ℚ) < n := by exact_mod_cast hn
  have hlow := ((d.pick_eq_iff hn).mp rfl).1
  rw [div_le_iff₀ hpos] at hlow
  have hlt : (d.pick n : ℚ) < n := hlow.trans_lt (mul_lt_of_lt_one_left hpos d.lt_one)
  exact_mod_cast hlt

theorem Draw.exists_pick {n j : Nat} (hj : j < n) : ∃ d : Draw, d.pick n = j := by
  have hn : 0 < n := Nat.zero_lt_of_lt hj
  have hpos : (0 : ℚ) < n := by exact_mod_cast hn
  have hlt : (j : ℚ) / n < 1 := by
    rw [div_lt_one hpos]
    exact_mod_cast hj
  refine ⟨⟨j / n, by positivity, hlt⟩, ?_⟩
  refine (Draw.pick_eq_iff _ hn).mpr ⟨le_rfl, ?_⟩
  exact div_lt_div_of_pos_right (lt_add_one _) hpos

def drawn (draws : Nat → Draw) (n : Nat) : Picks n :=
  fun i => ⟨(draws (i + 1)).pick (i + 2), (draws (i + 1)).pick_lt (Nat.succ_pos _)⟩

theorem drawn_surjective (n : Nat) : Function.Surjective fun draws => drawn draws n := by
  intro p
  have hpick : ∀ i : Nat, ∃ d : Draw, ∀ h : i - 1 < n - 1, d.pick (i - 1 + 2) = p ⟨i - 1, h⟩ := by
    intro i
    by_cases h : i - 1 < n - 1
    · obtain ⟨d, hd⟩ := Draw.exists_pick (p ⟨i - 1, h⟩).isLt
      exact ⟨d, fun _ => hd⟩
    · exact ⟨⟨0, le_rfl, zero_lt_one⟩, fun h' => absurd h' h⟩
  choose draws hdraws using hpick
  refine ⟨draws, funext fun i => Fin.ext ?_⟩
  exact hdraws (i + 1) i.isLt

section Shuffle

variable {α : Type}

theorem shuffleInPlace_eq_order (draws : Nat → Draw) (a : List α) :
    shuffleInPlace draws a = order a (drawn draws a.length) := by
  rw [shuffleInPlace, shuffleFrom_eq, order]
  exact shuffleBy_congr fun m hm => ((drawn draws a.length).index_succ hm).symm

theorem shuffleInPlace_eq_real (draws : Nat → Draw) (a : List α) :
    shuffleInPlace draws a = shuffleBy
      (drawIndex fun i : Fin (a.length - 1) => ((draws (i + 1)).val : ℝ)) (a.length - 1) a := by
  rw [shuffleInPlace, shuffleFrom_eq]
  refine shuffleBy_congr fun m hm => ?_
  have hreal : ((draws (m + 1)).val : ℝ) * ((m : ℝ) + 2) =
      (((draws (m + 1)).val * (m + 2 : Nat) : ℚ) : ℝ) := by push_cast; rfl
  rw [drawIndex, dif_pos hm, hreal, ← Int.floor_toNat, Rat.floor_cast]
  rfl

/-- Whatever the draws, the shuffle leaves a permutation. Each order of distinct elements comes from
one sequence of picks out of `n!`, and from uniform draws with the probability `1 / n!`. -/
theorem lottery_fair (a : List α) :
    (∀ draws, (shuffleInPlace draws a).Perm a ∧
      shuffleInPlace draws a = order a (drawn draws a.length)) ∧
    (Function.Surjective fun draws => drawn draws a.length) ∧
    Fintype.card (Picks a.length) = a.length.factorial ∧
    (a.Nodup →
      (Function.Bijective fun p => (⟨order a p, order_perm a p⟩ : {l : List α // l.Perm a})) ∧
      Nat.card {l : List α // l.Perm a} = a.length.factorial ∧
      ∀ l, l.Perm a → volume {x : Fin (a.length - 1) → ℝ | (∀ i, x i ∈ Set.Ico 0 1) ∧
        shuffleBy (drawIndex x) (a.length - 1) a = l} = (a.length.factorial : ENNReal)⁻¹) :=
  ⟨fun draws => ⟨shuffleInPlace_perm draws a, shuffleInPlace_eq_order draws a⟩,
    drawn_surjective a.length, card_picks a.length,
    fun hn => ⟨order_bijective hn, card_orders hn, fun _ hl => volume_order hn hl⟩⟩

theorem demo_lottery : Nat.card {l : List String // l.Perm ["alice-01", "bobby-01", "carol-01"]} = 6 ∧
    volume {x : Fin 2 → ℝ | (∀ i, x i ∈ Set.Ico 0 1) ∧ shuffleBy (drawIndex (n := 3) x) 2
      ["alice-01", "bobby-01", "carol-01"] = ["carol-01", "alice-01", "bobby-01"]} =
        ((6 : Nat) : ENNReal)⁻¹ :=
  have hfair := (lottery_fair ["alice-01", "bobby-01", "carol-01"]).2.2.2 (by decide)
  ⟨hfair.2.1, hfair.2.2 ["carol-01", "alice-01", "bobby-01"] (by decide)⟩

end Shuffle

/-- Every order of the pool can become the active queue, by one sequence of picks. -/
theorem sale_order_unique {cfg : RoomConfig} {r : Room} (now : Nat) (h : r.Ordered cfg.backend)
    (hp : r.pool ≠ []) (ha : r.active = []) {l : List String} (hl : l.Perm (members r.pool)) :
    ∃! p : Picks (members r.pool).length, ∀ draws, drawn draws (members r.pool).length = p →
      members (r.maybeShufflePool cfg now draws).active = l := by
  obtain ⟨p, hpl⟩ := order_surjective h.poolOnce hl
  refine ⟨p, fun draws hd => ?_, fun p' hp' => ?_⟩
  · rw [maybeShufflePool_members now draws h hp ha, shuffleInPlace_eq_order, hd, hpl]
  · obtain ⟨draws, hd⟩ := drawn_surjective _ p'
    have hl' := hp' draws hd
    rw [maybeShufflePool_members now draws h hp ha, shuffleInPlace_eq_order] at hl'
    apply order_injective h.poolOnce
    rw [hpl, ← hl']
    exact congrArg (order _) hd.symm

end CrowdTic
