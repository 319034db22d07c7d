import Mathlib.Data.Fintype.BigOperators
import Mathlib.Data.List.Nodup
import Mathlib.Data.List.Permutation
import Mathlib.SetTheory.Cardinal.Finite

/-! The shuffle that goes from the last index of a list down to 1 and exchanges
the element there with one that is at most as far. Without repetitions each
order comes from exactly one sequence of picks. -/

namespace FisherYates

variable {α : Type*}

def swapAt (a : List α) (i j : Nat) : List α :=
  match a[i]?, a[j]? with
  | some x, some y => (a.set i y).set j x
  | _, _ => a

/-- The loop from index `i` down to 1. -/
def shuffleBy (pick : Nat → Nat) : Nat → List α → List α
  | 0, a => a
  | i + 1, a => shuffleBy pick i (swapAt a (i + 1) (pick (i + 1)))

section Swap

variable (a : List α) (i j : Nat)

theorem swapAt_perm : (swapAt a i j).Perm a := by
  unfold swapAt
  by_cases hi : i < a.length
  · by_cases hj : j < a.length
    · rw [List.getElem?_eq_getElem hi, List.getElem?_eq_getElem hj]
      exact List.set_set_perm hi hj
    · simp [List.getElem?_eq_none (Nat.le_of_not_lt hj)]
  · simp [List.getElem?_eq_none (Nat.le_of_not_lt hi)]

variable {a i j}

theorem swapAt_fst (hi : i < a.length) (hj : j < a.length) : (swapAt a i j)[i]? = a[j]? := by
  rw [swapAt, List.getElem?_eq_getElem hi, List.getElem?_eq_getElem hj]
  by_cases hij : j = i
  · subst hij
    simp [hj]
  · simp [hij, hi]

theorem swapAt_other {k : Nat} (hi : k ≠ i) (hj : k ≠ j) : (swapAt a i j)[k]? = a[k]? := by
  unfold swapAt
  cases a[i]? with
  | none => rfl
  | some x =>
    cases a[j]? with
    | none => rfl
    | some y => rw [List.getElem?_set_ne hj.symm, List.getElem?_set_ne hi.symm]

end Swap

section Loop

variable {pick pick' : Nat → Nat} {a l : List α} {i : Nat}

theorem shuffleBy_perm (pick : Nat → Nat) (i : Nat) (a : List α) : (shuffleBy pick i a).Perm a := by
  induction i generalizing a with
  | zero => exact .refl a
  | succ i ih => exact (ih _).trans (swapAt_perm a _ _)

theorem shuffleBy_congr (h : ∀ m < i, pick (m + 1) = pick' (m + 1)) :
    shuffleBy pick i a = shuffleBy pick' i a := by
  induction i generalizing a with
  | zero => rfl
  | succ i ih =>
    rw [shuffleBy, shuffleBy, h i (Nat.lt_succ_self i)]
    exact ih fun m hm => h m (hm.trans (Nat.lt_succ_self i))

theorem shuffleBy_behind (hp : ∀ m, pick m ≤ m) {k : Nat} (hk : i < k) :
    (shuffleBy pick i a)[k]? = a[k]? := by
  induction i generalizing a with
  | zero => rfl
  | succ i ih =>
    have hpick := hp (i + 1)
    rw [shuffleBy, ih (by omega), swapAt_other (by omega) (by omega)]

theorem picks_unique (hn : a.Nodup) (hi : i < a.length) (hp : ∀ m, pick m ≤ m)
    (hp' : ∀ m, pick' m ≤ m) (h : shuffleBy pick i a = shuffleBy pick' i a) :
    ∀ m < i, pick (m + 1) = pick' (m + 1) := by
  induction i generalizing a with
  | zero => exact fun m hm => absurd hm (Nat.not_lt_zero m)
  | succ i ih =>
    have hb := hp (i + 1)
    have hb' := hp' (i + 1)
    have hlast : a[pick (i + 1)]? = a[pick' (i + 1)]? := by
      have hat := congrArg (fun l => l[i + 1]?) h
      simp only [shuffleBy, shuffleBy_behind hp (Nat.lt_succ_self i),
        shuffleBy_behind hp' (Nat.lt_succ_self i)] at hat
      rwa [swapAt_fst hi (by omega), swapAt_fst hi (by omega)] at hat
    have hj : pick (i + 1) = pick' (i + 1) := (List.getElem?_inj (by omega) hn).mp hlast
    have hperm := swapAt_perm a (i + 1) (pick (i + 1))
    rw [shuffleBy, shuffleBy, ← hj] at h
    have hrest := ih (hperm.nodup_iff.mpr hn) (by rw [hperm.length_eq]; omega) h
    intro m hm
    rcases Nat.lt_succ_iff_lt_or_eq.mp hm with hm | rfl
    · exact hrest m hm
    · exact hj

theorem eq_of_tails (hl : l.Perm a) (h : ∀ k, 0 < k → l[k]? = a[k]?) : l = a := by
  cases l with
  | nil => exact (List.nil_perm.mp hl).symm
  | cons x l =>
    cases a with
    | nil => exact hl.eq_nil
    | cons y a =>
      have htail : l = a := List.ext_getElem? fun k => by
        simpa using h (k + 1) (Nat.succ_pos k)
      subst htail
      have hx : [x].Perm [y] := (List.perm_append_right_iff l).mp hl
      rw [List.singleton_perm_singleton.mp hx]

theorem picks_exist (hn : a.Nodup) (hi : i < a.length) (hl : l.Perm a)
    (h : ∀ k, i < k → l[k]? = a[k]?) :
    ∃ pick : Nat → Nat, (∀ m, pick m ≤ m) ∧ shuffleBy pick i a = l := by
  induction i generalizing a with
  | zero => exact ⟨fun _ => 0, Nat.zero_le, (eq_of_tails hl h).symm⟩
  | succ i ih =>
    have hlen := hl.length_eq
    have hil : i + 1 < l.length := by omega
    obtain ⟨j, hj, hx⟩ := List.getElem_of_mem (hl.mem_iff.mp (List.getElem_mem hil))
    have hji : j ≤ i + 1 := by
      by_contra hlt
      have hsame : l[j]? = l[i + 1]? := by
        rw [h j (by omega), List.getElem?_eq_getElem hj, List.getElem?_eq_getElem hil, hx]
      have he := (List.getElem?_inj (by omega) (hl.nodup_iff.mpr hn)).mp hsame
      omega
    have hperm := swapAt_perm a (i + 1) j
    obtain ⟨pick, hp, hpick⟩ := ih (hperm.nodup_iff.mpr hn) (by rw [hperm.length_eq]; omega)
      (hl.trans hperm.symm) fun k hk => by
        rcases Nat.lt_or_eq_of_le (Nat.succ_le_of_lt hk) with hk | rfl
        · rw [h k hk, swapAt_other (by omega) (by omega)]
        · rw [swapAt_fst hi hj, List.getElem?_eq_getElem hj, List.getElem?_eq_getElem hil, hx]
    refine ⟨Function.update pick (i + 1) j, fun m => ?_, ?_⟩
    · by_cases hm : m = i + 1
      · subst hm
        simpa using hji
      · simpa [hm] using hp m
    · rw [shuffleBy, Function.update_self, ← hpick]
      refine shuffleBy_congr fun m hm => Function.update_of_ne (by omega) j pick

end Loop

/-- One pick for each index from `n - 1` down to 1. -/
abbrev Picks (n : Nat) := (i : Fin (n - 1)) → Fin (i + 2)

section Picks

variable {n : Nat}

def Picks.index (p : Picks n) : Nat → Nat
  | 0 => 0
  | i + 1 => if h : i < n - 1 then p ⟨i, h⟩ else 0

theorem Picks.index_le (p : Picks n) (m : Nat) : p.index m ≤ m := by
  cases m with
  | zero => exact Nat.le_refl 0
  | succ i =>
    show (if h : i < n - 1 then (p ⟨i, h⟩ : Nat) else 0) ≤ i + 1
    by_cases h : i < n - 1
    · rw [dif_pos h]
      exact Nat.le_of_lt_succ (p ⟨i, h⟩).isLt
    · rw [dif_neg h]
      exact Nat.zero_le _

theorem Picks.index_succ (p : Picks n) {i : Nat} (h : i < n - 1) : p.index (i + 1) = p ⟨i, h⟩ :=
  dif_pos h

theorem prod_choices (n : Nat) : ∏ i : Fin (n - 1), ((i : Nat) + 2) = n.factorial := by
  rw [Fin.prod_univ_eq_prod_range (fun i => i + 2)]
  cases n with
  | zero => rfl
  | succ n =>
    show ∏ i ∈ Finset.range n, (i + 2) = (n + 1).factorial
    induction n with
    | zero => rfl
    | succ n ih => rw [Finset.prod_range_succ, ih, Nat.factorial_succ (n + 1), Nat.mul_comm]

theorem card_picks (n : Nat) : Fintype.card (Picks n) = n.factorial := by
  rw [Fintype.card_pi, ← prod_choices]
  simp

end Picks

section Orders

variable {a l : List α}

def order (a : List α) (p : Picks a.length) : List α := shuffleBy p.index (a.length - 1) a

theorem order_perm (a : List α) (p : Picks a.length) : (order a p).Perm a := shuffleBy_perm _ _ a

theorem order_injective (hn : a.Nodup) : Function.Injective (order a) := by
  intro p p' h
  funext i
  have hi : a.length - 1 < a.length := by
    have hlt := i.isLt
    omega
  have hpick := picks_unique hn hi p.index_le p'.index_le h i i.isLt
  rw [p.index_succ i.isLt, p'.index_succ i.isLt] at hpick
  exact Fin.ext hpick

theorem order_surjective (hn : a.Nodup) (hl : l.Perm a) : ∃ p, order a p = l := by
  by_cases ha : a = []
  · subst ha
    exact ⟨fun i => absurd i.isLt (Nat.not_lt_zero _), hl.eq_nil.symm⟩
  · have hpos := List.length_pos_iff.mpr ha
    have hlen := hl.length_eq
    obtain ⟨pick, hp, hpick⟩ := picks_exist (i := a.length - 1) hn (by omega) hl fun k hk => by
      rw [List.getElem?_eq_none (by omega), List.getElem?_eq_none (by omega)]
    refine ⟨fun i => ⟨pick (i + 1), Nat.lt_succ_of_le (hp (i + 1))⟩, ?_⟩
    rw [order, ← hpick]
    exact shuffleBy_congr fun m hm => Picks.index_succ _ hm

theorem order_bijective (hn : a.Nodup) :
    Function.Bijective fun p => (⟨order a p, order_perm a p⟩ : {l : List α // l.Perm a}) := by
  constructor
  · intro p p' h
    exact order_injective hn (congrArg Subtype.val h)
  · intro l
    obtain ⟨p, hp⟩ := order_surjective hn l.property
    exact ⟨p, Subtype.ext hp⟩

theorem card_orders (hn : a.Nodup) : Nat.card {l : List α // l.Perm a} = a.length.factorial := by
  rw [← Nat.card_congr (Equiv.ofBijective _ (order_bijective hn)), Nat.card_eq_fintype_card,
    card_picks]

end Orders

end FisherYates
