import Mathlib.Data.Finset.Card

/-! Stores seen through a keyed view, changed at the keys of a list one after
another, and the number of keys of a finite set whose value has a property. -/

namespace Keyed

variable {σ κ β γ : Type*}

theorem foldl_unchanged {g : σ → κ → σ} (obs : σ → γ) (h : ∀ s k, obs (g s k) = obs s)
    (ks : List κ) (s : σ) : obs (ks.foldl g s) = obs s := by
  induction ks generalizing s with
  | nil => rfl
  | cons k ks ih => exact (ih (g s k)).trans (h s k)

theorem foldl_unlisted {g : σ → κ → σ} (obs : σ → γ) {j : κ}
    (h : ∀ s k, k ≠ j → obs (g s k) = obs s) (ks : List κ) (s : σ) (hj : j ∉ ks) :
    obs (ks.foldl g s) = obs s := by
  induction ks generalizing s with
  | nil => rfl
  | cons k ks ih =>
    have hk := List.ne_and_not_mem_of_not_mem_cons hj
    exact (ih (g s k) hk.2).trans (h s k (Ne.symm hk.1))

section View

variable [DecidableEq κ]

/-- When each step changes the view at its own key only, by an idempotent
change, the whole loop changes it at the listed keys, repeated or not. -/
theorem foldl_view (view : σ → κ → β) {g : σ → κ → σ} {φ : β → β} (hidem : ∀ b, φ (φ b) = φ b)
    (hg : ∀ s k j, view (g s k) j = if j = k then φ (view s j) else view s j)
    (ks : List κ) (s : σ) (j : κ) :
    view (ks.foldl g s) j = if j ∈ ks then φ (view s j) else view s j := by
  induction ks generalizing s with
  | nil => simp
  | cons k ks ih =>
    simp only [List.foldl_cons, ih, hg, List.mem_cons]
    by_cases hjk : j = k <;> by_cases hjs : j ∈ ks <;> simp [hjk, hjs, hidem]

end View

def count (S : Finset κ) (v : κ → β) (p : β → Prop) [DecidablePred p] : Nat :=
  (S.filter fun k => p (v k)).card

theorem count_congr {S : Finset κ} {v v' : κ → β} {p : β → Prop} [DecidablePred p]
    (h : ∀ k ∈ S, p (v k) ↔ p (v' k)) : count S v p = count S v' p :=
  congrArg Finset.card (Finset.filter_congr h)

section Counting

variable [DecidableEq κ]

theorem count_gain {S T : Finset κ} {v v' : κ → β} {p : β → Prop} [DecidablePred p] (hT : T ⊆ S)
    (hold : ∀ k ∈ T, ¬ p (v k)) (hnew : ∀ k ∈ T, p (v' k))
    (hrest : ∀ k ∈ S, k ∉ T → (p (v k) ↔ p (v' k))) :
    count S v' p = count S v p + T.card := by
  have hd : Disjoint (S.filter fun k => p (v k)) T :=
    Finset.disjoint_left.mpr fun k hk hkT => hold k hkT (Finset.mem_filter.mp hk).2
  have hu : (S.filter fun k => p (v' k)) = (S.filter fun k => p (v k)) ∪ T := by
    ext k
    by_cases hk : k ∈ T
    · simp [hk, hT hk, hnew k hk]
    · by_cases hS : k ∈ S
      · simp [hk, hS, hrest k hS hk]
      · simp [hk, hS]
  rw [count, hu, Finset.card_union_of_disjoint hd]
  rfl

theorem count_lose {S T : Finset κ} {v v' : κ → β} {p : β → Prop} [DecidablePred p] (hT : T ⊆ S)
    (hold : ∀ k ∈ T, p (v k)) (hnew : ∀ k ∈ T, ¬ p (v' k))
    (hrest : ∀ k ∈ S, k ∉ T → (p (v k) ↔ p (v' k))) :
    count S v p = count S v' p + T.card :=
  count_gain hT hnew hold fun k hk hkT => (hrest k hk hkT).symm

theorem count_le_add_length {S : Finset κ} {v v' : κ → β} {p : β → Prop} [DecidablePred p]
    {ks : List κ} (h : ∀ k ∈ S, p (v' k) → p (v k) ∨ k ∈ ks) :
    count S v' p ≤ count S v p + ks.length := by
  have hsub : (S.filter fun k => p (v' k)) ⊆ (S.filter fun k => p (v k)) ∪ ks.toFinset := by
    intro k hk
    obtain ⟨hS, hp⟩ := Finset.mem_filter.mp hk
    rcases h k hS hp with hv | hm
    · exact Finset.mem_union_left _ (Finset.mem_filter.mpr ⟨hS, hv⟩)
    · exact Finset.mem_union_right _ (List.mem_toFinset.mpr hm)
  calc count S v' p ≤ ((S.filter fun k => p (v k)) ∪ ks.toFinset).card := Finset.card_le_card hsub
    _ ≤ count S v p + ks.toFinset.card := Finset.card_union_le _ _
    _ ≤ count S v p + ks.length := Nat.add_le_add_left (List.toFinset_card_le ks) _

theorem count_mono {S : Finset κ} {v v' : κ → β} {p : β → Prop} [DecidablePred p]
    (h : ∀ k ∈ S, p (v' k) → p (v k)) : count S v' p ≤ count S v p := by
  have hh : count S v' p ≤ count S v p + ([] : List κ).length :=
    count_le_add_length fun k hk hp => .inl (h k hk hp)
  simpa using hh

/-- The listed keys that have the property, each counted once. -/
def hits (ks : List κ) (v : κ → β) (p : β → Prop) [DecidablePred p] : Finset κ :=
  ks.toFinset.filter fun k => p (v k)

@[simp] theorem mem_hits {ks : List κ} {v : κ → β} {p : β → Prop} [DecidablePred p] {k : κ} :
    k ∈ hits ks v p ↔ k ∈ ks ∧ p (v k) := by
  simp [hits]

theorem hits_card_le (ks : List κ) (v : κ → β) (p : β → Prop) [DecidablePred p] :
    (hits ks v p).card ≤ ks.length :=
  (Finset.card_filter_le _ _).trans (List.toFinset_card_le ks)

theorem hits_card_eq_length_iff (ks : List κ) (v : κ → β) (p : β → Prop) [DecidablePred p] :
    (hits ks v p).card = ks.length ↔ ks.Nodup ∧ ∀ k ∈ ks, p (v k) := by
  have hle : (hits ks v p).card ≤ ks.toFinset.card := Finset.card_filter_le _ _
  constructor
  · intro h
    have hnd : ks.toFinset.card = ks.length := le_antisymm (List.toFinset_card_le ks) (h ▸ hle)
    have hks : Multiset.Nodup (ks : Multiset κ) := Multiset.toFinset_card_eq_card_iff_nodup.mp hnd
    refine ⟨hks, ?_⟩
    have hall := Finset.card_filter_eq_iff.mp (h.trans hnd.symm)
    simpa using hall
  · rintro ⟨hnd, hall⟩
    rw [hits, Finset.filter_true_of_mem (by simpa using hall), List.toFinset_card_of_nodup hnd]

end Counting

end Keyed
