import Mathlib.Data.List.Sort
import Mathlib.Order.Basic

/-! Queues of members with scores. A sorted set orders its entries by score and
member and moves a member that is added again. A sorted array orders them by
score alone and keeps the order of equal scores. -/

structure Ranked (μ σ : Type*) where
  member : μ
  score : σ
  deriving DecidableEq

namespace Ranked

variable {μ σ : Type*}

def members (q : List (Ranked μ σ)) : List μ := q.map Ranked.member

/-- The new entry goes behind the entries that `stays` accepts. -/
def place (stays : Ranked μ σ → Bool) (q : List (Ranked μ σ)) (e : Ranked μ σ) :
    List (Ranked μ σ) :=
  q.takeWhile stays ++ e :: q.dropWhile stays

section Place

variable {stays : Ranked μ σ → Bool} {q : List (Ranked μ σ)} {e x : Ranked μ σ}

theorem mem_place : x ∈ place stays q e ↔ x = e ∨ x ∈ q := by
  have hq : x ∈ q ↔ x ∈ q.takeWhile stays ∨ x ∈ q.dropWhile stays := by
    rw [← List.mem_append, List.takeWhile_append_dropWhile]
  rw [place, List.mem_append, List.mem_cons, hq]
  tauto

/-- Where the test is closed under going to the front, all that it accepts stays in front. -/
theorem mem_takeWhile (hq : q.Pairwise fun x y => stays y = true → stays x = true) (hx : x ∈ q)
    (hs : stays x = true) : x ∈ q.takeWhile stays := by
  induction q with
  | nil => simp at hx
  | cons y q ih =>
    obtain ⟨hy, hrest⟩ := List.pairwise_cons.mp hq
    rcases List.mem_cons.mp hx with rfl | hx
    · simp [hs]
    · rw [List.takeWhile_cons_of_pos (hy x hx hs)]
      exact List.mem_cons_of_mem y (ih hrest hx)

theorem pairwise_place {r : Ranked μ σ → Ranked μ σ → Prop} (hq : q.Pairwise r)
    (hr : ∀ x y z, r x y → r y z → r x z) (hin : ∀ x ∈ q, stays x = true → r x e)
    (hout : ∀ x ∈ q, stays x = false → r e x) : (place stays q e).Pairwise r := by
  induction q with
  | nil => simp [place]
  | cons y q ih =>
    obtain ⟨hy, hrest⟩ := List.pairwise_cons.mp hq
    by_cases hs : stays y = true
    · have hplace : place stays (y :: q) e = y :: place stays q e := by simp [place, hs]
      rw [hplace]
      refine List.pairwise_cons.mpr ⟨fun x hx => ?_, ih hrest (fun x hx => hin x (.tail y hx))
        fun x hx => hout x (.tail y hx)⟩
      rcases mem_place.mp hx with rfl | hx
      · exact hin y List.mem_cons_self hs
      · exact hy x hx
    · have hplace : place stays (y :: q) e = e :: y :: q := by simp [place, hs]
      have he := hout y List.mem_cons_self (by simpa using hs)
      rw [hplace]
      refine List.pairwise_cons.mpr ⟨fun x hx => ?_, hq⟩
      rcases List.mem_cons.mp hx with rfl | hx
      · exact he
      · exact hr _ _ _ he (hy x hx)

theorem members_place_split (stays : Ranked μ σ → Bool) (q : List (Ranked μ σ)) (e : Ranked μ σ) :
    ∃ r, members q = members (q.takeWhile stays) ++ r ∧
      members (place stays q e) = members (q.takeWhile stays) ++ e.member :: r :=
  ⟨members (q.dropWhile stays), by simp [members, ← List.map_append], by simp [place, members]⟩

theorem place_between {l r : List (Ranked μ σ)}
    (hc : (l ++ r).Pairwise fun x y => stays y = true → stays x = true)
    (hl : e.member ∉ members l) (hr : e.member ∉ members r) :
    members (place stays (l ++ r) e) = members l ++ e.member :: members r ↔
      (∀ x ∈ l, stays x = true) ∧ ∀ x ∈ r, stays x = false := by
  induction l with
  | nil =>
    cases r with
    | nil => simp [place, members]
    | cons y r =>
      obtain ⟨hy, _⟩ := List.pairwise_cons.mp hc
      have hne : y.member ≠ e.member := fun he => hr (he ▸ List.mem_cons_self)
      by_cases hs : stays y = true
      · simp [place, members, hs, hne]
      · have hout : ∀ x ∈ r, stays x = false := by
          intro x hx
          exact Bool.eq_false_iff.mpr fun hsx => hs (hy x hx hsx)
        simp only [List.nil_append, place, List.takeWhile_cons_of_neg hs,
          List.dropWhile_cons_of_neg hs, members, List.map_cons, List.map_nil, true_iff]
        refine ⟨fun x hx => absurd hx List.not_mem_nil, fun x hx => ?_⟩
        rcases List.mem_cons.mp hx with rfl | hx
        · simpa using hs
        · exact hout x hx
  | cons y l ih =>
    obtain ⟨_, hrest⟩ := List.pairwise_cons.mp hc
    have hne : y.member ≠ e.member := fun he => hl (he ▸ List.mem_cons_self)
    have ih' := ih hrest fun hm => hl (List.mem_cons_of_mem _ hm)
    by_cases hs : stays y = true
    · have hplace : place stays (y :: l ++ r) e = y :: place stays (l ++ r) e := by
        simp [place, hs]
      rw [hplace, List.forall_mem_cons, and_iff_right hs, ← ih']
      simp [members]
    · simp [place, members, hs, hne.symm]

/-- Queues that are related entry by entry stay so where the tests decide alike. -/
theorem forall₂_place {ν τ : Type*} {r : Ranked μ σ → Ranked ν τ → Prop} {q' : List (Ranked ν τ)}
    {stays' : Ranked ν τ → Bool} {e' : Ranked ν τ} (hq : List.Forall₂ r q q') (he : r e e')
    (hs : ∀ x ∈ q, ∀ y, r x y → stays x = stays' y) :
    List.Forall₂ r (place stays q e) (place stays' q' e') := by
  induction hq with
  | nil => exact .cons he .nil
  | @cons x y q q' hxy hrest ih =>
    have hsame := hs x List.mem_cons_self y hxy
    have ih := ih fun z hz => hs z (List.mem_cons_of_mem x hz)
    by_cases hx : stays x = true
    · have hy : stays' y = true := hsame ▸ hx
      have hleft : place stays (x :: q) e = x :: place stays q e := by simp [place, hx]
      have hright : place stays' (y :: q') e' = y :: place stays' q' e' := by simp [place, hy]
      rw [hleft, hright]
      exact .cons hxy ih
    · have hy : ¬ stays' y = true := hsame ▸ hx
      have hleft : place stays (x :: q) e = e :: x :: q := by simp [place, hx]
      have hright : place stays' (y :: q') e' = e' :: y :: q' := by simp [place, hy]
      rw [hleft, hright]
      exact .cons he (.cons hxy hrest)

end Place

section Array

variable [LinearOrder σ]

def ScoreLE (x y : Ranked μ σ) : Prop := x.score ≤ y.score

instance : DecidableRel (ScoreLE : Ranked μ σ → Ranked μ σ → Prop) :=
  fun x y => inferInstanceAs (Decidable (x.score ≤ y.score))

/-- A stable sort. -/
def sortByScore (q : List (Ranked μ σ)) : List (Ranked μ σ) := q.insertionSort ScoreLE

theorem sortByScore_of_sorted {q : List (Ranked μ σ)} (h : q.Pairwise ScoreLE) :
    sortByScore q = q := h.insertionSort_eq

theorem sortByScore_append {q : List (Ranked μ σ)} (e : Ranked μ σ) (h : q.Pairwise ScoreLE) :
    sortByScore (q ++ [e]) = place (fun x => x.score ≤ e.score) q e := by
  induction q with
  | nil => rfl
  | cons x q ih =>
    obtain ⟨hx, hq⟩ := List.pairwise_cons.mp h
    have hstep : sortByScore (x :: q ++ [e]) =
        (place (fun y => y.score ≤ e.score) q e).orderedInsert ScoreLE x := by
      rw [← ih hq]
      rfl
    rw [hstep]
    by_cases hs : x.score ≤ e.score
    · have hle : ∀ y ∈ place (fun y => y.score ≤ e.score) q e, ScoreLE x y := by
        intro y hy
        rcases mem_place.mp hy with rfl | hy
        · exact hs
        · exact hx y hy
      have hplace : place (fun y => y.score ≤ e.score) (x :: q) e =
          x :: place (fun y => y.score ≤ e.score) q e := by simp [place, hs]
      rw [hplace]
      cases hp : place (fun y => y.score ≤ e.score) q e with
      | nil => rfl
      | cons y l =>
        rw [List.orderedInsert_cons_of_le]
        exact hle y (by simp [hp])
    · have hnone : ∀ y ∈ q, ¬ y.score ≤ e.score := fun y hy hle => hs (le_trans (hx y hy) hle)
      have hq' : place (fun y => y.score ≤ e.score) q e = e :: q := by
        cases q with
        | nil => rfl
        | cons y q => simp [place, hnone y List.mem_cons_self]
      have hplace : place (fun y => y.score ≤ e.score) (x :: q) e = e :: x :: q := by
        simp [place, hs]
      rw [hq', hplace, List.orderedInsert_of_not_le ScoreLE _ hs]
      cases q with
      | nil => rfl
      | cons y q =>
        rw [List.orderedInsert_cons_of_le]
        exact hx y List.mem_cons_self

end Array

section SortedSet

variable [LinearOrder σ] [LinearOrder μ]

/-- The order of a sorted set: by score, then by member. -/
def LexLE (x y : Ranked μ σ) : Prop :=
  x.score < y.score ∨ (x.score = y.score ∧ x.member ≤ y.member)

instance : DecidableRel (LexLE : Ranked μ σ → Ranked μ σ → Prop) :=
  fun x y => inferInstanceAs
    (Decidable (x.score < y.score ∨ (x.score = y.score ∧ x.member ≤ y.member)))

def zrem (q : List (Ranked μ σ)) (m : μ) : List (Ranked μ σ) := q.filter fun x => x.member ≠ m

def zadd (q : List (Ranked μ σ)) (m : μ) (s : σ) : List (Ranked μ σ) :=
  (zrem q m).orderedInsert LexLE ⟨m, s⟩

variable {x y z : Ranked μ σ}

theorem LexLE.trans (h : LexLE x y) (h' : LexLE y z) : LexLE x z := by
  rcases h with h | ⟨h, hm⟩
  · rcases h' with h' | ⟨h', _⟩
    · exact .inl (h.trans h')
    · exact .inl (h'.symm ▸ h)
  · rcases h' with h' | ⟨h', hm'⟩
    · exact .inl (h ▸ h')
    · exact .inr ⟨h.trans h', hm.trans hm'⟩

theorem LexLE.total (x y : Ranked μ σ) : LexLE x y ∨ LexLE y x := by
  rcases lt_trichotomy x.score y.score with h | h | h
  · exact .inl (.inl h)
  · rcases le_total x.member y.member with hm | hm
    · exact .inl (.inr ⟨h, hm⟩)
    · exact .inr (.inr ⟨h.symm, hm⟩)
  · exact .inr (.inl h)

theorem zadd_eq_place (q : List (Ranked μ σ)) (m : μ) (s : σ) :
    zadd q m s = place (fun x => !decide (LexLE ⟨m, s⟩ x)) (zrem q m) ⟨m, s⟩ := by
  rw [zadd, List.orderedInsert_eq_take_drop, place]
  simp

end SortedSet

end Ranked
