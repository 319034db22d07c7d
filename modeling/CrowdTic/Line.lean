import Mathlib.Data.List.Basic
import Mathlib.Logic.Relation

/-! A waiting line with a pool in front of it. Members enter the pool or the
line, the pool becomes the line when that is empty, and the front of the line
is popped. -/

@[ext] structure Line (μ : Type*) where
  pool : List μ
  active : List μ
  popped : List μ

namespace Line

variable {μ : Type*}

/-- `v` occurs only behind `u`. -/
def Follows (u v : μ) : List μ → Prop
  | [] => True
  | x :: l => x = u ∨ (x ≠ v ∧ Follows u v l)

section Follows

variable {u v w : μ} {l r : List μ}

theorem follows_of_not_mem (h : v ∉ l) : Follows u v l := by
  induction l with
  | nil => trivial
  | cons x l ih =>
    obtain ⟨hx, hl⟩ := List.ne_and_not_mem_of_not_mem_cons h
    exact .inr ⟨hx.symm, ih hl⟩

theorem follows_append : Follows u v (l ++ r) ↔ Follows u v l ∧ (u ∈ l ∨ Follows u v r) := by
  induction l with
  | nil => simp [Follows]
  | cons x l ih =>
    by_cases hx : x = u
    · simp [Follows, hx]
    · simp [Follows, hx, Ne.symm hx, ih, and_assoc]

theorem Follows.insert (h : Follows u v (l ++ r)) (hw : w ≠ v) : Follows u v (l ++ w :: r) := by
  rw [follows_append] at h ⊢
  refine ⟨h.1, ?_⟩
  rcases h.2 with hu | hr
  · exact .inl hu
  · exact .inr (.inr ⟨hw, hr⟩)

theorem Follows.filter {p : μ → Bool} (h : Follows u v l) (hu : p u = true) :
    Follows u v (l.filter p) := by
  induction l with
  | nil => trivial
  | cons x l ih =>
    by_cases hx : p x = true
    · rw [List.filter_cons_of_pos hx]
      rcases h with rfl | ⟨hv, hl⟩
      · exact .inl rfl
      · exact .inr ⟨hv, ih hl⟩
    · rw [List.filter_cons_of_neg hx]
      rcases h with rfl | ⟨_, hl⟩
      · exact absurd hu hx
      · exact ih hl

theorem Follows.mem_of_split (h : Follows u v (l ++ v :: r)) (hne : u ≠ v) : u ∈ l := by
  rcases (follows_append.mp h).2 with hu | hr
  · exact hu
  · rcases hr with rfl | ⟨hv, _⟩
    · exact absurd rfl hne
    · exact absurd rfl hv

end Follows

variable [DecidableEq μ]

/-- A move of the line. Only the member `joiner` can enter. -/
inductive Move (joiner : Option μ) : Line μ → Line μ → Prop
  | wait {L : Line μ} {u : μ} {pool : List μ} (hj : joiner = some u)
      (hp : ∀ x, x ∈ pool ↔ x = u ∨ x ∈ L.pool) : Move joiner L { L with pool := pool }
  | enter {L : Line μ} {u : μ} {l r : List μ} (hj : joiner = some u)
      (ha : (L.active.filter fun x => x ≠ u) = l ++ r) :
      Move joiner L ⟨L.pool.filter fun x => x ≠ u, l ++ u :: r, L.popped⟩
  | stay {L : Line μ} {u : μ} (hj : joiner = some u) (ha : u ∈ L.active) :
      Move joiner L { L with pool := L.pool.filter fun x => x ≠ u }
  | shuffle {L : Line μ} {order : List μ} (ha : L.active = [])
      (ho : ∀ x, x ∈ order ↔ x ∈ L.pool) : Move joiner L ⟨[], order, L.popped⟩
  | pop {L : Line μ} (k : Nat) :
      Move joiner L ⟨L.pool, L.active.drop k, L.popped ++ L.active.take k⟩

def Moves (joiner : Option μ) : Line μ → Line μ → Prop := Relation.ReflTransGen (Move joiner)

theorem Moves.invariant {joiner : Option μ} {L L' : Line μ} {p : Line μ → Prop}
    (h : Moves joiner L L') (hmove : ∀ a b, Move joiner a b → p a → p b) (hp : p L) : p L' := by
  induction h with
  | refl => exact hp
  | tail _ hm ih => exact hmove _ _ hm ih

def Has (L : Line μ) (u : μ) : Prop := u ∈ L.pool ∨ u ∈ L.active ∨ u ∈ L.popped

/-- Whoever is not popped before `u` is behind it. -/
structure Behind (u v : μ) (L : Line μ) : Prop where
  order : Follows u v (L.popped ++ L.active)
  pool : v ∉ L.pool

section Moves

variable {joiner : Option μ} {L L' : Line μ} {u v : μ}

theorem Move.has (h : Move joiner L L') (hu : L.Has u) : L'.Has u := by
  cases h with
  | wait hj hp =>
    rcases hu with hu | hu
    · exact .inl ((hp u).mpr (.inr hu))
    · exact .inr hu
  | @enter w l r hj ha =>
    by_cases hw : u = w
    · subst hw
      exact .inr (.inl (by simp))
    · rcases hu with hu | hu | hu
      · exact .inl (List.mem_filter.mpr ⟨hu, by simpa using hw⟩)
      · have hm : u ∈ l ++ r := ha ▸ List.mem_filter.mpr ⟨hu, by simpa using hw⟩
        rcases List.mem_append.mp hm with hm | hm
        · exact .inr (.inl (List.mem_append_left _ hm))
        · exact .inr (.inl (List.mem_append_right _ (.tail _ hm)))
      · exact .inr (.inr hu)
  | @stay w hj ha =>
    by_cases hw : u = w
    · subst hw
      exact .inr (.inl ha)
    · rcases hu with hu | hu
      · exact .inl (List.mem_filter.mpr ⟨hu, by simpa using hw⟩)
      · exact .inr hu
  | shuffle ha ho =>
    rcases hu with hu | hu | hu
    · exact .inr (.inl ((ho u).mpr hu))
    · simp [ha] at hu
    · exact .inr (.inr hu)
  | pop k =>
    rcases hu with hu | hu | hu
    · exact .inl hu
    · rw [← List.take_append_drop k L.active] at hu
      rcases List.mem_append.mp hu with hu | hu
      · exact .inr (.inr (List.mem_append_right _ hu))
      · exact .inr (.inl hu)
    · exact .inr (.inr (List.mem_append_left _ hu))

theorem Move.not_has (h : Move joiner L L') (hj : joiner ≠ some v) (hv : ¬ L.Has v) :
    ¬ L'.Has v := by
  obtain ⟨hpool, hactive, hpopped⟩ : v ∉ L.pool ∧ v ∉ L.active ∧ v ∉ L.popped := by
    simpa [Has, not_or] using hv
  rintro hv'
  cases h with
  | @wait w _ hw hp =>
    have hne : v ≠ w := fun he => hj (he ▸ hw)
    rcases hv' with hv' | hv'
    · exact ((hp v).mp hv').elim hne hpool
    · exact hv (.inr hv')
  | @enter w l r hw ha =>
    have hne : v ≠ w := fun he => hj (he ▸ hw)
    rcases hv' with hv' | hv' | hv'
    · exact hpool (List.mem_of_mem_filter hv')
    · have hm : v ∈ l ++ r := by
        rcases List.mem_append.mp hv' with hl | hr
        · exact List.mem_append_left _ hl
        · exact List.mem_append_right _ (List.mem_of_ne_of_mem hne hr)
      exact hactive (List.mem_of_mem_filter (ha ▸ hm))
    · exact hpopped hv'
  | stay hw ha =>
    rcases hv' with hv' | hv'
    · exact hpool (List.mem_of_mem_filter hv')
    · exact hv (.inr hv')
  | shuffle ha ho =>
    rcases hv' with hv' | hv' | hv'
    · simp at hv'
    · exact hpool ((ho v).mp hv')
    · exact hpopped hv'
  | pop k =>
    rcases hv' with hv' | hv' | hv'
    · exact hpool hv'
    · exact hactive (List.mem_of_mem_drop hv')
    · rcases List.mem_append.mp hv' with hm | hm
      · exact hpopped hm
      · exact hactive (List.mem_of_mem_take hm)

/-- As long as neither of the two joins again, the one stays behind the other. -/
theorem Move.behind (h : Move joiner L L') (hju : joiner ≠ some u) (hjv : joiner ≠ some v)
    (hb : Behind u v L) : Behind u v L' := by
  cases h with
  | @wait w _ hw hp =>
    have hne : v ≠ w := fun he => hjv (he ▸ hw)
    exact ⟨hb.order, fun hm => ((hp v).mp hm).elim hne hb.pool⟩
  | @enter w l r hw ha =>
    have hwu : w ≠ u := fun he => hju (he ▸ hw)
    have hwv : w ≠ v := fun he => hjv (he ▸ hw)
    refine ⟨?_, fun hm => hb.pool (List.mem_of_mem_filter hm)⟩
    have ho := follows_append.mp hb.order
    rw [follows_append]
    refine ⟨ho.1, ho.2.imp_right fun hf => ?_⟩
    have hkept : Follows u v (l ++ r) := by
      rw [← ha]
      exact hf.filter (by simpa using hwu.symm)
    exact hkept.insert hwv
  | stay hw ha => exact ⟨hb.order, fun hm => hb.pool (List.mem_of_mem_filter hm)⟩
  | @shuffle order ha ho =>
    refine ⟨?_, by simp⟩
    have hpopped := (follows_append.mp hb.order).1
    exact follows_append.mpr ⟨hpopped, .inr (follows_of_not_mem fun hm => hb.pool ((ho v).mp hm))⟩
  | pop k =>
    refine ⟨?_, hb.pool⟩
    rw [List.append_assoc, List.take_append_drop]
    exact hb.order

omit [DecidableEq μ] in
theorem behind_of_enter {l r : List μ} (hu : u ∈ L.popped ∨ u ∈ l) (hv : ¬ L.Has v)
    (hl : v ∉ l) (hp : v ∉ L'.pool) (hpopped : L'.popped = L.popped)
    (hactive : L'.active = l ++ v :: r) : Behind u v L' := by
  refine ⟨?_, hp⟩
  have hout : v ∉ L.popped := fun hm => hv (.inr (.inr hm))
  rw [hpopped, hactive, follows_append]
  refine ⟨follows_of_not_mem hout, hu.imp_right fun hm => ?_⟩
  exact follows_append.mpr ⟨follows_of_not_mem hl, .inl hm⟩

end Moves

end Line
