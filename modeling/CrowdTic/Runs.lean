import Mathlib.Data.List.Induction

/-! Runs of a labelled transition system. A run records every step as the
state it starts from and its label, so that conditions on the steps of a run
are conditions on the members of its record. -/

variable {σ τ ι κ : Type*}

inductive Run (step : σ → ι → σ → Prop) (s : σ) : List (σ × ι) → σ → Prop
  | nil : Run step s [] s
  | snoc {tr : List (σ × ι)} {t u : σ} {a : ι} :
      Run step s tr t → step t a u → Run step s (tr ++ [(t, a)]) u

namespace Run

variable {step : σ → ι → σ → Prop} {s t u : σ} {tr tr' : List (σ × ι)}

theorem single {a : ι} (h : step s a t) : Run step s [(s, a)] t := by
  simpa using Run.nil.snoc h

theorem append (h : Run step s tr t) (h' : Run step t tr' u) : Run step s (tr ++ tr') u := by
  induction h' with
  | nil => simpa using h
  | snoc _ hs ih => simpa only [List.append_assoc] using ih.snoc hs

def record (f : σ → ι → σ) (s : σ) : List ι → List (σ × ι)
  | [] => []
  | a :: as => (s, a) :: record f (f s a) as

/-- A step, or nothing when it cannot be taken. -/
def played (f : σ → ι → Option σ) (s : σ) (a : ι) : σ := (f s a).getD s

theorem of_played (f : σ → ι → Option σ) (s : σ) (as : List ι)
    (h : (record (played f) s as).all fun p => (f p.1 p.2).isSome) :
    Run (fun s a t => f s a = some t) s (record (played f) s as) (as.foldl (played f) s) := by
  induction as generalizing s with
  | nil => exact .nil
  | cons a as ih =>
    simp only [record, List.all_cons, Bool.and_eq_true] at h
    obtain ⟨t, ht⟩ := Option.isSome_iff_exists.mp h.1
    have hplayed : f s a = some (played f s a) := by rw [played, ht, Option.getD_some]
    exact (single hplayed).append (ih _ h.2)

theorem record_append (f : σ → ι → σ) (s : σ) (as bs : List ι) :
    record f s (as ++ bs) = record f s as ++ record f (as.foldl f s) bs := by
  induction as generalizing s with
  | nil => rfl
  | cons a as ih => simp only [List.cons_append, record, List.foldl_cons, ih]

theorem of_record {f : σ → ι → σ} (hf : ∀ s a, step s a (f s a)) (s : σ) (as : List ι) :
    Run step s (record f s as) (as.foldl f s) := by
  induction as generalizing s with
  | nil => exact .nil
  | cons a as ih => exact (single (hf s a)).append (ih (f s a))

theorem label_mem_of_record {f : σ → ι → σ} {s : σ} {as : List ι} {p : σ × ι} (h : p ∈ record f s as) :
    p.2 ∈ as := by
  induction as generalizing s with
  | nil => cases h
  | cons a as ih =>
    rcases List.mem_cons.mp h with rfl | h
    · exact List.mem_cons_self
    · exact List.mem_cons_of_mem _ (ih h)

/-- An invariant kept by every step that meets `good` holds after every run of such steps. -/
theorem invariant (inv : σ → Prop) (good : σ → ι → Prop) (h : Run step s tr t)
    (hstep : ∀ t a u, inv t → good t a → step t a u → inv u)
    (hs : inv s) (hg : ∀ p ∈ tr, good p.1 p.2) : inv t := by
  induction h with
  | nil => exact hs
  | snoc _ ha ih =>
    have hp := List.forall_mem_append.mp hg
    exact hstep _ _ _ (ih hp.1) (hp.2 (_, _) (by simp)) ha

/-- `P` holds in every state of a run exactly when all its steps are good, when good steps keep
an invariant that gives `P` and a step that is not good breaks `P`. -/
theorem always_iff {P inv : σ → Prop} {good : σ → ι → Prop} (hP : ∀ t, inv t → P t)
    (hkeep : ∀ t a u, inv t → good t a → step t a u → inv u)
    (hbreak : ∀ t a u, inv t → ¬ good t a → step t a u → ¬ P u)
    (hs : inv s) (h : Run step s tr t) :
    ((∀ p ∈ tr, P p.1) ∧ P t) ↔ ∀ p ∈ tr, good p.1 p.2 := by
  induction h with
  | nil => simp [hP s hs]
  | @snoc tr t u a hr ha ih =>
    rw [List.forall_mem_append, List.forall_mem_append, ← ih]
    constructor
    · rintro ⟨⟨hpre, hlast⟩, hu⟩
      have hgood := ih.mp ⟨hpre, hlast _ (List.mem_singleton_self _)⟩
      have ht : inv t := hr.invariant inv good hkeep hs hgood
      refine ⟨⟨hpre, hP t ht⟩, ?_⟩
      intro p hp
      obtain rfl := List.mem_singleton.mp hp
      by_contra hbad
      exact hbreak t a u ht hbad ha hu
    · rintro ⟨⟨hpre, ht⟩, hlast⟩
      have hi : inv t := hr.invariant inv good hkeep hs (ih.mp ⟨hpre, ht⟩)
      have hu : inv u := hkeep t a u hi (hlast (t, a) (List.mem_singleton_self _)) ha
      exact ⟨⟨hpre, by simpa using ht⟩, hP u hu⟩

/-- No step of a run is bad exactly when all are good, when good steps keep an invariant under
which the steps that are not good are the bad ones. -/
theorem steps_iff {inv : σ → Prop} {good bad : σ → ι → Prop}
    (hkeep : ∀ t a u, inv t → good t a → step t a u → inv u)
    (hbad : ∀ t a, inv t → (bad t a ↔ ¬ good t a)) (hs : inv s) (h : Run step s tr t) :
    (∀ p ∈ tr, ¬ bad p.1 p.2) ↔ ∀ p ∈ tr, good p.1 p.2 := by
  induction h with
  | nil => simp
  | @snoc tr t u a hr ha ih =>
    rw [List.forall_mem_append, List.forall_mem_append, ih]
    refine and_congr_right fun hpre => ?_
    have ht : inv t := hr.invariant inv good hkeep hs hpre
    have hiff : ¬ bad t a ↔ good t a := by rw [hbad t a ht, not_not]
    simpa using hiff

theorem cut {p : σ × ι} {pre post : List (σ × ι)} (h : Run step s (pre ++ p :: post) t) :
    ∃ u, Run step s pre p.1 ∧ step p.1 p.2 u ∧ Run step u post t := by
  induction post using List.reverseRecOn generalizing t with
  | nil =>
    generalize hl : pre ++ [p] = l at h
    cases h with
    | nil => simp at hl
    | snoc hr ha =>
      obtain ⟨rfl, hp⟩ := List.append_inj' hl rfl
      obtain rfl := List.cons.inj hp |>.1
      exact ⟨_, hr, ha, .nil⟩
  | append_singleton post q ih =>
    generalize hl : pre ++ p :: (post ++ [q]) = l at h
    rw [← List.cons_append, ← List.append_assoc] at hl
    cases h with
    | nil => simp at hl
    | snoc hr ha =>
      obtain ⟨rfl, hq⟩ := List.append_inj' hl rfl
      obtain rfl := List.cons.inj hq |>.1
      obtain ⟨u, hpre, hu, hpost⟩ := ih hr
      exact ⟨u, hpre, hu, hpost.snoc ha⟩

theorem split {p : σ × ι} (h : Run step s tr t) (hp : p ∈ tr) :
    ∃ pre post u, tr = pre ++ p :: post ∧ Run step s pre p.1 ∧ step p.1 p.2 u ∧ Run step u post t := by
  obtain ⟨pre, post, rfl⟩ := List.append_of_mem hp
  obtain ⟨u, hcut⟩ := h.cut
  exact ⟨pre, post, u, rfl, hcut⟩

/-- The invariant holds in the state before every step, too. -/
theorem invariant_mem (inv : σ → Prop) (good : σ → ι → Prop) (h : Run step s tr t)
    (hstep : ∀ t a u, inv t → good t a → step t a u → inv u)
    (hs : inv s) (hg : ∀ p ∈ tr, good p.1 p.2) : ∀ p ∈ tr, inv p.1 := by
  intro p hp
  obtain ⟨pre, post, u, rfl, hpre, -⟩ := h.split hp
  exact hpre.invariant inv good hstep hs fun q hq => hg q (List.mem_append_left _ hq)

/-- A step-wise simulation carries runs to runs. A step may be matched by no step. -/
theorem simulate {step' : τ → κ → τ → Prop} (view : σ → τ) (label : σ → ι → Option κ)
    (hnone : ∀ t a u, step t a u → label t a = none → view u = view t)
    (hsome : ∀ t a u b, step t a u → label t a = some b → step' (view t) b (view u))
    (h : Run step s tr t) :
    Run step' (view s) (tr.filterMap fun p => (label p.1 p.2).map (view p.1, ·)) (view t) := by
  induction h with
  | nil => exact .nil
  | @snoc tr t u a _ ha ih =>
    cases hl : label t a with
    | none => simpa [hl, hnone t a u ha hl] using ih
    | some b => simpa [hl] using ih.snoc (hsome t a u b ha hl)

end Run
