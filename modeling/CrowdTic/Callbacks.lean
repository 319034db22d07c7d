import CrowdTic.Runs

/-! Calls that hand control to an account before they finish. While a call
waits, the account makes calls of its own, and these may wait in turn. A call
that reverts takes no turn, and neither does anything it led to. -/

/-- A call either finishes, or asks an account and goes on from the state it is given back. -/
inductive Outcome (ε σ : Type)
  | done (s : σ)
  | asks (mid : σ) (resume : σ → Except ε σ)

def Outcome.waits {ε σ : Type} : Outcome ε σ → Bool
  | .done _ => false
  | .asks _ _ => true

abbrev Calls (ε σ ι : Type) := ι → σ → Except ε (Outcome ε σ)

/-- A state, and the calls that wait, each with the state it was made in, the innermost first. -/
structure Config (σ ι : Type) where
  state : σ
  pending : List (σ × ι)

variable {ε ε' σ τ ι : Type}

namespace Config

def start (s : σ) : Config σ ι := ⟨s, []⟩

/-- A label is the call that is made, or none when the innermost waiting call goes on. -/
def turn (calls : Calls ε σ ι) (c : Config σ ι) : Option ι → Option (Config σ ι)
  | some i =>
    match calls i c.state with
    | .ok (.done s) => some ⟨s, c.pending⟩
    | .ok (.asks mid _) => some ⟨mid, (c.state, i) :: c.pending⟩
    | .error _ => none
  | none =>
    match c.pending with
    | [] => none
    | (s, i) :: rest =>
      match calls i s with
      | .ok (.asks _ resume) => (resume c.state).toOption.map (⟨·, rest⟩)
      | _ => none

end Config

def Turn (calls : Calls ε σ ι) (c : Config σ ι) (l : Option ι) (c' : Config σ ι) : Prop :=
  c.turn calls l = some c'

/-- Everything a turn can be. -/
inductive TurnCases (calls : Calls ε σ ι) : Config σ ι → Option ι → Config σ ι → Prop
  | done {s s' : σ} {p : List (σ × ι)} {i : ι} (h : calls i s = .ok (.done s')) :
    TurnCases calls ⟨s, p⟩ (some i) ⟨s', p⟩
  | asks {s mid : σ} {p : List (σ × ι)} {i : ι} {resume : σ → Except ε σ}
    (h : calls i s = .ok (.asks mid resume)) : TurnCases calls ⟨s, p⟩ (some i) ⟨mid, (s, i) :: p⟩
  | resumes {s t u mid : σ} {p : List (σ × ι)} {i : ι} {resume : σ → Except ε σ}
    (h : calls i s = .ok (.asks mid resume)) (hr : resume t = .ok u) :
    TurnCases calls ⟨t, (s, i) :: p⟩ none ⟨u, p⟩

theorem Turn.cases {calls : Calls ε σ ι} {c c' : Config σ ι} {l : Option ι}
    (h : Turn calls c l c') : TurnCases calls c l c' := by
  obtain ⟨s, p⟩ := c
  cases l with
  | some i =>
    rw [Turn, Config.turn] at h
    cases hx : calls i s with
    | error e => simp [hx] at h
    | ok o =>
      cases o with
      | done s' =>
        simp only [hx, Option.some.injEq] at h
        exact h ▸ .done hx
      | asks mid resume =>
        simp only [hx, Option.some.injEq] at h
        exact h ▸ .asks hx
  | none =>
    cases p with
    | nil => simp [Turn, Config.turn] at h
    | cons f p =>
      obtain ⟨t, i⟩ := f
      rw [Turn, Config.turn] at h
      cases hx : calls i t with
      | error e => simp [hx] at h
      | ok o =>
        cases o with
        | done s' => simp [hx] at h
        | asks mid resume =>
          cases hr : resume s with
          | error e => simp [hx, hr, Except.toOption] at h
          | ok u =>
            simp only [hx, hr, Except.toOption, Option.map_some, Option.some.injEq] at h
            exact h ▸ .resumes hx hr

namespace Turn

variable {calls : Calls ε σ ι}

theorem of_done {s s' : σ} {p : List (σ × ι)} {i : ι} (h : calls i s = .ok (.done s')) :
    Turn calls ⟨s, p⟩ (some i) ⟨s', p⟩ := by
  simp [Turn, Config.turn, h]

theorem of_asks {s mid : σ} {p : List (σ × ι)} {i : ι} {resume : σ → Except ε σ}
    (h : calls i s = .ok (.asks mid resume)) : Turn calls ⟨s, p⟩ (some i) ⟨mid, (s, i) :: p⟩ := by
  simp [Turn, Config.turn, h]

theorem of_resumes {s t u mid : σ} {p : List (σ × ι)} {i : ι} {resume : σ → Except ε σ}
    (h : calls i s = .ok (.asks mid resume)) (hr : resume t = .ok u) :
    Turn calls ⟨t, (s, i) :: p⟩ none ⟨u, p⟩ := by
  simp [Turn, Config.turn, h, hr, Except.toOption]

/-- Every waiting call was made earlier in the run. -/
theorem mem_of_pending {s : σ} {tr : List (Config σ ι × Option ι)} {c : Config σ ι}
    (h : Run (Turn calls) (.start s) tr c) {f : σ × ι} (hf : f ∈ c.pending) :
    ∃ p, (⟨f.1, p⟩, some f.2) ∈ tr := by
  induction h with
  | nil => exact absurd hf List.not_mem_nil
  | @snoc tr t u l hr ha ih =>
    have hold : f ∈ t.pending → ∃ p, (⟨f.1, p⟩, some f.2) ∈ tr ++ [(t, l)] := fun hft => by
      obtain ⟨p, hp⟩ := ih hft
      exact ⟨p, List.mem_append_left _ hp⟩
    cases ha.cases with
    | done hx => exact hold hf
    | @asks s mid p i resume hx =>
      rcases List.mem_cons.mp hf with rfl | hf
      · exact ⟨p, List.mem_append_right _ (List.mem_singleton_self _)⟩
      · exact hold hf
    | resumes hx hres => exact hold (List.mem_cons_of_mem _ hf)

end Turn

namespace Config

def played (calls : Calls ε σ ι) (c : Config σ ι) (l : Option ι) : Config σ ι :=
  (c.turn calls l).getD c

theorem run_played (calls : Calls ε σ ι) (c : Config σ ι) (ls : List (Option ι))
    (h : (Run.record (played calls) c ls).all fun p => (p.1.turn calls p.2).isSome) :
    Run (Turn calls) c (Run.record (played calls) c ls) (ls.foldl (played calls) c) :=
  Run.of_played (turn calls) c ls h

end Config

theorem Turn.played_eq {calls : Calls ε σ ι} {c c' : Config σ ι} {l : Option ι}
    (h : Turn calls c l c') : c.played calls l = c' := by
  have hturn : c.turn calls l = some c' := h
  rw [Config.played, hturn, Option.getD_some]

/-- The calls of a part of the state, as calls of the whole. -/
def Outcome.embed (get : τ → σ) (set : τ → σ → τ) (wrap : ε → ε') (t : τ) : Outcome ε σ → Outcome ε' τ
  | .done s => .done (set t s)
  | .asks mid resume => .asks (set t mid) fun u => ((resume (get u)).mapError wrap).map (set u)
