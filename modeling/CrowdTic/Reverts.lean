import Mathlib.Logic.Basic

/-! Calls that revert with an error of their own, and sections of a contract
that cannot be entered twice. -/

namespace Reverts

variable {ε α β σ : Type}

def ensure (c : Prop) [Decidable c] (e : ε) : Except ε Unit :=
  if c then .ok () else .error e

@[simp] theorem ensure_ok_iff {c : Prop} [Decidable c] {e : ε} {u : Unit} :
    ensure c e = .ok u ↔ c := by
  by_cases h : c <;> simp [ensure, h]

theorem ensure_bind_ok_iff {c : Prop} [Decidable c] {e : ε} {f : Unit → Except ε α} {a : α} :
    (ensure c e >>= f) = .ok a ↔ c ∧ f () = .ok a := by
  by_cases h : c <;> simp [ensure, h, bind, Except.bind]

theorem bind_ok_iff {x : Except ε α} {f : α → Except ε β} {b : β} :
    (x >>= f) = .ok b ↔ ∃ a, x = .ok a ∧ f a = .ok b := by
  cases x <;> simp [bind, Except.bind]

@[simp] theorem return_ok_iff {a b : α} : (return a : Except ε α) = .ok b ↔ a = b :=
  ⟨Except.ok.inj, congrArg _⟩

theorem map_ok_iff {x : Except ε α} {f : α → β} {b : β} :
    x.map f = .ok b ↔ ∃ a, x = .ok a ∧ f a = b := by
  cases x <;> simp [Except.map]

@[simp] theorem mapError_ok_iff {ε' : Type} {x : Except ε α} {f : ε → ε'} {a : α} :
    x.mapError f = .ok a ↔ x = .ok a := by
  cases x with
  | error e => exact ⟨nofun, nofun⟩
  | ok b => exact ⟨fun h => congrArg _ (Except.ok.inj h), fun h => congrArg _ (Except.ok.inj h)⟩

/-- A guarded section. The flag of the guard is raised while the body runs. -/
def nonReentrant (entered : σ → Bool) (setEntered : Bool → σ → σ) (e : ε)
    (body : σ → Except ε σ) (s : σ) : Except ε σ := do
  ensure (entered s = false) e
  let s ← body (setEntered true s)
  return setEntered false s

theorem nonReentrant_ok_iff {entered : σ → Bool} {setEntered : Bool → σ → σ} {e : ε}
    {body : σ → Except ε σ} {s s' : σ} :
    nonReentrant entered setEntered e body s = .ok s' ↔
      entered s = false ∧ ∃ t, body (setEntered true s) = .ok t ∧ setEntered false t = s' := by
  rw [nonReentrant, ensure_bind_ok_iff, bind_ok_iff]
  simp only [return_ok_iff]

theorem nonReentrant_of_entered {entered : σ → Bool} (setEntered : Bool → σ → σ) (e : ε)
    (body : σ → Except ε σ) {s : σ} (h : entered s = true) :
    nonReentrant entered setEntered e body s = .error e := by
  simp [nonReentrant, ensure, h, bind, Except.bind]

/-- A section guarded twice by one flag cannot be entered at all. -/
theorem nonReentrant_twice {entered : σ → Bool} {setEntered : Bool → σ → σ} (e : ε)
    (hset : ∀ s, entered (setEntered true s) = true) (body : σ → Except ε σ) (s : σ) :
    nonReentrant entered setEntered e (nonReentrant entered setEntered e body) s = .error e := by
  by_cases h : entered s = true
  · exact nonReentrant_of_entered setEntered e _ h
  · have hinner := nonReentrant_of_entered setEntered e body (hset s)
    rw [nonReentrant, hinner]
    simp [ensure, h, bind, Except.bind]

end Reverts
