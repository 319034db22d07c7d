import Mathlib.Logic.Basic

/-! Programs that stop at the first step that fails and keep what has been done
so far, and programs whose calls to a server may fail, before or after the call
has taken effect there. -/

inductive CallFate
  | answered
  | failedBefore
  | failedAfter
  deriving DecidableEq

/-- What happens to the calls of one run, and the clock of the server at each of them. -/
structure Network (κ : Type) where
  fate : κ → CallFate
  clock : κ → Nat

abbrev Program (ε σ α : Type) := ExceptT ε (StateM σ) α

abbrev Remote (σ α : Type) := Program Unit σ α

namespace Remote

variable {κ ε σ α β : Type}

def call (net : Network κ) (c : κ) (command : Nat → σ → α × σ) : Remote σ α := fun s =>
  match net.fate c with
  | .answered => (.ok (command (net.clock c) s).1, (command (net.clock c) s).2)
  | .failedBefore => (.error (), s)
  | .failedAfter => (.error (), (command (net.clock c) s).2)

section Programs

variable {x : Program ε σ α} {s s' : σ} {a : α}

theorem pure_run (a : α) (s : σ) : (pure a : Program ε σ α) s = (.ok a, s) := rfl

theorem bind_ok {f : α → Program ε σ β} (h : x s = (.ok a, s')) : (x >>= f) s = f a s' := by
  simp only [bind, ExceptT.bind, ExceptT.mk, StateT.bind, h, ExceptT.bindCont]

theorem bind_error {f : α → Program ε σ β} {e : ε} (h : x s = (.error e, s')) :
    (x >>= f) s = (.error e, s') := by
  simp only [bind, ExceptT.bind, ExceptT.mk, StateT.bind, h, ExceptT.bindCont]
  rfl

theorem bind_ok_iff {f : α → Program ε σ β} {b : β} {t : σ} :
    (x >>= f) s = (.ok b, t) ↔ ∃ a s', x s = (.ok a, s') ∧ f a s' = (.ok b, t) := by
  constructor
  · intro h
    cases hx : x s with
    | mk out s' =>
      cases out with
      | ok a => exact ⟨a, s', rfl, (bind_ok hx).symm.trans h⟩
      | error e =>
        rw [bind_error hx] at h
        cases h
  · rintro ⟨a, s', hx, hf⟩
    exact (bind_ok hx).trans hf

theorem forM_cons (g : κ → Program ε σ PUnit) (k : κ) (ks : List κ) :
    (k :: ks).forM g = (g k >>= fun _ => ks.forM g) := rfl

end Programs

/-- From `s` the program completes exactly when `p` holds, and then leaves `s'`. -/
def Completes (x : Program ε σ PUnit) (s : σ) (p : Prop) (s' : σ) : Prop :=
  ∀ t, x s = (.ok ⟨⟩, t) ↔ p ∧ t = s'

namespace Completes

variable {x y : Program ε σ PUnit} {s s' s'' : σ} {p q : Prop}

theorem ok (h : Completes x s p s') (hp : p) : x s = (.ok ⟨⟩, s') := (h s').mpr ⟨hp, rfl⟩

theorem error (h : Completes x s p s') (hp : ¬ p) : ∃ e t, x s = (.error e, t) := by
  cases hx : x s with
  | mk out t =>
    cases out with
    | ok _ => exact absurd ((h t).mp hx).1 hp
    | error e => exact ⟨e, t, rfl⟩

theorem congr (h : Completes x s p s') (hpq : p ↔ q) : Completes x s q s' := fun t =>
  (h t).trans (and_congr_left' hpq)

theorem pure : Completes (Pure.pure ⟨⟩ : Program ε σ PUnit) s True s := fun _ =>
  ⟨fun h => ⟨trivial, (congrArg Prod.snd h).symm⟩, fun h => h.2 ▸ rfl⟩

theorem bind (hx : Completes x s p s') (hy : Completes y s' q s'') :
    Completes (x >>= fun _ => y) s (p ∧ q) s'' := by
  intro t
  rw [bind_ok_iff]
  constructor
  · rintro ⟨_, u, hu, ht⟩
    obtain ⟨hp, rfl⟩ := (hx u).mp hu
    obtain ⟨hq, ht⟩ := (hy t).mp ht
    exact ⟨⟨hp, hq⟩, ht⟩
  · rintro ⟨⟨hp, hq⟩, ht⟩
    exact ⟨⟨⟩, s', hx.ok hp, (hy t).mpr ⟨hq, ht⟩⟩

/-- Whether a step of the loop completes may be seen from the state before the loop. -/
theorem forM {g : κ → Program ε σ PUnit} {step : σ → κ → σ} {p : σ → κ → Prop}
    (hg : ∀ s k, Completes (g k) s (p s k) (step s k))
    (hstep : ∀ s k j, p s k → (p (step s k) j ↔ p s j)) (ks : List κ) (s : σ) :
    Completes (ks.forM g) s (∀ k ∈ ks, p s k) (ks.foldl step s) := by
  induction ks generalizing s with
  | nil =>
    intro t
    have hrun : ([] : List κ).forM g s = (.ok ⟨⟩, s) := rfl
    rw [hrun, and_iff_right (by simp), List.foldl_nil, Prod.mk.injEq, and_iff_right rfl]
    exact eq_comm
  | cons k ks ih =>
    rw [forM_cons, List.foldl_cons]
    refine ((hg s k).bind (ih (step s k))).congr ?_
    rw [List.forall_mem_cons]
    exact and_congr_right fun hk => forall₂_congr fun j _ => hstep s k j hk

end Completes

section Runs

variable {net : Network κ} {c : κ} {command : Nat → σ → α × σ} {x : Remote σ α} {s s' : σ} {a : α}

theorem catch_ok {f : Unit → Remote σ α} (h : x s = (.ok a, s')) :
    (tryCatch x f) s = (.ok a, s') := by
  simp only [tryCatch, tryCatchThe, MonadExceptOf.tryCatch, ExceptT.tryCatch, ExceptT.mk, bind,
    StateT.bind, h]
  rfl

theorem catch_error {f : Unit → Remote σ α} (h : x s = (.error (), s')) :
    (tryCatch x f) s = f () s' := by
  simp only [tryCatch, tryCatchThe, MonadExceptOf.tryCatch, ExceptT.tryCatch, ExceptT.mk, bind,
    StateT.bind, h]

theorem call_answered (h : net.fate c = .answered) :
    call net c command s = (.ok (command (net.clock c) s).1, (command (net.clock c) s).2) := by
  simp only [call, h]

theorem call_failedBefore (h : net.fate c = .failedBefore) :
    call net c command s = (.error (), s) := by
  simp only [call, h]

theorem call_failedAfter (h : net.fate c = .failedAfter) :
    call net c command s = (.error (), (command (net.clock c) s).2) := by
  simp only [call, h]

theorem call_failed (h : net.fate c ≠ .answered) : ∃ s', call net c command s = (.error (), s') := by
  cases hf : net.fate c with
  | answered => exact absurd hf h
  | failedBefore => exact ⟨_, call_failedBefore hf⟩
  | failedAfter => exact ⟨_, call_failedAfter hf⟩

theorem rounds_answered_iff (net : Network κ) (c : Nat → κ) {i n : Nat} :
    (∀ j < n + 1, net.fate (c (i + j)) = .answered) ↔
      net.fate (c i) = .answered ∧ ∀ j < n, net.fate (c (i + 1 + j)) = .answered := by
  simp only [Nat.forall_lt_succ_left, Nat.add_zero, Nat.add_assoc, Nat.add_comm 1]

def Throws (x : Remote σ α) (s : σ) : Prop := ∃ s', x s = (.error (), s')

theorem Throws.not_ok (h : Throws x s) (a : α) : (x s).1 ≠ .ok a := by
  obtain ⟨s', hs'⟩ := h
  rw [hs']
  intro he
  cases he

theorem Throws.bind {f : α → Remote σ β} (h : Throws x s) : Throws (x >>= f) s := by
  obtain ⟨s', hs'⟩ := h
  exact ⟨s', bind_error hs'⟩

theorem Throws.after {f : α → Remote σ β} (h : ∀ a s', x s = (.ok a, s') → Throws (f a) s') :
    Throws (x >>= f) s := by
  cases hx : x s with
  | mk out s' =>
    cases out with
    | ok a =>
      obtain ⟨t, ht⟩ := h a s' hx
      exact ⟨t, (bind_ok hx).trans ht⟩
    | error e => exact ⟨s', bind_error hx⟩

/-- A call throws, or what comes behind its answer. -/
theorem Throws.call {f : α → Remote σ β} (h : net.fate c = .answered →
    Throws (f (command (net.clock c) s).1) (command (net.clock c) s).2) :
    Throws (call net c command >>= f) s := by
  by_cases hc : net.fate c = .answered
  · obtain ⟨s', hs'⟩ := h hc
    exact ⟨s', (bind_ok (call_answered hc)).trans hs'⟩
  · exact Throws.bind (call_failed hc)

theorem read_run (net : Network κ) (c : κ) (f : Nat → σ → α) (s : σ) :
    call net c (fun t s => (f t s, s)) s =
      (if net.fate c = .answered then .ok (f (net.clock c) s) else .error (), s) := by
  unfold call
  cases net.fate c <;> rfl

/-- A read whose failure counts as the answer `d`. -/
theorem read_catch_run (net : Network κ) (c : κ) (f : Nat → σ → α) (d : α) (s : σ) :
    (tryCatch (call net c fun t s => (f t s, s)) fun _ => pure d) s =
      (.ok (if net.fate c = .answered then f (net.clock c) s else d), s) := by
  have hread := read_run net c f s
  by_cases hc : net.fate c = .answered
  · rw [if_pos hc] at hread
    rw [catch_ok hread, if_pos hc]
  · rw [if_neg hc] at hread
    rw [catch_error hread, if_neg hc]
    rfl

theorem read_bind_keeps {f : Nat → σ → α} {k : α → Remote σ β}
    (h : (k (f (net.clock c) s) s).2 = s) :
    ((call net c (fun t s => (f t s, s)) >>= k) s).2 = s := by
  have hread := read_run net c f s
  by_cases hc : net.fate c = .answered
  · rw [if_pos hc] at hread
    rw [bind_ok hread]
    exact h
  · rw [if_neg hc] at hread
    rw [bind_error hread]

end Runs

/-- However the program ends, the state keeps the property. -/
def Keeps (P : σ → Prop) (x : Program ε σ α) : Prop := ∀ s, P s → P (x s).2

section Keeps

variable {P : σ → Prop} {net : Network κ} {c : κ} {command : Nat → σ → α × σ} {x : Program ε σ α}

theorem Keeps.pure (a : α) : Keeps P (Pure.pure a : Program ε σ α) := fun _ h => h

theorem Keeps.ite {p : Prop} [Decidable p] {y : Program ε σ α} (hx : Keeps P x) (hy : Keeps P y) :
    Keeps P (if p then x else y) := by
  by_cases h : p
  · rwa [if_pos h]
  · rwa [if_neg h]

theorem Keeps.call (hc : ∀ t s, P s → P (command t s).2) : Keeps P (Remote.call net c command) := by
  intro s hs
  unfold Remote.call
  cases net.fate c with
  | answered => exact hc _ s hs
  | failedBefore => exact hs
  | failedAfter => exact hc _ s hs

theorem Keeps.after {f : α → Program ε σ β} {s : σ} (hf : ∀ a, Keeps P (f a)) (hx : P (x s).2) :
    P ((x >>= f) s).2 := by
  cases he : x s with
  | mk out s' =>
    rw [he] at hx
    cases out with
    | ok a =>
      rw [bind_ok he]
      exact hf a s' hx
    | error e =>
      rw [bind_error he]
      exact hx

theorem Keeps.bind {f : α → Program ε σ β} (hx : Keeps P x) (hf : ∀ a, Keeps P (f a)) :
    Keeps P (x >>= f) := fun s hs => Keeps.after (P := P) hf (hx s hs)

theorem Keeps.forM {g : κ → Program ε σ PUnit} {ks : List κ} (hg : ∀ k ∈ ks, Keeps P (g k)) :
    Keeps P (ks.forM g) := by
  induction ks with
  | nil => exact fun _ h => h
  | cons k ks ih =>
    obtain ⟨hk, hks⟩ := List.forall_mem_cons.mp hg
    exact .bind hk fun _ => ih hks

theorem Keeps.catch {x : Remote σ α} {f : Unit → Remote σ α} (hx : Keeps P x)
    (hf : ∀ e, Keeps P (f e)) : Keeps P (tryCatch x f) := by
  intro s hs
  have hmid := hx s hs
  cases he : x s with
  | mk out s' =>
    rw [he] at hmid
    cases out with
    | ok a =>
      rw [catch_ok he]
      exact hmid
    | error e =>
      rw [catch_error he]
      exact hf () s' hmid

end Keeps

end Remote
