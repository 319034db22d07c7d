import Mathlib.Logic.Basic
import Mathlib.Tactic.SplitIfs

/-! Maps whose entries may carry a deadline, and their sweep at a given time.
An entry is gone once the clock has passed its deadline. -/

structure Expiring (α : Type*) where
  value : α
  deadline : Option Nat

def ExpMap (κ α : Type*) := κ → Option (Expiring α)

namespace ExpMap

variable {κ α : Type*}

def get (m : ExpMap κ α) (k : κ) : Option α := (m k).map Expiring.value

def ttl (m : ExpMap κ α) (k : κ) : Option Nat := (m k).bind Expiring.deadline

def sweep (m : ExpMap κ α) (now : Nat) : ExpMap κ α :=
  fun j => (m j).filter fun e => e.deadline.all (now ≤ ·)

/-- The clock `now` has passed the deadline of `k`. -/
def lapsed (m : ExpMap κ α) (now : Nat) (k : κ) : Bool := (m.ttl k).any (· < now)

section Updates

variable [DecidableEq κ]

/-- Create or rewrite the value at `k`, keeping a deadline that is already there. -/
def alter (m : ExpMap κ α) (k : κ) (f : Option α → α) : ExpMap κ α :=
  fun j => if j = k then some ⟨f (m.get k), m.ttl k⟩ else m j

def modify (m : ExpMap κ α) (k : κ) (f : α → α) : ExpMap κ α :=
  fun j => if j = k then (m j).map fun e => ⟨f e.value, e.deadline⟩ else m j

def put (m : ExpMap κ α) (k : κ) (v : α) (d : Option Nat) : ExpMap κ α :=
  fun j => if j = k then some ⟨v, d⟩ else m j

def erase (m : ExpMap κ α) (k : κ) : ExpMap κ α := fun j => if j = k then none else m j

def setDeadline (m : ExpMap κ α) (k : κ) (d : Option Nat) : ExpMap κ α :=
  fun j => if j = k then (m j).map fun e => ⟨e.value, d⟩ else m j

@[simp] theorem get_alter (m : ExpMap κ α) (k j : κ) (f : Option α → α) :
    (m.alter k f).get j = if j = k then some (f (m.get k)) else m.get j := by
  by_cases h : j = k <;> simp [alter, get, h]

@[simp] theorem ttl_alter (m : ExpMap κ α) (k j : κ) (f : Option α → α) :
    (m.alter k f).ttl j = m.ttl j := by
  by_cases h : j = k <;> simp [alter, ttl, h]

@[simp] theorem get_modify (m : ExpMap κ α) (k j : κ) (f : α → α) :
    (m.modify k f).get j = if j = k then (m.get j).map f else m.get j := by
  by_cases h : j = k <;> simp [modify, get, h, Function.comp_def]

@[simp] theorem ttl_modify (m : ExpMap κ α) (k j : κ) (f : α → α) :
    (m.modify k f).ttl j = m.ttl j := by
  by_cases h : j = k
  · subst h
    cases hm : m j <;> simp [modify, ttl, hm]
  · simp [modify, ttl, h]

@[simp] theorem get_put (m : ExpMap κ α) (k j : κ) (v : α) (d : Option Nat) :
    (m.put k v d).get j = if j = k then some v else m.get j := by
  by_cases h : j = k <;> simp [put, get, h]

@[simp] theorem ttl_put (m : ExpMap κ α) (k j : κ) (v : α) (d : Option Nat) :
    (m.put k v d).ttl j = if j = k then d else m.ttl j := by
  by_cases h : j = k <;> simp [put, ttl, h]

@[simp] theorem get_erase (m : ExpMap κ α) (k j : κ) :
    (m.erase k).get j = if j = k then none else m.get j := by
  by_cases h : j = k <;> simp [erase, get, h]

@[simp] theorem ttl_erase (m : ExpMap κ α) (k j : κ) :
    (m.erase k).ttl j = if j = k then none else m.ttl j := by
  by_cases h : j = k <;> simp [erase, ttl, h]

@[simp] theorem get_setDeadline (m : ExpMap κ α) (k j : κ) (d : Option Nat) :
    (m.setDeadline k d).get j = m.get j := by
  by_cases h : j = k <;> simp [setDeadline, get, h, Function.comp_def]

@[simp] theorem ttl_setDeadline (m : ExpMap κ α) (k j : κ) (d : Option Nat) :
    (m.setDeadline k d).ttl j = if j = k then (m.get j).bind (fun _ => d) else m.ttl j := by
  by_cases h : j = k
  · subst h
    cases hm : m j <;> simp [setDeadline, ttl, get, hm]
  · simp [setDeadline, ttl, h]

end Updates

@[simp] theorem get_sweep (m : ExpMap κ α) (now : Nat) (k : κ) :
    (m.sweep now).get k = if m.lapsed now k then none else m.get k := by
  cases hm : m k with
  | none => simp [sweep, get, hm]
  | some e =>
    cases hd : e.deadline with
    | none => simp [sweep, get, lapsed, ttl, Option.filter, hm, hd]
    | some d =>
      by_cases h : now ≤ d
      · simp [sweep, get, lapsed, ttl, Option.filter, hm, hd, h, Nat.not_lt.mpr h]
      · simp [sweep, get, lapsed, ttl, Option.filter, hm, hd, h, Nat.lt_of_not_le h]

@[simp] theorem ttl_sweep (m : ExpMap κ α) (now : Nat) (k : κ) :
    (m.sweep now).ttl k = if m.lapsed now k then none else m.ttl k := by
  cases hm : m k with
  | none => simp [sweep, ttl, hm]
  | some e =>
    cases hd : e.deadline with
    | none => simp [sweep, lapsed, ttl, Option.filter, hm, hd]
    | some d =>
      by_cases h : now ≤ d
      · simp [sweep, lapsed, ttl, Option.filter, hm, hd, h, Nat.not_lt.mpr h]
      · simp [sweep, lapsed, ttl, Option.filter, hm, hd, h, Nat.lt_of_not_le h]

theorem lapsed_of_ttl_none {m : ExpMap κ α} {k : κ} (h : m.ttl k = none) (now : Nat) :
    m.lapsed now k = false := by
  simp [lapsed, h]

end ExpMap
