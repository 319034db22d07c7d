import CrowdTic.Postgres
import CrowdTic.ScriptCalls

/-! The two stores together, and the ways in which a call to one of them can
fail. -/

namespace CrowdTic

structure World (U : Type) where
  redis : Redis
  db : Db U

/-- A failed call returns an error, and was carried out or not. -/
inductive Fault
  | none
  | before (msg : String)
  | after (msg : String)
  deriving DecidableEq

namespace Fault

def takes : Fault → Bool
  | .before _ => false
  | _ => true

def answer {α : Type} (f : Fault) (a : α) : Option α :=
  match f with
  | .none => some a
  | _ => Option.none

def script (f : Fault) (reply : Reply) : Except String Unit :=
  match f, reply with
  | .none, .ok _ _ => .ok ()
  | .none, .err msg => .error msg
  | .before msg, _ => .error msg
  | .after msg, _ => .error msg

theorem answer_eq_some_iff {α : Type} {f : Fault} {a b : α} :
    f.answer a = some b ↔ f = .none ∧ a = b := by
  cases f <;> simp [answer]

theorem script_eq_ok_iff {f : Fault} {reply : Reply} :
    f.script reply = .ok () ↔ f = .none ∧ ∃ status fields, reply = .ok status fields := by
  cases f <;> cases reply <;> simp [script]

end Fault

end CrowdTic
