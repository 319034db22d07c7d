import CrowdTic.Decimal
import CrowdTic.ExpiringMap
import CrowdTic.RemoteCalls
import CrowdTic.Runs
import CrowdTic.WaitingRoom

/-! The limits on joins (`hitRateLimit` of the waiting room), calls of it side
by side at the level of single commands, on Redis and on the KV fallback. -/

namespace CrowdTic

inductive LimitKind
  | ip
  | fp
  deriving DecidableEq

def LimitKind.str : LimitKind → String
  | .ip => "ip"
  | .fp => "fp"

def windowKey (kind : LimitKind) (id : String) (minute : Nat) : String :=
  "rl:" ++ kind.str ++ ":" ++ id ++ ":" ++ toString minute

/-- Two texts with a separator are told apart from behind, where it does not occur. -/
theorem append_cons_inj_of_last {α : Type} [DecidableEq α] {a : α} {l l' r r' : List α} (hr : a ∉ r)
    (hr' : a ∉ r') (h : l ++ a :: r = l' ++ a :: r') : l = l' ∧ r = r' := by
  have htail {x y : List α} (hy : a ∉ y) : (x ++ a :: y).reverse.takeWhile (!· = a) = y.reverse := by
    have hall : ∀ c ∈ y.reverse, (!decide (c = a)) = true := by
      intro c hc
      have hne : c ≠ a := by rintro rfl; exact hy (List.mem_reverse.mp hc)
      simpa using hne
    simp [List.takeWhile_append_of_pos hall]
  have hrev : r.reverse = r'.reverse := by rw [← htail hr, h, htail hr']
  obtain rfl := List.reverse_injective hrev
  exact ⟨List.append_cancel_right h, rfl⟩

theorem colon_not_mem_toString (n : Nat) : ':' ∉ (toString n).toList := by
  rw [Decimal.toList_toString]
  intro hm
  exact absurd (Nat.isDigit_of_mem_toDigits (by omega) (by omega) hm) (by decide)

theorem windowKey_inj {kind kind' : LimitKind} {id id' : String} {m m' : Nat}
    (h : windowKey kind id m = windowKey kind' id' m') : kind = kind' ∧ id = id' ∧ m = m' := by
  have hl : kind.str.toList ++ (':' :: id.toList ++ ':' :: (toString m).toList) =
      kind'.str.toList ++ (':' :: id'.toList ++ ':' :: (toString m').toList) := by
    simpa [windowKey] using congrArg String.toList h
  have hlen : kind.str.toList.length = kind'.str.toList.length := by
    cases kind <;> cases kind' <;> rfl
  obtain ⟨hkind, hrest⟩ := List.append_inj hl hlen
  obtain ⟨hid, hm⟩ := append_cons_inj_of_last (colon_not_mem_toString m) (colon_not_mem_toString m') hrest
  refine ⟨?_, String.toList_inj.mp (List.cons.inj hid).2, ?_⟩
  · cases kind <;> cases kind' <;> first | rfl | exact absurd hkind (by decide)
  · exact Decimal.toString_inj (String.toList_inj.mp hm)

/-- One join counted by its address or its fingerprint. -/
structure Attempt where
  kind : LimitKind
  id : String
  nowMs : Nat
  deriving DecidableEq

namespace Attempt

variable (a : Attempt)

def nowSec : Nat := a.nowMs / 1000

def minute : Nat := a.nowSec / 60

def windowKey : String := CrowdTic.windowKey a.kind a.id a.minute

end Attempt

structure LimitReply where
  allowed : Bool
  remaining : Int
  resetSec : Int
  deriving DecidableEq

def limitReply (limit : Int) (count : Nat) (resetSec : Int) : LimitReply :=
  ⟨count ≤ limit, max 0 (limit - count), resetSec⟩

inductive LimitPc
  | incr
  | expire
  | ttl (count : Nat)
  | get
  | put (cur : Nat)
  deriving DecidableEq

structure LimitCall where
  attempt : Attempt
  pc : LimitPc
  deriving DecidableEq

structure LimitAnswer where
  attempt : Attempt
  count : Nat
  reply : LimitReply
  atMs : Nat
  deriving DecidableEq

structure LimitStore where
  now : Nat
  redis : ExpMap String Nat
  kv : ExpMap String Nat

namespace LimitStore

variable (s : LimitStore) (k : String)

def incr : LimitStore := { s with redis := s.redis.alter k fun n => n.getD 0 + 1 }

def expire : LimitStore := { s with redis := s.redis.setDeadline k (some (s.now + 70000)) }

/-- `TTL`, to the nearest second. -/
def ttl : Int :=
  match s.redis.get k, s.redis.ttl k with
  | none, _ => -2
  | some _, none => -1
  | some _, some d => (d - s.now + 500) / 1000

def put (v : Nat) : LimitStore := { s with kv := s.kv.put k v (some (s.now + 70000)) }

def advance (ms : Nat) : LimitStore :=
  ⟨s.now + ms, s.redis.sweep (s.now + ms), s.kv.sweep (s.now + ms)⟩

end LimitStore

structure LimitConfig where
  backend : Backend
  limit : LimitKind → Int

inductive Progress
  | call (c : LimitCall)
  | answer (a : LimitAnswer)

namespace LimitCall

def start (cfg : LimitConfig) (a : Attempt) : LimitCall :=
  match cfg.backend with
  | .redis => ⟨a, .incr⟩
  | .kv => ⟨a, .get⟩

def effect (c : LimitCall) (s : LimitStore) : LimitStore :=
  match c.pc with
  | .incr => s.incr c.attempt.windowKey
  | .expire => s.expire c.attempt.windowKey
  | .put cur => s.put c.attempt.windowKey (cur + 1)
  | _ => s

/-- The rest of the call, once its command on the store `s` is answered. -/
def next (cfg : LimitConfig) (c : LimitCall) (s : LimitStore) : Progress :=
  let a := c.attempt
  let limit := cfg.limit a.kind
  let untilMinute : Int := 60 - (a.nowSec % 60 : Nat)
  match c.pc with
  | .incr =>
    let count := (s.redis.get a.windowKey).getD 0 + 1
    .call ⟨a, if count = 1 then .expire else .ttl count⟩
  | .expire => .call ⟨a, .ttl 1⟩
  | .ttl count =>
    let ttl := s.ttl a.windowKey
    .answer ⟨a, count, limitReply limit count (if 0 < ttl then ttl else untilMinute), s.now⟩
  | .get => .call ⟨a, .put ((s.kv.get a.windowKey).getD 0)⟩
  | .put cur => .answer ⟨a, cur + 1, limitReply limit (cur + 1) untilMinute, s.now⟩

end LimitCall

structure LimitSys where
  store : LimitStore
  calls : List LimitCall
  answers : List LimitAnswer

def LimitSys.start (now : Nat) : LimitSys := ⟨⟨now, fun _ => none, fun _ => none⟩, [], []⟩

inductive LimitMove
  | tick (ms : Nat)
  | enter (kind : LimitKind) (id : String)
  | exec (c : LimitCall) (fate : CallFate)

inductive LimitStep (cfg : LimitConfig) : LimitSys → LimitMove → LimitSys → Prop
  | tick {s : LimitSys} (ms : Nat) : LimitStep cfg s (.tick ms) { s with store := s.store.advance ms }
  | enter {s : LimitSys} (kind : LimitKind) (id : String) : LimitStep cfg s (.enter kind id)
      { s with calls := .start cfg ⟨kind, id, s.store.now⟩ :: s.calls }
  | goes_on {st : LimitStore} {l r : List LimitCall} {c c' : LimitCall} {answers : List LimitAnswer}
      (h : c.next cfg st = .call c') : LimitStep cfg ⟨st, l ++ c :: r, answers⟩ (.exec c .answered)
      ⟨c.effect st, l ++ c' :: r, answers⟩
  | answers {st : LimitStore} {l r : List LimitCall} {c : LimitCall} {a : LimitAnswer}
      {answers : List LimitAnswer} (h : c.next cfg st = .answer a) :
      LimitStep cfg ⟨st, l ++ c :: r, answers⟩ (.exec c .answered) ⟨c.effect st, l ++ r, a :: answers⟩
  | throws {st : LimitStore} {l r : List LimitCall} {c : LimitCall} {fate : CallFate}
      {answers : List LimitAnswer} (h : fate ≠ .answered) :
      LimitStep cfg ⟨st, l ++ c :: r, answers⟩ (.exec c fate)
      ⟨if fate = .failedAfter then c.effect st else st, l ++ r, answers⟩

end CrowdTic
