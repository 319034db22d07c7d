import CrowdTic.World

/-! `POST /api/hold` (`internal/handler/hold.go`). The handler is cut at its
calls to the stores: a point of `HoldPc` is the call that comes next. -/

namespace CrowdTic

/-- The bound body, the two ids of the queue token, and what the handler
draws from the clock and from `uuid.NewString`. -/
structure HoldRequest (U : Type) where
  eventId : String
  categoryId : String
  seatIds : List String
  idempotencyKey : String
  required : eventId ≠ "" ∧ categoryId ≠ "" ∧ idempotencyKey ≠ ""
  queueUserId : String
  queueEventId : String
  draw : U
  nowMs : Int
  deriving DecidableEq

inductive HoldResponse (U : Type)
  | error (status : Nat) (msg : String)
  | idempotent (orderId : U)
  | held (holdId : String) (expiresAtMs : Int) (ttlSec : ℕ+) (seats : Nat)
  deriving DecidableEq

inductive HoldPc (U : Type)
  | idempotency
  | event
  | script (maxPerUser : Nat)
  | mirror
  | done (res : HoldResponse U)
  deriving DecidableEq

def contains (s sub : String) : Bool := decide (sub.toList <:+: s.toList)

def holdErrorStatus (msg : String) : Nat :=
  if contains msg "SOLD_OUT" then 409
  else if contains msg "LIMIT_EXCEEDED" then 429
  else if contains msg "SEAT_TAKEN" then 409
  else if contains msg "INV_NOT_FOUND" then 404
  else 409

namespace HoldRequest

variable {U : Type} (L : UuidLib U) (ttl : ℕ+) (q : HoldRequest U)

def userId : U := L.value q.queueUserId
def eventUuid : U := L.value q.eventId
def catId : U := L.value q.categoryId
def idem : U := L.value q.idempotencyKey
def holdId : String := L.str q.draw
def expiresAtMs : Int := q.nowMs + ttl * 1000

def invKey : String := inventoryKey q.eventId q.categoryId
def seatKeys : List String := q.seatIds.map (seatKey q.eventId)

def args (maxPerUser : Nat) : HoldArgs where
  userId := L.str (q.userId L)
  holdId := q.holdId L
  ttl := ttl
  expiresAt := q.expiresAtMs ttl
  maxPerUser := maxPerUser
  eventId := q.eventId

def exec (maxPerUser : Nat) (r : Redis) : Reply × Redis :=
  holdSrc r q.invKey q.seatKeys (q.args L ttl maxPerUser)

/-- The row that mirrors the hold. It keeps the seat ids that parse. -/
def reservation : Reservation U where
  holdId := q.holdId L
  userId := q.userId L
  eventId := q.eventUuid L
  categoryId := q.catId L
  seatIds := L.parsed q.seatIds
  expiresAt := q.expiresAtMs ttl * 1000

@[simp] theorem reservation_holdId : (q.reservation L ttl).holdId = q.holdId L := rfl

def start : HoldPc U :=
  if q.queueEventId ≠ q.eventId then .done (.error 403 "queue token event mismatch")
  else if (L.parse q.queueUserId).2 = false then .done (.error 400 "invalid user in queue token")
  else .idempotency

theorem start_cases : q.start L = .idempotency ∨ ∃ res, q.start L = .done res := by
  by_cases h1 : q.queueEventId ≠ q.eventId
  · exact .inr ⟨_, if_pos h1⟩
  · by_cases h2 : (L.parse q.queueUserId).2 = false
    · exact .inr ⟨_, (if_neg h1).trans (if_pos h2)⟩
    · exact .inl ((if_neg h1).trans (if_neg h2))

section Step

variable [DecidableEq U] (w : World U)

def effect : HoldPc U → World U
  | .script maxPerUser => { w with redis := (q.exec L ttl maxPerUser w.redis).2 }
  | .mirror => { w with db := (w.db.insertReservation (q.reservation L ttl)).getD w.db }
  | _ => w

/-- The limit of the event, or 4 when the event cannot be read. -/
def maxPerUser (f : Fault) : Nat :=
  match f.answer (w.db.getEvent (q.eventUuid L)) with
  | some (some m) => m
  | _ => 4

def checkCount (maxPerUser : Nat) : HoldPc U :=
  if q.seatIds.length = 0 ∨ maxPerUser < q.seatIds.length then
    .done (.error 400 ("seat count must be 1.." ++ toString maxPerUser))
  else .script maxPerUser

def resume (f : Fault) (scan : Scan U) : HoldPc U → HoldPc U
  | .idempotency =>
    match f.answer (Db.checkIdempotency scan.orders (q.idem L) (q.userId L)) with
    | some (some existing) => .done (.idempotent existing)
    | _ => .event
  | .event => q.checkCount (q.maxPerUser L w f)
  | .script maxPerUser =>
    match f.script (q.exec L ttl maxPerUser w.redis).1 with
    | .error msg => .done (.error (holdErrorStatus msg) msg)
    | .ok _ => .mirror
  | .mirror => .done (.held (q.holdId L) (q.expiresAtMs ttl) ttl q.seatIds.length)
  | .done res => .done res

inductive Turn (f : Fault) (scan : Scan U) : HoldPc U → HoldPc U → Prop
  | known {o : U} (hf : f = .none)
      (ho : Db.checkIdempotency scan.orders (q.idem L) (q.userId L) = some o) :
      Turn f scan .idempotency (.done (.idempotent o))
  | unknown : Turn f scan .idempotency .event
  | miscounted {msg : String} : Turn f scan .event (.done (.error 400 msg))
  | counted {m : Nat} (hne : q.seatIds ≠ []) : Turn f scan .event (.script m)
  | refused {m status : Nat} {msg : String} :
      Turn f scan (.script m) (.done (.error status msg))
  | locked {m : Nat} (hf : f = .none)
      (href : holdRefusal w.redis q.invKey q.seatKeys (q.args L ttl m) = none) :
      Turn f scan (.script m) .mirror
  | answered : Turn f scan .mirror
      (.done (.held (q.holdId L) (q.expiresAtMs ttl) ttl q.seatIds.length))
  | stay {res : HoldResponse U} : Turn f scan (.done res) (.done res)

variable {L ttl q w}

theorem turn_resume (f : Fault) (scan : Scan U) (pc : HoldPc U) :
    Turn L ttl q w f scan pc (q.resume L ttl w f scan pc) := by
  cases pc with
  | idempotency =>
    simp only [resume]
    split
    · next h =>
      obtain ⟨hf, ho⟩ := Fault.answer_eq_some_iff.mp h
      exact .known hf ho
    · exact .unknown
  | event =>
    by_cases h : q.seatIds.length = 0 ∨ q.maxPerUser L w f < q.seatIds.length
    · rw [resume, checkCount, if_pos h]
      exact .miscounted
    · rw [resume, checkCount, if_neg h]
      exact .counted fun hn => h (.inl (List.length_eq_zero_iff.mpr hn))
  | script m =>
    simp only [resume]
    split
    · exact .refused
    · next h =>
      obtain ⟨hf, hok⟩ := Fault.script_eq_ok_iff.mp h
      refine .locked hf ?_
      cases href : holdRefusal w.redis q.invKey q.seatKeys (q.args L ttl m) with
      | none => rfl
      | some e => simp [exec, holdSrc, href] at hok
  | mirror => exact .answered
  | done res => exact .stay

end Step

end HoldRequest

end CrowdTic
