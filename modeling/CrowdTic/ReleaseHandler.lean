import CrowdTic.World

/-! `DELETE /api/hold/:holdId` and the reaper (`internal/handler/release.go`),
cut at their calls to the stores. -/

namespace CrowdTic

namespace Reservation

variable {U : Type} (L : UuidLib U) (res : Reservation U)

def invKey : String := inventoryKey (L.str res.eventId) (L.str res.categoryId)

def seatKeys : List String := res.seatIds.map fun sid => seatKey (L.str res.eventId) (L.str sid)

theorem seatKeys_shaped : ∀ k ∈ res.seatKeys L, ∃ s, k = seatKey (L.str res.eventId) s := by
  intro k hk
  obtain ⟨u, _, rfl⟩ := List.mem_map.mp hk
  exact ⟨L.str u, rfl⟩

def releaseArgs : ReleaseArgs where
  holdId := res.holdId
  userId := L.str res.userId
  eventId := L.str res.eventId

def release (r : Redis) : Redis := (releaseSrc r (res.invKey L) (res.seatKeys L) (res.releaseArgs L)).2

end Reservation

/-- The path parameter, and the user of the queue token. -/
structure ReleaseRequest where
  holdId : String
  queueUserId : String
  deriving DecidableEq

inductive ReleaseResponse
  | error (status : Nat) (msg : String)
  | released (holdId : String)
  deriving DecidableEq

inductive ReleasePc (U : Type)
  | get
  | script (res : Reservation U)
  | delete (res : Reservation U)
  | done (res : ReleaseResponse)
  deriving DecidableEq

inductive SweepPc (U : Type)
  | fetch
  | script (res : Reservation U) (rest : List (Reservation U))
  | delete (res : Reservation U) (rest : List (Reservation U))
  | done (fetched : Bool)
  deriving DecidableEq

namespace ReleaseRequest

variable {U : Type} (L : UuidLib U) (q : ReleaseRequest)

def start : ReleasePc U :=
  if q.holdId = "" then .done (.error 400 "holdId required") else .get

def NotOwner (res : Reservation U) : Prop :=
  q.queueUserId ≠ "" ∧ (L.parse q.queueUserId).2 = true ∧ L.value q.queueUserId ≠ res.userId

variable [DecidableEq U]

instance (res : Reservation U) : Decidable (q.NotOwner L res) :=
  inferInstanceAs (Decidable (_ ∧ _ ∧ _))

def effect (w : World U) : ReleasePc U → World U
  | .script res => { w with redis := res.release L w.redis }
  | .delete res => { w with db := (w.db.deleteReservation res.holdId).getD w.db }
  | _ => w

def resume (w : World U) (f : Fault) : ReleasePc U → ReleasePc U
  | .get =>
    match f.answer (w.db.getReservation q.holdId) with
    | none => .done (.error 500 "internal error")
    | some none => .done (.error 404 "hold not found")
    | some (some res) =>
      if q.NotOwner L res then .done (.error 403 "not owner") else .script res
  | .script res =>
    match f.answer () with
    | none => .done (.error 500 "failed to release")
    | some _ => .delete res
  | .delete _ => .done (.released q.holdId)
  | .done res => .done res

end ReleaseRequest

namespace SweepPc

variable {U : Type} (L : UuidLib U)

def batchSize : Nat := 100

def start : SweepPc U := .fetch

def next : List (Reservation U) → SweepPc U
  | [] => .done true
  | res :: rest => .script res rest

variable [DecidableEq U]

def effect (w : World U) : SweepPc U → World U
  | .script res _ => { w with redis := res.release L w.redis }
  | .delete res _ => { w with db := (w.db.deleteReservation res.holdId).getD w.db }
  | _ => w

/-- The reaper drops the errors of both calls. -/
def resume (w : World U) (f : Fault) (scan : Scan U) : SweepPc U → SweepPc U
  | .fetch =>
    match f.answer (w.db.expiredReservations scan.reservations batchSize) with
    | none => .done false
    | some batch => next batch
  | .script res rest => .delete res rest
  | .delete _ rest => next rest
  | .done fetched => .done fetched

end SweepPc

end CrowdTic
