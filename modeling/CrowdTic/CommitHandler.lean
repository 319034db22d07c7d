import CrowdTic.World

/-! `POST /api/commit` (`internal/handler/commit.go`), cut at its calls to the
stores. `InsertOrderTx` is two points: its `SELECT`, and its `INSERT`s up to
the commit of the transaction. -/

namespace CrowdTic

structure CommitRequest (U : Type) where
  holdId : String
  idempotencyKey : String
  seatIds : List String
  required : holdId ≠ "" ∧ idempotencyKey ≠ ""
  queueUserId : String
  queueEventId : String
  draw : U
  nowMs : Int
  deriving DecidableEq

inductive CommitResponse (U : Type)
  | error (status : Nat) (msg : String)
  | idempotent (orderId : U)
  | paid (orderId : U) (total : Int)
  | accepted (orderId : U)
  deriving DecidableEq

inductive CommitPc (U : Type)
  | idempotency
  | seats
  | category (seatIds : List String)
  | script (seatIds : List String) (catId : U)
  | price (seatIds : List String) (catId : U)
  | select (seatIds : List String) (unitPrice : Int)
  | insert (seatIds : List String) (unitPrice : Int) (createdAt : Int)
  | done (res : CommitResponse U)
  deriving DecidableEq

def CommitPc.Storing {U : Type} : CommitPc U → Prop
  | .select _ _ => True
  | .insert _ _ _ => True
  | _ => False

def CommitResponse.orderId {U : Type} : CommitResponse U → Option U
  | .error _ _ => none
  | .idempotent o => some o
  | .paid o _ => some o
  | .accepted o => some o

def CommitResponse.placed {U : Type} : CommitResponse U → Option U
  | .paid o _ => some o
  | .accepted o => some o
  | _ => none

namespace CommitRequest

variable {U : Type} (L : UuidLib U) (q : CommitRequest U)

def userId : U := L.value q.queueUserId
def eventUuid : U := L.value q.queueEventId
def idem : U := L.value q.idempotencyKey

def invKey (catId : U) : String := inventoryKey q.queueEventId (L.str catId)
def seatKeys (seatIds : List String) : List String := seatIds.map (seatKey q.queueEventId)

def args : CommitArgs where
  holdId := q.holdId
  userId := L.str (q.userId L)
  eventId := q.queueEventId
  orderId := L.str q.draw
  soldAt := q.nowMs

def exec (seatIds : List String) (catId : U) (r : Redis) : Reply × Redis :=
  commitSrc r (q.invKey L catId) (q.seatKeys seatIds) (q.args L)

/-- `unitPrice * int64(len(req.SeatIDs))` -/
def total (seatIds : List String) (unitPrice : Int) : Int :=
  (unitPrice * seatIds.length).bmod (2 ^ 64)

def order (seatIds : List String) (unitPrice createdAt : Int) : Order U where
  id := q.draw
  holdId := q.holdId
  userId := q.userId L
  eventId := q.eventUuid L
  totalAmount := total seatIds unitPrice
  status := .paid
  idempotencyKey := q.idem L
  createdAt := createdAt

def items (seatIds : List String) (unitPrice : Int) : List (U × Int) :=
  (L.parsed seatIds).map (·, unitPrice)

def checkSeats (seatIds : List String) : CommitPc U :=
  if seatIds.length = 0 then .done (.error 400 "seat_ids required or hold not found")
  else .category seatIds

section Step

variable [DecidableEq U] (w : World U)

def insertOrder (seatIds : List String) (unitPrice createdAt : Int) : Option (Db U) :=
  w.db.insertOrder (q.order L seatIds unitPrice createdAt) (items L seatIds unitPrice)

/-- The price of the category, or 0 when it cannot be read. -/
def unitPrice (f : Fault) (catId : U) : Int :=
  match f.answer (w.db.selectPrice catId) with
  | some (some price) => price
  | _ => 0

def effect : CommitPc U → World U
  | .script seatIds catId => { w with redis := (q.exec L seatIds catId w.redis).2 }
  | .insert seatIds unitPrice createdAt =>
    { w with db := (q.insertOrder L w seatIds unitPrice createdAt).getD w.db }
  | _ => w

def resume (f : Fault) (scan : Scan U) : CommitPc U → CommitPc U
  | .idempotency =>
    match f.answer (Db.checkIdempotency scan.orders (q.idem L) (q.userId L)) with
    | some (some existing) => .done (.idempotent existing)
    | _ => if q.seatIds.length = 0 then .seats else .category q.seatIds
  | .seats =>
    match f.answer (w.db.getReservation q.holdId) with
    | some (some res) => checkSeats (res.seatIds.map L.str)
    | _ => checkSeats []
  | .category seatIds =>
    let catId := match f.answer (w.db.getReservation q.holdId) with
      | some (some res) => res.categoryId
      | _ => L.zero
    if catId = L.zero then .done (.error 404 "reservation not found") else .script seatIds catId
  | .script seatIds catId =>
    match f.script (q.exec L seatIds catId w.redis).1 with
    | .error msg => .done (.error 409 msg)
    | .ok _ => .price seatIds catId
  | .price seatIds catId => .select seatIds (unitPrice w f catId)
  | .select seatIds unitPrice =>
    match f.answer (Db.checkIdempotency scan.orders (q.idem L) (q.userId L)) with
    -- a failed statement aborts the transaction, so the INSERT would fail too
    | none => .done (.accepted q.draw)
    | some (some _) => .done (.paid q.draw (total seatIds unitPrice))
    | some none => .insert seatIds unitPrice w.db.now
  | .insert seatIds unitPrice createdAt =>
    match f.answer (q.insertOrder L w seatIds unitPrice createdAt) with
    | some (some _) => .done (.paid q.draw (total seatIds unitPrice))
    | _ => .done (.accepted q.draw)
  | .done res => .done res

inductive Turn (f : Fault) (scan : Scan U) : CommitPc U → CommitPc U → Prop
  | known {o : U} (hf : f = .none)
      (ho : Db.checkIdempotency scan.orders (q.idem L) (q.userId L) = some o) :
      Turn f scan .idempotency (.done (.idempotent o))
  | unlisted (he : q.seatIds = []) : Turn f scan .idempotency .seats
  | listed (he : q.seatIds ≠ []) : Turn f scan .idempotency (.category q.seatIds)
  | seatless {msg : String} : Turn f scan .seats (.done (.error 400 msg))
  | seated {res : Reservation U} (hf : f = .none)
      (hres : w.db.getReservation q.holdId = some res) :
      Turn f scan .seats (.category (res.seatIds.map L.str))
  | lost {ss : List String} {msg : String} : Turn f scan (.category ss) (.done (.error 404 msg))
  | found {ss : List String} {res : Reservation U} (hf : f = .none)
      (hres : w.db.getReservation q.holdId = some res) :
      Turn f scan (.category ss) (.script ss res.categoryId)
  | refused {ss : List String} {catId : U} {msg : String} :
      Turn f scan (.script ss catId) (.done (.error 409 msg))
  | ran {ss : List String} {catId : U} (hf : f = .none)
      (hok : ledger w.redis (q.args L) ≠ none ∨ CommitRuns w.redis (q.seatKeys ss) (q.args L)) :
      Turn f scan (.script ss catId) (.price ss catId)
  | priced {ss : List String} {catId : U} :
      Turn f scan (.price ss catId) (.select ss (unitPrice w f catId))
  | broken {ss : List String} {up : Int} (hf : f ≠ .none) :
      Turn f scan (.select ss up) (.done (.accepted q.draw))
  | duplicate {ss : List String} {up : Int} {o : U} (hf : f = .none)
      (ho : Db.checkIdempotency scan.orders (q.idem L) (q.userId L) = some o) :
      Turn f scan (.select ss up) (.done (.paid q.draw (total ss up)))
  | begun {ss : List String} {up : Int} (hf : f = .none)
      (ho : Db.checkIdempotency scan.orders (q.idem L) (q.userId L) = none) :
      Turn f scan (.select ss up) (.insert ss up w.db.now)
  | inserted {ss : List String} {up ca : Int} {db' : Db U} (hf : f = .none)
      (hdb : q.insertOrder L w ss up ca = some db') :
      Turn f scan (.insert ss up ca) (.done (.paid q.draw (total ss up)))
  | pending {ss : List String} {up ca : Int}
      (hfail : f = .none → q.insertOrder L w ss up ca = none) :
      Turn f scan (.insert ss up ca) (.done (.accepted q.draw))
  | stay {res : CommitResponse U} : Turn f scan (.done res) (.done res)

variable {L q w}

theorem turn_resume (f : Fault) (scan : Scan U) (pc : CommitPc U) :
    Turn L q w f scan pc (q.resume L w f scan pc) := by
  cases pc with
  | idempotency =>
    simp only [resume]
    split
    · next h =>
      obtain ⟨hf, ho⟩ := Fault.answer_eq_some_iff.mp h
      exact .known hf ho
    · by_cases he : q.seatIds = []
      · rw [if_pos (List.length_eq_zero_iff.mpr he)]
        exact .unlisted he
      · rw [if_neg (fun hn => he (List.length_eq_zero_iff.mp hn))]
        exact .listed he
  | seats =>
    simp only [resume]
    split
    · next res h =>
      obtain ⟨hf, hres⟩ := Fault.answer_eq_some_iff.mp h
      by_cases he : (res.seatIds.map L.str).length = 0
      · rw [checkSeats, if_pos he]
        exact .seatless
      · rw [checkSeats, if_neg he]
        exact .seated hf hres
    · exact .seatless
  | category ss =>
    simp only [resume]
    split
    · next res h =>
      obtain ⟨hf, hres⟩ := Fault.answer_eq_some_iff.mp h
      by_cases hz : res.categoryId = L.zero
      · rw [if_pos hz]
        exact .lost
      · rw [if_neg hz]
        exact .found hf hres
    · rw [if_pos rfl]
      exact .lost
  | script ss catId =>
    simp only [resume]
    split
    · exact .refused
    · next h =>
      obtain ⟨hf, hok⟩ := Fault.script_eq_ok_iff.mp h
      refine .ran hf ?_
      cases hl : ledger w.redis (q.args L) with
      | some o => exact .inl (Option.some_ne_none o)
      | none =>
        cases hr : commitRefusal w.redis (q.seatKeys ss) (q.args L) with
        | none => exact .inr ⟨hl, hr⟩
        | some e => simp [exec, commitSrc, hl, hr] at hok
  | price ss catId => exact .priced
  | select ss up =>
    simp only [resume]
    split
    · next h => exact .broken fun hf => by simp [hf, Fault.answer] at h
    · next h =>
      obtain ⟨hf, ho⟩ := Fault.answer_eq_some_iff.mp h
      exact .duplicate hf ho
    · next h =>
      obtain ⟨hf, ho⟩ := Fault.answer_eq_some_iff.mp h
      exact .begun hf ho
  | insert ss up ca =>
    simp only [resume]
    split
    · next h =>
      obtain ⟨hf, hdb⟩ := Fault.answer_eq_some_iff.mp h
      exact .inserted hf hdb
    · next h =>
      refine .pending fun hf => ?_
      cases hdb : q.insertOrder L w ss up ca with
      | none => rfl
      | some db' => exact absurd (by rw [hf, hdb]; rfl) (h db')
  | done res => exact .stay

theorem Turn.answered {f : Fault} {scan : Scan U} {pc : CommitPc U} {r : CommitResponse U} {x : U}
    (h : Turn L q w f scan pc (.done r))
    (hx : r.orderId = some x) : pc = .done r ∨ pc.Storing ∧ r.placed = some x ∧ x = q.draw ∨
      pc = .idempotency ∧ f = .none ∧
        Db.checkIdempotency scan.orders (q.idem L) (q.userId L) = some x := by
  cases h with
  | known hf ho => exact .inr (.inr ⟨rfl, hf, ho.trans hx⟩)
  | stay => exact .inl rfl
  | broken | duplicate | inserted | pending =>
    obtain rfl := Option.some.inj hx
    exact .inr (.inl ⟨trivial, rfl, rfl⟩)
  | _ => simp [CommitResponse.orderId] at hx

end Step

end CommitRequest

end CrowdTic
