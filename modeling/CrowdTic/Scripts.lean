import CrowdTic.Keys
import CrowdTic.Redis

/-! The hold, release and commit scripts embedded in the booking service
(`internal/redis/lua.go`). `KEYS[1]` is the inventory key, `KEYS[2..]` the
seat keys, and `need` is the number of seat keys. -/

namespace CrowdTic

/-- The table a script returns, with the fields beside `ok`. -/
inductive Reply
  | ok (status : String) (fields : List (String × String))
  | err (msg : String)
  deriving DecidableEq

structure HoldArgs where
  userId : String
  holdId : String
  ttl : ℕ+
  expiresAt : Int
  maxPerUser : Int
  eventId : String

/-- The checks of the hold script, all made before its first write. -/
def holdRefusal (r : Redis) (invKey : String) (seatKeys : List String) (a : HoldArgs) :
    Option String :=
  match r.hashes.hgetNum invKey .available with
  | none => some "INV_NOT_FOUND"
  | some available =>
    let need : Int := seatKeys.length
    let cur := (r.counters.get (limitKey a.eventId a.userId)).getD 0
    if available < need then some "SOLD_OUT"
    else if a.maxPerUser < cur + need then some "LIMIT_EXCEEDED"
    else (seatKeys.find? fun k => r.hashes.hget k .status ≠ some "AVAILABLE").map
      ("SEAT_TAKEN:" ++ ·)

def millis (sec : ℕ+) : ℕ+ := sec * 1000

/-- 24 h. -/
def daySec : ℕ+ := 86400

def holdSeat (a : HoldArgs) (r : Redis) (k : String) : Redis :=
  ((((r.hset k .status "HELD").hset k .heldBy a.userId).hset k .holdId a.holdId).hsetNum
    k .expiresAt a.expiresAt).pexpire k (millis a.ttl)

def holdWrites (r : Redis) (invKey : String) (seatKeys : List String) (a : HoldArgs) : Redis :=
  let need : Int := seatKeys.length
  let key := holdKey a.eventId a.holdId
  let limit := limitKey a.eventId a.userId
  let r := seatKeys.foldl (holdSeat a) r
  let r := (r.hincrby invKey .available (-need)).hincrby invKey .held need
  let r := (r.incrby limit need).expireCounter limit daySec
  let r := ((r.hset key .userId a.userId).hset key .seats (",".intercalate seatKeys)).hsetNum
    key .expiresAt a.expiresAt
  r.pexpire key (millis a.ttl)

def holdSrc (r : Redis) (invKey : String) (seatKeys : List String) (a : HoldArgs) :
    Reply × Redis :=
  match holdRefusal r invKey seatKeys a with
  | some e => (.err e, r)
  | none => (.ok "HELD" [("hold_id", a.holdId)], holdWrites r invKey seatKeys a)

structure ReleaseArgs where
  holdId : String
  userId : String
  eventId : String

def releaseSeat (a : ReleaseArgs) (r : Redis) (k : String) : Redis :=
  if r.hashes.hget k .holdId = some a.holdId then
    ((((r.hset k .status "AVAILABLE").hdel k .heldBy).hdel k .holdId).hdelNum k .expiresAt).persist k
  else r

def releaseWrites (r : Redis) (invKey : String) (seatKeys : List String) (a : ReleaseArgs) :
    Redis :=
  let need : Int := seatKeys.length
  let r := seatKeys.foldl (releaseSeat a) r
  let r := (r.hincrby invKey .available need).hincrby invKey .held (-need)
  let r := r.incrby (limitKey a.eventId a.userId) (-need)
  r.del (holdKey a.eventId a.holdId)

def releaseSrc (r : Redis) (invKey : String) (seatKeys : List String) (a : ReleaseArgs) :
    Reply × Redis :=
  (.ok "RELEASED" [], releaseWrites r invKey seatKeys a)

structure CommitArgs where
  holdId : String
  userId : String
  eventId : String
  orderId : String
  soldAt : Int

def ledger (r : Redis) (a : CommitArgs) : Option String :=
  r.strings.get (orderHoldKey a.eventId a.holdId)

def commitAccepts (r : Redis) (a : CommitArgs) (k : String) : Bool :=
  let st := r.hashes.hget k .status
  let hd := r.hashes.hget k .holdId
  let hb := r.hashes.hget k .heldBy
  if st = some "SOLD" ∧ hd = some a.holdId ∧ hb = some a.userId then true
  else if st ≠ some "HELD" ∨ hd ≠ some a.holdId ∨ hb ≠ some a.userId then false
  else true

def commitRefusal (r : Redis) (seatKeys : List String) (a : CommitArgs) : Option String :=
  (seatKeys.find? fun k => !commitAccepts r a k).map fun k =>
    "HOLD_INVALID:" ++ k ++ ":" ++ (r.hashes.hget k .status).getD "nil"

def commitSeat (a : CommitArgs) (r : Redis) (k : String) : Redis :=
  if r.hashes.hget k .status = some "HELD" then
    ((r.hset k .status "SOLD").hsetNum k .soldAt a.soldAt).persist k
  else r

def commitWrites (r : Redis) (invKey : String) (seatKeys : List String) (a : CommitArgs) : Redis :=
  let need : Int := seatKeys.length
  let r := seatKeys.foldl (commitSeat a) r
  let r := (r.hincrby invKey .held (-need)).hincrby invKey .sold need
  let r := r.setEx (orderHoldKey a.eventId a.holdId) a.orderId daySec
  let r := r.setEx (orderKey a.eventId a.orderId) a.holdId daySec
  r.del (holdKey a.eventId a.holdId)

def commitSrc (r : Redis) (invKey : String) (seatKeys : List String) (a : CommitArgs) :
    Reply × Redis :=
  match ledger r a with
  | some existing => (.ok "ALREADY_COMMITTED" [("order_id", existing)], r)
  | none =>
    match commitRefusal r seatKeys a with
    | some e => (.err e, r)
    | none => (.ok "COMMITTED" [("order_id", a.orderId)], commitWrites r invKey seatKeys a)

end CrowdTic
