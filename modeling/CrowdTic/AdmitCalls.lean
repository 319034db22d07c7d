import CrowdTic.RemoteCalls
import CrowdTic.RoomRuns

/-! One `handleAdmit` of the waiting room, call by call on both backends. Each
call to the store may fail, and each is made at a time of its own. -/

namespace CrowdTic

open Ranked Remote

/-- The calls of the run by what they are for; the last two and the loop count theirs. -/
inductive AdmitCall
  | poolSize
  | activeSize
  | range
  /-- The pipeline of the shuffle, on KV its first `put`. -/
  | pipeline
  | putPool
  | putMark
  | card
  | getBucket
  | setBucket
  /-- `ZPOPMIN` with the count, on KV the `get` of the queue. -/
  | popMin
  | popOne (i : Nat)
  | putQueue
  | getMark
  | setMark
  | setJti (i : Nat)
  deriving DecidableEq

/-- The store with the users that it has removed from the active queue, the first one in front,
and the tokens that calls have taken from the bucket. -/
structure AdmitServer where
  room : Room
  popped : List String
  debited : ℚ

/-- The network of a run, and the form in which the store answers a `ZPOPMIN`. -/
structure AdmitLink where
  net : Network AdmitCall
  nested : Bool
  scoreText : ℚ → String

inductive PopReply
  | flat (items : List String)
  | nested (pairs : List (List String))

def everyOther : List String → List String
  | [] => []
  | [a] => [a]
  | a :: _ :: l => a :: everyOther l

namespace PopReply

def of (link : AdmitLink) (popped : List Entry) : PopReply :=
  if link.nested then .nested (popped.map fun e => [e.member, link.scoreText e.score])
  else .flat (popped.flatMap fun e => [e.member, link.scoreText e.score])

def users : PopReply → List String
  | .flat items => everyOther items
  | .nested pairs => pairs.map fun pair => pair.headD "undefined"

def user : PopReply → Option String
  | .flat items => items.head?
  | .nested pairs => pairs.head?.map fun pair => pair.headD "undefined"

end PopReply

def AdmitServer.SameCounts (s s' : AdmitServer) : Prop :=
  s'.popped = s.popped ∧ s'.debited = s.debited

def AdmitServer.setRoom (s : AdmitServer) (room : Room) : AdmitServer := { s with room }

def AdmitServer.popMin (s : AdmitServer) (k : Nat) : List Entry × AdmitServer :=
  (s.room.active.take k,
    { s with
      room := { s.room with active := s.room.active.drop k }
      popped := s.popped ++ members (s.room.active.take k) })

section Program

variable (cfg : RoomConfig) (link : AdmitLink)

/-- The order of a shuffled pool, each member with the place that its score is counted from. -/
def shuffledOrder (draws : Nat → Draw) (members : List String) : List (String × Nat) :=
  (shuffleInPlace draws members).zipIdx

def shuffleOnRedis (draws : Nat → Draw) : Remote AdmitServer Bool := do
  let pSize ← call link.net .poolSize fun _ s => (s.room.pool.length, s)
  let aSize ← call link.net .activeSize fun _ s => (s.room.active.length, s)
  if pSize = 0 then return false
  else if 0 < aSize then return false
  else
    let found ← call link.net .range fun _ s => (members s.room.pool, s)
    if found.length = 0 then return false
    else
      call link.net .pipeline fun now s => ((), s.setRoom
        { s.room with
          active := (shuffledOrder draws found).foldl (fun q x => zadd q x.1 (now + x.2 : Nat))
            s.room.active
          pool := []
          admitted := some ⟨0, some (now + 3600000)⟩ })
      return true

def shuffleOnKv (draws : Nat → Draw) : Remote AdmitServer Bool := do
  let pool ← call link.net .poolSize fun _ s => (s.room.pool, s)
  let active ← call link.net .activeSize fun _ s => (s.room.active, s)
  if pool.length = 0 then return false
  else if 0 < active.length then return false
  else
    call link.net .pipeline fun now s => ((), s.setRoom
      { s.room with
        active := (shuffledOrder draws (members pool)).map fun x => ⟨x.1, (now + x.2 : Nat)⟩ })
    call link.net .putPool fun _ s => ((), s.setRoom { s.room with pool := [] })
    call link.net .putMark fun now s => ((), s.setRoom
      { s.room with admitted := some ⟨0, some (now + 3600000)⟩ })
    return true

def shuffleCalls (draws : Nat → Draw) : Remote AdmitServer Bool :=
  match cfg.backend with
  | .redis => shuffleOnRedis link draws
  | .kv => shuffleOnKv link draws

/-- On Redis a failing `GET` reads as a missing key. -/
def readBucket : Remote AdmitServer (Option BucketState) :=
  let get : Remote AdmitServer (Option BucketState) :=
    call link.net .getBucket fun now s => (Expiring.live s.room.bucket now, s)
  match cfg.backend with
  | .redis => tryCatch get fun _ => pure none
  | .kv => get

def bucketCalls (need : ℚ) : Remote AdmitServer BucketReply := do
  let now := link.net.clock .getBucket
  let state ← readBucket cfg link
  let out := tokenBucketConsume cfg.fl cfg.rate state now need
  call link.net .setBucket fun now' s => ((),
    { s with
      room := { s.room with bucket := some ⟨out.2, some (now' + 120000)⟩ }
      debited := if out.1.allowed then s.debited + need else s.debited })
  return out.1

/-- The loop behind a `ZPOPMIN` that has failed, from round `i` on, with `left` rounds to go. -/
def popLoop (i : Nat) : Nat → List String → Remote AdmitServer (List String)
  | 0, admittedUsers => return admittedUsers
  | left + 1, admittedUsers => do
    let one ← call link.net (.popOne i) fun _ s => (PopReply.of link (s.popMin 1).1, (s.popMin 1).2)
    match one.user with
    | none => return admittedUsers
    | some user => popLoop (i + 1) left (admittedUsers ++ [user])

/-- Redis refuses a count that is not whole, and has popped nobody then. -/
def popOnRedis (want : ℚ) : Remote AdmitServer (List String) :=
  let zpopmin : Remote AdmitServer (List String) := do
    if want.den = 1 then
      let popped ← call link.net .popMin fun _ s =>
        (PopReply.of link (s.popMin want.num.toNat).1, (s.popMin want.num.toNat).2)
      return popped.users
    else throw ()
  tryCatch zpopmin fun _ => popLoop link 0 ⌈want⌉.toNat []

/-- `splice` cuts the count down to a whole number. -/
def popOnKv (want : ℚ) : Remote AdmitServer (List String) := do
  let raw ← call link.net .popMin fun _ s => (s.room.active, s)
  let sorted := sortByScore raw
  let take := sorted.take ⌊want⌋.toNat
  call link.net .putQueue fun _ s => ((),
    { s with
      room := { s.room with active := sorted.drop ⌊want⌋.toNat }
      popped := s.popped ++ members take })
  return members take

def popCalls (want : ℚ) : Remote AdmitServer (List String) :=
  match cfg.backend with
  | .redis => popOnRedis link want
  | .kv => popOnKv link want

/-- One token after the other. The allowlist of the `jti`s is no part of the room. -/
def issueTokens (i : Nat) : List String → Remote AdmitServer (List String)
  | [] => return []
  | uid :: rest =>
    if cfg.jwtSecret = "" then throw ()
    else do
      call link.net (.setJti i) fun _ s => ((), s)
      let tokens ← issueTokens (i + 1) rest
      return uid :: tokens

def markAndSign (admittedUsers : List String) (remaining : Int) : Remote AdmitServer AdmitReply := do
  let cur ← call link.net .getMark fun now s => (s.room.watermark now, s)
  let watermark := cur + admittedUsers.length
  call link.net .setMark fun now s => ((), s.setRoom
    { s.room with admitted := some ⟨watermark, some (now + 3600000)⟩ })
  let tokens ← issueTokens cfg link 0 admittedUsers
  return .admitted watermark remaining tokens

/-- The bucket's part of the run: a reply that ends it, or the batch with the tokens that remain. -/
def bucketGate (batch : BatchField) : Remote AdmitServer (AdmitReply ⊕ (ℚ × Int)) := do
  let activeSize ← call link.net .card fun _ s => (s.room.active.length, s)
  if activeSize = 0 then return .inl .queueEmpty
  else
    let want := batch.want activeSize
    let bucket ← bucketCalls cfg link want
    if bucket.allowed = false then
      return .inl (.rateLimited bucket.retryAfterMs bucket.remaining activeSize)
    else return .inr (want, bucket.remaining)

def gateCalls (q : AdmitRequest) : Remote AdmitServer (AdmitReply ⊕ (ℚ × Int)) :=
  if q.authorized cfg = false then return .inl .unauthorized
  else do
    let _ ← shuffleCalls cfg link q.draws
    bucketGate cfg link q.batch

def handleAdmitCalls (q : AdmitRequest) : Remote AdmitServer AdmitReply := do
  match ← gateCalls cfg link q with
  | .inl reply => return reply
  | .inr (want, remaining) => do
    let admittedUsers ← popCalls cfg link want
    markAndSign cfg link admittedUsers remaining

end Program

end CrowdTic
