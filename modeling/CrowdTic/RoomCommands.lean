import CrowdTic.Runs
import CrowdTic.Visits
import CrowdTic.WaitingRoom

/-! The waiting room of one event on Redis, its calls side by side and
interleaved at single commands. A pipeline is a list of commands and may stop
between two of them. -/

namespace CrowdTic

open Ranked

inductive JoinPc
  | card (nowMs : Nat) (draw : Draw)
  | addActive (score : ℚ)
  | removePool
  | addPool (score : ℚ)
  | size (active : Bool)
  | position (active : Bool)

inductive ShufflePc
  /-- Both `ZCARD`s are on their way. -/
  | sizes
  | poolSize (aSize : Nat)
  | activeSize (pSize : Nat)
  | range
  /-- These are added to the active queue, then the pool is deleted. -/
  | pipe (adds : List (String × Nat))
  | resetMark

inductive AdmitPc
  | card
  | getBucket (want : ℚ)
  | setBucket (want : ℚ) (time : Nat) (read : Option BucketState)
  | popMin (want : ℚ)
  /-- The loop behind a refused `ZPOPMIN`, with `left` rounds after this one. -/
  | popOne (left popped : Nat)
  | getMark (popped : Nat)
  | setMark (watermark : Nat)

/-- A call in flight. The shuffle belongs to a sweep, or to an admission that waits for it. -/
inductive RoomCall
  | join (user : String) (pc : JoinPc)
  | shuffle (pc : ShufflePc) (draws : Nat → Draw) (waiting : Option BatchField)
  | admission (batch : BatchField) (pc : AdmitPc)

/-- What one command does: the room behind it, the rest of the call, and the users who have
entered the queue or left it by an admission, the last one in front. -/
structure Turn where
  room : Room
  next : Option RoomCall
  visits : List (Visit String)

def ShufflePc.piping : ShufflePc → Bool
  | .pipe _ => true
  | .resetMark => true
  | _ => false

def shuffleDone (waiting : Option BatchField) : Option RoomCall :=
  waiting.map fun batch => .admission batch .card

def JoinPc.turn (cfg : RoomConfig) (user : String) (r : Room) : JoinPc → Turn
  | .card nowMs draw =>
    let activeLen := r.active.length
    if r.joinsActive cfg nowMs then
      let tailScore : ℚ := if 0 < activeLen then nowMs + activeLen else cfg.fl (nowMs + draw.val)
      ⟨r, some (.join user (.addActive tailScore)), []⟩
    else ⟨r, some (.join user (.addPool draw.val)), []⟩
  | .addActive score =>
    ⟨{ r with active := zadd r.active user score }, some (.join user .removePool),
      [.enters user]⟩
  | .removePool => ⟨{ r with pool := zrem r.pool user }, some (.join user (.size true)), []⟩
  | .addPool score =>
    ⟨{ r with pool := zadd r.pool user score }, some (.join user (.size false)), [.enters user]⟩
  | .size active => ⟨r, some (.join user (.position active)), []⟩
  | .position _ => ⟨r, none, []⟩

namespace ShufflePc

variable (draws : Nat → Draw) (waiting : Option BatchField)

def decided (pSize aSize : Nat) : Option RoomCall :=
  if pSize = 0 then shuffleDone waiting
  else if 0 < aSize then shuffleDone waiting
  else some (.shuffle .range draws waiting)

def turn (r : Room) (now : Nat) (poolFirst : Bool) : ShufflePc → Turn
  | .sizes =>
    let pc : ShufflePc := if poolFirst then .activeSize r.pool.length else .poolSize r.active.length
    ⟨r, some (.shuffle pc draws waiting), []⟩
  | .poolSize aSize => ⟨r, decided draws waiting r.pool.length aSize, []⟩
  | .activeSize pSize => ⟨r, decided draws waiting pSize r.active.length, []⟩
  | .range =>
    if r.pool.length = 0 then ⟨r, shuffleDone waiting, []⟩
    else
      let order := (shuffleInPlace draws (members r.pool)).zipIdx
      ⟨r, some (.shuffle (.pipe (order.map fun x => (x.1, now + x.2))) draws waiting), []⟩
  | .pipe ((member, score) :: adds) =>
    ⟨{ r with active := zadd r.active member score }, some (.shuffle (.pipe adds) draws waiting), []⟩
  | .pipe [] => ⟨{ r with pool := [] }, some (.shuffle .resetMark draws waiting), []⟩
  | .resetMark =>
    ⟨{ r with admitted := some ⟨0, some (now + 3600000)⟩ }, shuffleDone waiting, []⟩

end ShufflePc

/-- `ZPOPMIN` with a count. -/
def Room.popMin (r : Room) (k : Nat) (next : Nat → AdmitPc) (batch : BatchField) : Turn :=
  let users := members (r.active.take k)
  ⟨{ r with active := r.active.drop k }, some (.admission batch (next users.length)),
    users.reverse.map .leaves⟩

def AdmitPc.turn (cfg : RoomConfig) (batch : BatchField) (r : Room) (now : Nat) : AdmitPc → Turn
  | .card =>
    if r.active.length = 0 then ⟨r, none, []⟩
    else ⟨r, some (.admission batch (.getBucket (batch.want r.active.length))), []⟩
  | .getBucket want =>
    ⟨r, some (.admission batch (.setBucket want now (Expiring.live r.bucket now))), []⟩
  | .setBucket want time read =>
    let out := tokenBucketConsume cfg.fl cfg.rate read time want
    ⟨{ r with bucket := some ⟨out.2, some (now + 120000)⟩ },
      if out.1.allowed then some (.admission batch (.popMin want)) else none, []⟩
  | .popMin want =>
    if want.den = 1 then r.popMin (Backend.redis.popCount want) .getMark batch
    else ⟨r, some (.admission batch (.popOne (Backend.redis.popCount want - 1) 0)), []⟩
  | .popOne left popped =>
    r.popMin 1 (fun n => match n, left with
      | 0, _ => .getMark popped
      | n + 1, 0 => .getMark (popped + n + 1)
      | n + 1, left + 1 => .popOne left (popped + n + 1)) batch
  | .getMark popped => ⟨r, some (.admission batch (.setMark (r.watermark now + popped))), []⟩
  | .setMark watermark => ⟨{ r with admitted := some ⟨watermark, some (now + 3600000)⟩ }, none, []⟩

def RoomCall.turn (cfg : RoomConfig) (r : Room) (now : Nat) (poolFirst : Bool) : RoomCall → Turn
  | .join user pc => pc.turn cfg user r
  | .shuffle pc draws waiting => pc.turn draws waiting r now poolFirst
  | .admission batch pc => pc.turn cfg batch r now

/-- The calls in flight in the order of their start, and all visits, the newest one in front. -/
structure CommandSys where
  room : Room
  clock : Nat
  calls : List RoomCall
  visits : List (Visit String)

inductive CommandMove
  | tick (ms : Nat)
  | join (user : String) (draw : Draw)
  | admission (request : AdmitRequest)
  | cron (draws : Nat → Draw)
  | run (i : Nat) (poolFirst : Bool)
  /-- The pipeline of a shuffle stops before its next command, with or without an exception. -/
  | stop (i : Nat) (thrown : Bool)

namespace CommandSys

def start (clock : Nat) : CommandSys := ⟨.empty, clock, [], []⟩

variable (cfg : RoomConfig) (s : CommandSys)

def begin (c : RoomCall) : CommandSys := { s with calls := s.calls ++ [c] }

/-- The calls when call `i` has become `next` or is over. -/
def goOn (i : Nat) (next : Option RoomCall) : List RoomCall :=
  match next with
  | some c => s.calls.set i c
  | none => s.calls.eraseIdx i

def advance (i : Nat) (t : Turn) : CommandSys :=
  { s with room := t.room, calls := s.goOn i t.next, visits := t.visits ++ s.visits }

def exec : CommandMove → CommandSys
  | .tick ms => { s with clock := s.clock + ms }
  | .join user draw => s.begin (.join user (.card s.clock draw))
  | .admission request =>
    if request.authorized cfg then s.begin (.shuffle .sizes request.draws (some request.batch))
    else s
  | .cron draws =>
    if cfg.onSaleAt.any (· ≤ s.clock) then s.begin (.shuffle .sizes draws none) else s
  | .run i poolFirst =>
    match s.calls[i]? with
    | none => s
    | some c => s.advance i (c.turn cfg s.room s.clock poolFirst)
  | .stop i thrown =>
    match s.calls[i]? with
    | some (.shuffle pc _ waiting) =>
      if pc.piping then
        { s with calls := s.goOn i (if thrown then none else shuffleDone waiting) }
      else s
    | _ => s

end CommandSys

def CommandStep (cfg : RoomConfig) (s : CommandSys) (m : CommandMove) (s' : CommandSys) : Prop :=
  s' = s.exec cfg m

end CrowdTic
