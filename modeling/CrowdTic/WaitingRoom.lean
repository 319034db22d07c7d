import CrowdTic.FisherYates
import CrowdTic.RankedQueue
import CrowdTic.TokenBucket
import Mathlib.Data.String.Basic

/-! The waiting room of one event (`handleJoin`, `handleStatus`, `handleAdmit`,
`maybeShufflePool` and `handleScheduled` of `edge/waiting-room/src/index.ts`),
on Redis and on its KV fallback, each call taken as one step. -/

namespace CrowdTic

open Ranked FisherYates

structure Draw where
  val : ℚ
  nonneg : 0 ≤ val
  lt_one : val < 1

def Draw.pick (d : Draw) (n : Nat) : Nat := ⌊d.val * n⌋.toNat

section Shuffle

variable {α : Type}

/-- The loop of the shuffle from index `i` down to 1, with one draw for each index. -/
def shuffleFrom (draws : Nat → Draw) : Nat → List α → List α
  | 0, a => a
  | i + 1, a => shuffleFrom draws i (swapAt a (i + 1) ((draws (i + 1)).pick (i + 2)))

def shuffleInPlace (draws : Nat → Draw) (a : List α) : List α := shuffleFrom draws (a.length - 1) a

theorem shuffleFrom_eq (draws : Nat → Draw) (i : Nat) (a : List α) :
    shuffleFrom draws i a = shuffleBy (fun m => (draws m).pick (m + 1)) i a := by
  induction i generalizing a with
  | zero => rfl
  | succ i ih => exact ih _

theorem shuffleInPlace_perm (draws : Nat → Draw) (a : List α) : (shuffleInPlace draws a).Perm a := by
  rw [shuffleInPlace, shuffleFrom_eq]
  exact shuffleBy_perm _ _ a

end Shuffle

inductive Backend
  | redis
  | kv
  deriving DecidableEq

abbrev Entry := Ranked String ℚ

structure RoomConfig where
  backend : Backend
  onSaleAt : Option Nat
  rate : Nat
  jwtSecret : String
  /-- Not set when empty. -/
  admitSecret : String
  /-- How its numbers are rounded. -/
  fl : Rounding := .exact

structure Room where
  pool : List Entry
  active : List Entry
  admitted : Option (Expiring Nat)
  bucket : Option (Expiring BucketState)

def Room.empty : Room := ⟨[], [], none, none⟩

def admitBatch : Nat := 2000

inductive Phase
  | preSalePool
  | activeQueue
  | notInQueue
  deriving DecidableEq

structure JoinReply where
  phase : Phase
  position : Option Nat
  poolSize : Nat
  estimatedWaitSec : Option Nat
  pollIntervalMs : Nat

structure StatusReply where
  phase : Phase
  position : Option Nat
  poolSize : Nat
  activeSize : Nat
  admittedWatermark : Nat
  estimatedWaitSec : Option Nat
  admitted : Bool
  pollIntervalMs : Nat

inductive AdmitReply
  | unauthorized
  | queueEmpty
  | rateLimited (retryAfterMs : Option Int) (remainingTokens : Int) (queueSize : Nat)
  | admitted (watermark : Nat) (remainingTokens : Int) (users : List String)
  /-- The exception of signing with an empty key. -/
  | thrown
  deriving DecidableEq

def rank (q : List Entry) (user : String) : Option Nat :=
  if user ∈ members q then some ((members q).idxOf user) else none

namespace Room

variable (cfg : RoomConfig) (r : Room) (now : Nat)

def isPreSale : Bool := cfg.onSaleAt.any (now < ·)

/-- The score of a user who is appended to the active queue. -/
def tailScore (draw : Draw) : ℚ :=
  match cfg.backend with
  | .redis => if 0 < r.active.length then now + r.active.length else cfg.fl (now + draw.val)
  | .kv => now + r.active.length

def joinsActive : Bool := 0 < r.active.length ∨ isPreSale cfg now = false

/-- A join that has passed the checks of its body, the rate limits and Turnstile. -/
def handleJoin (user : String) (draw : Draw) : Room :=
  match cfg.backend with
  | .redis =>
    if r.joinsActive cfg now then
      { r with
        active := zadd r.active user (r.tailScore cfg now draw)
        pool := zrem r.pool user }
    else { r with pool := zadd r.pool user draw.val }
  | .kv =>
    let push (arr : List Entry) (s : ℚ) :=
      sortByScore (if user ∈ members arr then arr else arr ++ [⟨user, s⟩])
    if r.joinsActive cfg now then
      { r with
        active := push r.active (r.tailScore cfg now draw)
        pool := r.pool.filter fun x => x.member ≠ user }
    else { r with pool := push r.pool draw.val }

def joinReply (user : String) (draw : Draw) : JoinReply :=
  let after := r.handleJoin cfg now user draw
  let queue := if r.joinsActive cfg now then after.active else after.pool
  let position := (rank queue user).map (· + 1)
  { phase := if isPreSale cfg now then .preSalePool else .activeQueue
    position
    poolSize := queue.length
    estimatedWaitSec := position.map fun p => (p + 1999) / 2000
    pollIntervalMs := if position.any (· ≤ 50) then 1000 else if position.any (· ≤ 500) then 2000
      else 5000 }

def watermark : Nat := (Expiring.live r.admitted now).getD 0

def admits (rank : Nat) : Bool :=
  rank < r.watermark now + admitBatch ∧ rank + 1 ≤ r.watermark now

/-- `none` is the exception of signing with an empty key. -/
def handleStatus (user : String) : Option StatusReply :=
  let activeRank := rank r.active user
  let position := (activeRank <|> rank r.pool user).map (· + 1)
  let token := activeRank.any (r.admits now)
  if token = true ∧ cfg.jwtSecret = "" then none
  else some
    { phase := if activeRank.isSome then .activeQueue
        else if position.isSome then .preSalePool else .notInQueue
      position
      poolSize := r.pool.length
      activeSize := r.active.length
      admittedWatermark := r.watermark now
      estimatedWaitSec := if activeRank.isSome then
        position.map fun p => (p - r.watermark now + 1999) / 2000 else none
      admitted := token
      pollIntervalMs := if position.any (· ≤ 100) then 1000 else 2500 }

def maybeShufflePool (draws : Nat → Draw) : Room :=
  if r.pool.length = 0 then r
  else if 0 < r.active.length then r
  else
    let order := (shuffleInPlace draws (members r.pool)).zipIdx
    { r with
      active := match cfg.backend with
        | .redis => order.foldl (fun q x => zadd q x.1 (now + x.2 : Nat)) r.active
        | .kv => order.map fun x => ⟨x.1, (now + x.2 : Nat)⟩
      pool := []
      admitted := some ⟨0, some (now + 3600000)⟩ }

def handleScheduled (draws : Nat → Draw) : Room :=
  match cfg.onSaleAt with
  | none => r
  | some t => if now < t then r else r.maybeShufflePool cfg now draws

end Room

/-- The `batch` of an admission's body, as `Math.min` reads it: `none` for what is not a number. -/
inductive BatchField
  | falsy
  | truthy (n : Option ℚ)

/-- The number of users that an admission asks for. Comparisons with NaN are false. -/
def BatchField.want (b : BatchField) (activeSize : Nat) : ℚ :=
  match b with
  | .truthy (some n) => min (max 1 (min admitBatch n)) activeSize
  | _ => min admitBatch activeSize

structure AdmitRequest where
  secret : String
  batch : BatchField
  draws : Nat → Draw

def AdmitRequest.authorized (cfg : RoomConfig) (q : AdmitRequest) : Bool :=
  cfg.admitSecret = "" ∨ q.secret = cfg.admitSecret

/-- `ZPOPMIN` refuses a fraction and the loop behind it rounds up, `splice` rounds down. -/
def Backend.popCount (b : Backend) (want : ℚ) : Nat :=
  match b with
  | .redis => ⌈want⌉.toNat
  | .kv => ⌊want⌋.toNat

/-- The queue as an admission goes through it. The KV fallback sorts it once more. -/
def Backend.front (b : Backend) (q : List Entry) : List Entry :=
  match b with
  | .redis => q
  | .kv => sortByScore q

structure Admission where
  reply : AdmitReply
  room : Room
  popped : List String

namespace Room

variable (cfg : RoomConfig) (r : Room) (now : Nat)

/-- The admission behind the bucket, which has allowed it. -/
def popFront (want : ℚ) (remaining : Int) : Admission :=
  let queue := cfg.backend.front r.active
  let k := cfg.backend.popCount want
  let users := members (queue.take k)
  let mark := r.watermark now + users.length
  { reply := if cfg.jwtSecret = "" ∧ users ≠ [] then .thrown else .admitted mark remaining users
    room := { r with
      active := queue.drop k
      admitted := some ⟨mark, some (now + 3600000)⟩ }
    popped := users }

def handleAdmit (q : AdmitRequest) : Admission :=
  if q.authorized cfg = false then ⟨.unauthorized, r, []⟩
  else
    let r := r.maybeShufflePool cfg now q.draws
    if r.active.length = 0 then ⟨.queueEmpty, r, []⟩
    else
      let want := q.batch.want r.active.length
      let out := tokenBucketConsume cfg.fl cfg.rate (Expiring.live r.bucket now) now want
      let r := { r with bucket := some ⟨out.2, some (now + 120000)⟩ }
      if out.1.allowed = false then
        ⟨.rateLimited out.1.retryAfterMs out.1.remaining r.active.length, r, []⟩
      else r.popFront cfg now want out.1.remaining

end Room

end CrowdTic
