import CrowdTic.BadTokens
import CrowdTic.PoolKeys
import CrowdTic.RateLimit
import CrowdTic.RoomRuns

/-! The worker of the waiting room as it is deployed (`fetch` and `scheduled` of
`edge/waiting-room/src/index.ts`): its routes, the checks in front of the queues,
and one store under string keys for all events. -/

namespace CrowdTic

def activeKey (eventId : String) : String := "queue:active:\x7b" ++ eventId ++ "\x7d"

def admittedKey (eventId : String) : String := "queue:admitted:\x7b" ++ eventId ++ "\x7d"

def bucketKey (eventId : String) : String := "bucket:\x7b" ++ eventId ++ "\x7d"

inductive StoreValue
  | absent
  | queue (q : List Entry)
  | mark (m : Option (Expiring Nat))
  | bucket (b : Option (Expiring BucketState))

namespace StoreValue

def toQueue : StoreValue → List Entry
  | queue q => q
  | _ => []

def toMark : StoreValue → Option (Expiring Nat)
  | mark m => m
  | _ => none

def toBucket : StoreValue → Option (Expiring BucketState)
  | bucket b => b
  | _ => none

end StoreValue

structure WorkerRequest where
  method : String
  pathname : String
  query : List (String × String)
  /-- `none` where `req.json` throws. -/
  body : Option Json
  cfConnectingIp : Option String
  xForwardedFor : Option String
  xFingerprint : Option String
  xAdmitSecret : Option String
  authorization : Option String

/-- Variables that are not set are empty, as the worker reads both alike. -/
structure WorkerEnv where
  backend : Backend
  /-- What `getEventMeta` answers. -/
  onSaleAt : String → Option Nat
  rate : Nat
  limit : LimitKind → Int
  jwtSecret : String
  jwtIssuer : Option String
  jwtAudience : Option String
  admitSecret : String
  turnstileSecretKey : String
  runtime : JsonRuntime
  /-- The number that `Math.min` reads from a value, `none` for NaN. -/
  toNumber : Json → Option ℚ

def WorkerEnv.room (env : WorkerEnv) (eventId : String) : RoomConfig where
  backend := env.backend
  onSaleAt := env.onSaleAt eventId
  rate := env.rate
  jwtSecret := env.jwtSecret
  admitSecret := env.admitSecret
  fl := .double

/-- What a call takes from outside: the answer of `siteverify`, and random numbers. -/
structure Chance where
  verified : Bool
  draw : Draw
  draws : Nat → Draw

structure Worker where
  values : String → StoreValue
  limits : LimitStore
  popped : String → List String

inductive WorkerAnswer
  | preflight
  | health
  | error (status : Nat) (text : String)
  | rateLimited (scope : LimitKind) (retryAfterSec : Int)
  | joined (eventId userId : String) (reply : JoinReply)
  | status (eventId userId : String) (reply : StatusReply)
  | admission (eventId : String) (reply : AdmitReply)
  | verdict (v : JsonVerdict)
  | thrown

/-- A call that has passed the checks in front of the queues. -/
inductive QueueCall
  | join (eventId userId : String)
  | status (eventId userId : String)
  | admission (eventId : String) (request : AdmitRequest)

namespace WorkerRequest

variable (req : WorkerRequest)

def param (name : String) : String := (req.query.lookup name).getD ""

/-- The path without the slashes at its end. -/
def path : String :=
  let p := String.ofList (req.pathname.toList.rdropWhile (· = '/'))
  if p = "" then "/" else p

def ip : String :=
  match req.cfConnectingIp with
  | some ip => ip
  | none =>
    match req.xForwardedFor with
    | some list => trim (String.ofList (list.toList.takeWhile (· ≠ ',')))
    | none => "0.0.0.0"

/-- What replaces `Bearer` and the spaces behind it by nothing, in any case of its letters. -/
def afterBearer (auth : String) : String :=
  let rest := auth.toList.drop 6
  if (auth.toList.take 6).map Char.toLower = "bearer".toList ∧ (rest.head?.any isJsSpace) then
    String.ofList (rest.dropWhile isJsSpace)
  else auth

def admitSecret : String := (req.xAdmitSecret <|> req.authorization.map afterBearer).getD ""

end WorkerRequest

/-- `(value ?? "").trim()`, which throws on a value that is not a text. -/
def Json.trimmed : Option Json → Option String
  | none | some .null => some ""
  | some (.str s) => some (trim s)
  | _ => none

section Checks

variable (env : WorkerEnv)

def hitRateLimit (s : LimitStore) (kind : LimitKind) (id : String) : LimitReply × LimitStore :=
  let a : Attempt := ⟨kind, id, s.now⟩
  let untilMinute : Int := 60 - (a.nowSec % 60 : Nat)
  match env.backend with
  | .redis =>
    let count := (s.redis.get a.windowKey).getD 0 + 1
    let s := s.incr a.windowKey
    let s := if count = 1 then s.expire a.windowKey else s
    let ttl := s.ttl a.windowKey
    (limitReply (env.limit kind) count (if 0 < ttl then ttl else untilMinute), s)
  | .kv =>
    let count := (s.kv.get a.windowKey).getD 0 + 1
    (limitReply (env.limit kind) count untilMinute, s.put a.windowKey count)

/-- A request without a fingerprint is not counted by it. -/
def hitBoth (s : LimitStore) (ip fp : String) : LimitReply × LimitReply × LimitStore :=
  let (rlIp, s) := hitRateLimit env s .ip ip
  if fp = "" then (rlIp, ⟨true, 999, 60⟩, s)
  else
    let (rlFp, s) := hitRateLimit env s .fp fp
    (rlIp, rlFp, s)

/-- `(body.fingerprint ?? fingerprint ?? "").trim()` -/
def fingerprint (req : WorkerRequest) (body : Json) : Option String :=
  match body.field "fingerprint" with
  | none | some .null => some (trim (req.xFingerprint.getD ""))
  | fp => Json.trimmed fp

def verifyTurnstile (token : Option Json) (verified : Bool) : Bool :=
  if Json.truthy token = false then env.turnstileSecretKey = ""
  else if Json.isText token (some "TEST_BYPASS") ∨ Json.isText token (some "bypass") then true
  else env.turnstileSecretKey = "" ∨ verified

/-- The part of `handleJoin` in front of the queues. -/
def joinChecks (req : WorkerRequest) (body : Option Json) (verified : Bool) (s : LimitStore) :
    Except WorkerAnswer QueueCall × LimitStore :=
  match body with
  | none => (.error (.error 400 "invalid_json"), s)
  | some .null => (.error .thrown, s)
  | some body =>
    match Json.trimmed (body.field "event_id"), Json.trimmed (body.field "user_id"),
        fingerprint req body with
    | some eventId, some userId, some fp =>
      match joinIds eventId userId with
      | .error text => (.error (.error 400 text), s)
      | .ok (eventId, userId) =>
        let (rlIp, rlFp, s) := hitBoth env s req.ip fp
        if rlIp.allowed = false then (.error (.rateLimited .ip rlIp.resetSec), s)
        else if rlFp.allowed = false then (.error (.rateLimited .fp rlFp.resetSec), s)
        else if verifyTurnstile env (body.field "turnstile_token") verified = false then
          (.error (.error 403 "turnstile_failed"), s)
        else (.ok (.join eventId userId), s)
    | _, _, _ => (.error .thrown, s)

/-- The body that the legacy link makes of its query. -/
def legacyBody (req : WorkerRequest) : Json :=
  .obj ([("event_id", .str (req.param "event_id")), ("user_id", .str (req.param "user_id"))] ++
    req.xFingerprint.toList.map fun fp => ("fingerprint", .str fp))

def statusChecks (req : WorkerRequest) : Except WorkerAnswer QueueCall :=
  let eventId := trim (req.param "event_id")
  let userId := trim (req.param "user_id")
  if eventId = "" ∨ userId = "" then .error (.error 400 "event_id and user_id required")
  else .ok (.status eventId userId)

/-- The event and the batch of an admission's body. What throws in reading them is caught. -/
def admitBody (body : Option Json) : String × BatchField :=
  match (body.getD (.obj [])), Json.trimmed ((body.getD (.obj [])).field "event_id") with
  | .null, _ => ("", .falsy)
  | _, none => ("", .falsy)
  | body, some eventId =>
    (eventId, match body.field "batch" with
      | some batch => if Json.truthy (some batch) then .truthy (env.toNumber batch) else .falsy
      | none => .falsy)

def admitChecks (req : WorkerRequest) (draws : Nat → Draw) : Except WorkerAnswer QueueCall :=
  if env.admitSecret ≠ "" ∧ req.admitSecret ≠ env.admitSecret then .error (.error 401 "unauthorized")
  else
    let (eventId, batch) := admitBody env req.body
    let eventId := if eventId = "" then trim (req.param "event_id") else eventId
    if eventId = "" then .error (.error 400 "event_id required")
    else .ok (.admission eventId ⟨req.admitSecret, batch, draws⟩)

def verifyAnswer (req : WorkerRequest) (nowMs : Nat) : WorkerAnswer :=
  match req.body.getD (.obj []) with
  | .null => .thrown
  | body =>
    match body.field "token" with
    | some (.str token) =>
      if token = "" then .error 400 "token required"
      else
        let opts : VerifyOptions := ⟨env.jwtIssuer, env.jwtAudience, none⟩
        .verdict (env.runtime.verifyQueueToken env.jwtSecret token.toList opts nowMs)
    | token => if Json.truthy token = false then .error 400 "token required" else .thrown

def misconfigured : WorkerAnswer := .error 500 "server misconfigured: JWT_SECRET missing"

/-- The routes. -/
def route (req : WorkerRequest) (chance : Chance) (s : LimitStore) :
    Except WorkerAnswer QueueCall × LimitStore :=
  let path := req.path
  let post := req.method = "POST"
  let get := req.method = "GET"
  if req.method = "OPTIONS" then (.error .preflight, s)
  else if path = "/health" ∧ get then (.error .health, s)
  else if (path = "/queue/join" ∨ path = "/waiting-room") ∧ post then
    if env.jwtSecret = "" then (.error misconfigured, s)
    else joinChecks env req req.body chance.verified s
  else if path = "/waiting-room" ∧ get then
    if req.param "event_id" ≠ "" ∧ req.param "user_id" ≠ "" then
      if env.jwtSecret = "" then (.error misconfigured, s)
      else joinChecks env req (some (legacyBody req)) chance.verified s
    else (.error (.error 400 "use POST /queue/join with {event_id, user_id}"), s)
  else if path = "/queue/status" ∧ get then (statusChecks req, s)
  else if path = "/queue/admit" ∧ post then
    if env.jwtSecret = "" then (.error misconfigured, s)
    else (admitChecks env req chance.draws, s)
  else if path = "/queue/verify" ∧ post then (.error (verifyAnswer env req s.now), s)
  else (.error (.error 404 "not_found"), s)

end Checks

namespace Worker

def start (now : Nat) : Worker := ⟨fun _ => .absent, ⟨now, fun _ => none, fun _ => none⟩, fun _ => []⟩

variable (env : WorkerEnv) (w : Worker)

def now : Nat := w.limits.now

/-- What the calls for an event find under its keys. -/
def room (eventId : String) : Room where
  pool := (w.values (poolKey eventId)).toQueue
  active := (w.values (activeKey eventId)).toQueue
  admitted := (w.values (admittedKey eventId)).toMark
  bucket := (w.values (bucketKey eventId)).toBucket

/-- What they leave there. -/
def setRoom (eventId : String) (r : Room) : Worker :=
  let values := Function.update w.values (poolKey eventId) (.queue r.pool)
  let values := Function.update values (activeKey eventId) (.queue r.active)
  let values := Function.update values (admittedKey eventId) (.mark r.admitted)
  { w with values := Function.update values (bucketKey eventId) (.bucket r.bucket) }

def perform (chance : Chance) : QueueCall → WorkerAnswer × Worker
  | .join eventId userId =>
    let r := w.room eventId
    let cfg := env.room eventId
    (.joined eventId userId (r.joinReply cfg w.now userId chance.draw),
      w.setRoom eventId (r.handleJoin cfg w.now userId chance.draw))
  | .status eventId userId =>
    (match (w.room eventId).handleStatus (env.room eventId) w.now userId with
      | some reply => .status eventId userId reply
      | none => .thrown, w)
  | .admission eventId request =>
    let out := (w.room eventId).handleAdmit (env.room eventId) w.now request
    let w := w.setRoom eventId out.room
    (.admission eventId out.reply,
      { w with popped := Function.update w.popped eventId (w.popped eventId ++ out.popped) })

def fetch (req : WorkerRequest) (chance : Chance) : WorkerAnswer × Worker :=
  match route env req chance w.limits with
  | (.error answer, limits) => (answer, { w with limits })
  | (.ok call, limits) => Worker.perform env { w with limits } chance call

/-- The loop of the cron over the ids that it has found. -/
def scheduled (draws : String → Nat → Draw) (eventIds : List String) : Worker :=
  eventIds.foldl (fun w eventId =>
    w.setRoom eventId ((w.room eventId).handleScheduled (env.room eventId) w.now (draws eventId))) w

end Worker

inductive WorkerMove
  | tick (ms : Nat)
  | fetch (req : WorkerRequest) (chance : Chance)
  | scheduled (draws : String → Nat → Draw) (eventIds : List String)

def Worker.exec (env : WorkerEnv) (w : Worker) : WorkerMove → Worker
  | .tick ms => { w with limits := w.limits.advance ms }
  | .fetch req chance => (w.fetch env req chance).2
  | .scheduled draws eventIds => w.scheduled env draws eventIds

def WorkerStep (env : WorkerEnv) (w : Worker) (m : WorkerMove) (w' : Worker) : Prop := w' = w.exec env m

end CrowdTic
