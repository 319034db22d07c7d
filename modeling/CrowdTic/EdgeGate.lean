import CrowdTic.Verifiers

/-! The whole of `middleware` (`edge/middleware.ts`), and how the booking service
takes the token from the same request (`internal/middleware/queue_auth.go`). -/

namespace CrowdTic

/-- What both programs read of a request. The values of absent headers are `none`. -/
structure EdgeRequest where
  pathname : String
  search : String
  query : List (String × String)
  accept : Option String
  secFetchMode : Option String
  authorization : Option String
  xQueueToken : Option String
  xEventId : Option String
  cookie : Option String

structure EdgeEnv where
  jwtSecret : Option String
  queueJwtSecret : Option String
  jwtIssuer : Option String
  jwtAudience : Option String
  /-- Both variables of the Redis REST endpoint are set. -/
  upstash : Bool

def EdgeEnv.secret (env : EdgeEnv) : String := (env.jwtSecret <|> env.queueJwtSecret).getD ""

def EdgeEnv.expectedIss (env : EdgeEnv) : String := env.jwtIssuer.getD "tiket-waiting-room"

def EdgeEnv.expectedAud (env : EdgeEnv) : String := env.jwtAudience.getD "tiket-checkout"

/-- The answer of `GET`, `failed` for an error status or an exception. -/
inductive RedisAnswer
  | failed
  | result (value : Option String)
  deriving DecidableEq

inductive EdgeError
  | tokenRequired
  | badSignature
  | expired (exp : Int)
  | notYetValid
  | badIss (got : Option String)
  | badAud (got : Option String)
  | missingClaims
  | eventMismatch (tokenEventId routeEventId : String)
  | replayedOrExpired
  deriving DecidableEq

namespace EdgeError

def status : EdgeError → Nat
  | eventMismatch _ _ => 403
  | _ => 401

def text : EdgeError → String
  | tokenRequired => "queue_token_required"
  | badSignature => "invalid_queue_token"
  | expired _ => "queue_token_expired"
  | notYetValid => "queue_token_not_yet_valid"
  | badIss _ => "bad_iss"
  | badAud _ => "bad_aud"
  | missingClaims => "queue_token_missing_claims"
  | eventMismatch _ _ => "event_mismatch"
  | replayedOrExpired => "queue_token_replayed_or_expired"

end EdgeError

/-- What the request and the answer are given on the way. `Headers` drops blanks at the ends. -/
structure PassHeaders where
  userId : String
  eventId : String
  jti : Option String
  cookie : Option (String × Int)
  /-- The query without the token, where the request had one there. -/
  rewrite : Option (List (String × String))
  deriving DecidableEq

/-- `Headers` takes the text: it is one of bytes, and no line ends in it. -/
def headerValue (s : String) : Bool :=
  let blank (c : Char) : Bool := c = '\t' ∨ c = '\n' ∨ c = '\r' ∨ c = ' '
  let inner := (s.toList.dropWhile blank).rdropWhile blank
  s.toList.all (·.toNat ≤ 0xff) && inner.all fun c => c.toNat ≠ 0 ∧ c ≠ '\n' ∧ c ≠ '\r'

example : headerValue "ünal-01\n" = true := by decide

example : headerValue "łucja-01" = false := by decide

/-- `headers.set` throws at no id. -/
def PassHeaders.settable (h : PassHeaders) : Bool :=
  headerValue h.userId && headerValue h.eventId && h.jti.all headerValue

inductive EdgeAnswer
  | bypass
  | pass (headers : PassHeaders)
  | json (status : Nat) (error : EdgeError)
  | redirect (params : List (String × String))
  | thrown
  deriving DecidableEq

namespace EdgeRequest

variable (req : EdgeRequest)

def param (name : String) : Option String := req.query.lookup name

def isApiRequest : Bool :=
  "application/json".toList <:+: (req.accept.getD "").toList ∨
    "/api/".toList <+: req.pathname.toList ∨ req.secFetchMode = some "cors"

def segs : List String := ((req.pathname.toList.splitOn '/').filter (· ≠ [])).map String.ofList

def extractEventId : Option String :=
  let fallback :=
    ((req.param "event_id" <|> req.param "eventId").filter (· ≠ "")) <|> req.xEventId.filter (· ≠ "")
  match req.segs with
  | "checkout" :: e :: _ => some e
  | "api" :: "hold" :: e :: _ => some e
  | _ => fallback

/-- The prefix is compared without case. -/
def bearer (auth : String) : Bool :=
  auth.toList.length ≥ 7 ∧ (auth.toList.take 7).map Char.toLower = "bearer ".toList

def extractToken : Option String :=
  match req.authorization.filter bearer with
  | some auth => some (trim (String.ofList (auth.toList.drop 7)))
  | none =>
    (req.xQueueToken.filter (· ≠ "") <|> req.cookie.filter (· ≠ "") <|>
      (req.param "queue_token" <|> req.param "token").filter (· ≠ "")).map trim

/-- The token as the booking service takes it, without trimming and with the exact prefix. -/
def queueAuthToken : String :=
  match req.authorization.filter fun a => "Bearer ".toList <+: a.toList with
  | some auth => String.ofList (auth.toList.drop 7)
  | none => (req.xQueueToken.filter (· ≠ "") <|> req.cookie).getD ((req.param "queue_token").getD "")

end EdgeRequest

def jtiKey (eventId jti : String) : String := "jti:\x7b" ++ eventId ++ "\x7d:" ++ jti

/-- The key that is asked for, if any is. -/
def allowlistKey (env : EdgeEnv) (p : Payload) : Option String :=
  match p.eventId.filter (· ≠ ""), p.jti.filter (· ≠ "") with
  | some e, some j => if env.upstash then some (jtiKey e j) else none
  | _, _ => none

/-- A failing lookup lets the token pass. -/
def checkJtiAllowlist (env : EdgeEnv) (lookup : String → RedisAnswer) (p : Payload) : Bool :=
  (allowlistKey env p).all fun k => lookup k ≠ .result none

namespace EdgeRequest

variable (req : EdgeRequest)

/-- Navigations are sent to the waiting room, with the text `param` under the name `name`. -/
def deny (e : EdgeError) (name value : String) : EdgeAnswer :=
  if req.isApiRequest then .json e.status e
  else .redirect ((req.extractEventId.map ("event_id", ·)).toList ++ [(name, value)])

def passHeaders (p : Payload) (token userId eventId : String) (nowSec : Int) : PassHeaders where
  userId := userId
  eventId := eventId
  jti := p.jti.filter (· ≠ "")
  cookie := if req.cookie.filter (· ≠ "") = none then
    some (token, match p.exp with
      | some exp => max 5 (exp - nowSec)
      | none => 45) else none
  rewrite := if req.param "queue_token" ≠ none ∨ req.param "token" ≠ none then
    some (req.query.filter fun q => q.1 ≠ "queue_token" ∧ q.1 ≠ "token") else none

/-- The middleware behind the signature. -/
def checkClaims (env : EdgeEnv) (lookup : String → RedisAnswer) (token : String) (p : Payload)
    (nowSec : Int) : EdgeAnswer :=
  if notExpired p nowSec jwtLeewaySec = false then
    req.deny (.expired (p.exp.getD 0)) "error" "token_expired"
  else if alreadyValid p nowSec jwtLeewaySec = false then .json 401 .notYetValid
  else if p.iss ≠ some env.expectedIss then .json 401 (.badIss p.iss)
  else if p.aud ≠ some env.expectedAud then .json 401 (.badAud p.aud)
  else
    match p.eventId.filter (· ≠ ""), p.userId.filter (· ≠ "") with
    | some e, some u =>
      match req.extractEventId.filter (· ≠ e) with
      | some route => req.deny (.eventMismatch e route) "error" "event_mismatch"
      | none =>
        if checkJtiAllowlist env lookup p then
          let headers := req.passHeaders p token u e nowSec
          if headers.settable then .pass headers else .thrown
        else req.deny .replayedOrExpired "error" "token_consumed"
    | _, _ => .json 401 .missingClaims

end EdgeRequest

def middleware (R : EdgeRuntime) (env : EdgeEnv) (lookup : String → RedisAnswer) (req : EdgeRequest)
    (nowMs : Nat) : EdgeAnswer :=
  if env.secret = "" then .bypass
  else
    match req.extractToken.filter (· ≠ "") with
    | none => req.deny .tokenRequired "next" (req.pathname ++ req.search)
    | some token =>
      match hmacVerify R env.secret token.toList with
      | none => .thrown
      | some none => req.deny .badSignature "error" "bad_token"
      | some (some p) => req.checkClaims env lookup token p (nowMs / 1000)

section Tokens

variable {R : EdgeRuntime}

theorem compact_plain (R : EdgeRuntime) (secret : String) (p : Payload) :
    ∀ c ∈ R.compact secret p, isJsSpace c = false := by
  have hall : (Base64.alphabet.all fun c => decide (isJsSpace (toUrl c) = false)) = true := by
    decide +kernel
  have hpart (bs : Base64.Bytes) : ∀ c ∈ b64urlEncode bs, isJsSpace c = false := by
    intro c hc
    rw [b64urlEncode_eq] at hc
    obtain ⟨d, hd, rfl⟩ := List.mem_map.mp hc
    exact of_decide_eq_true (List.all_eq_true.mp hall d (Base64.digits_subset bs d hd))
  intro c hc
  simp only [EdgeRuntime.compact, EdgeRuntime.signedData, List.mem_append, List.mem_cons] at hc
  rcases hc with (hc | rfl | hc) | rfl | hc
  · exact hpart _ c hc
  · rfl
  · exact hpart _ c hc
  · rfl
  · exact hpart _ c hc

theorem trim_eq_self {l : List Char} (h : ∀ c ∈ l, isJsSpace c = false) :
    trim (String.ofList l) = String.ofList l := by
  have hdrop : l.dropWhile isJsSpace = l := by
    cases l with
    | nil => rfl
    | cons c l => exact List.dropWhile_cons_of_neg (by simp [h c List.mem_cons_self])
  have hback : l.rdropWhile isJsSpace = l := by
    refine List.rdropWhile_eq_self_iff.mpr fun hne => ?_
    simp [h _ (List.getLast_mem hne)]
  rw [trim, String.toList_ofList, hdrop, hback]

theorem hmacVerify_compact (R : EdgeRuntime) (p : Payload) {secret : String} (hsecret : secret ≠ "") :
    hmacVerify R secret (R.compact secret p) = some (some p) := by
  have hv : R.verify secret (R.sign secret (R.signedData p)) (R.signedData p) = true :=
    (R.verify_iff _ _ _).mpr rfl
  rw [EdgeRuntime.signedData] at hv
  simp [hmacVerify, R.split_compact, hsecret, b64urlDecode_encode, EdgeRuntime.signedData, hv,
    R.parse_stringify]

theorem compact_ne_nil (secret : String) (p : Payload) : R.compact secret p ≠ [] := by
  simp [EdgeRuntime.compact]

theorem ofList_compact_ne (secret : String) (p : Payload) : String.ofList (R.compact secret p) ≠ "" := by
  intro he
  have hnil := congrArg String.toList he
  rw [String.toList_ofList] at hnil
  exact compact_ne_nil secret p hnil

/-- A token of the right secret brings its request to the checks of its payload. -/
theorem middleware_compact {env : EdgeEnv} (hsecret : env.secret ≠ "") {req : EdgeRequest} {p : Payload}
    (htoken : req.extractToken = some (String.ofList (R.compact env.secret p)))
    (lookup : String → RedisAnswer) (nowMs : Nat) :
    middleware R env lookup req nowMs =
      req.checkClaims env lookup (String.ofList (R.compact env.secret p)) p (nowMs / 1000) := by
  have hne := ofList_compact_ne (R := R) env.secret p
  have hfilter : req.extractToken.filter (· ≠ "") = some (String.ofList (R.compact env.secret p)) := by
    rw [htoken, Option.filter_some, if_pos (by simpa using hne)]
  simp only [middleware, if_neg hsecret, hfilter, String.toList_ofList, hmacVerify_compact R p hsecret]

end Tokens

section Passes

variable {R : EdgeRuntime} {env : EdgeEnv} {req : EdgeRequest} {claims : SignClaims} {issuedMs : Nat}
  {jti : RandomUuid} {signed : Signed}

theorem deny_ne_pass (req : EdgeRequest) (e : EdgeError) (name value : String) (headers : PassHeaders) :
    req.deny e name value ≠ .pass headers := by
  unfold EdgeRequest.deny
  split <;> simp

/-- What a payload has been found to be when its request is let through. -/
theorem checkClaims_pass {p : Payload} {lookup : String → RedisAnswer} {token : String} {now : Int}
    {headers : PassHeaders} (h : req.checkClaims env lookup token p now = .pass headers) :
    notExpired p now jwtLeewaySec = true ∧ alreadyValid p now jwtLeewaySec = true ∧
      (p.userId = some headers.userId ∧ headers.userId ≠ "") ∧
      p.eventId = some headers.eventId ∧ headers.eventId ≠ "" := by
  rw [EdgeRequest.checkClaims] at h
  by_cases hend : notExpired p now jwtLeewaySec = false
  · rw [if_pos hend] at h
    exact absurd h (deny_ne_pass _ _ _ _ _)
  by_cases hbegin : alreadyValid p now jwtLeewaySec = false
  · rw [if_neg hend, if_pos hbegin] at h
    cases h
  by_cases hiss : p.iss ≠ some env.expectedIss
  · rw [if_neg hend, if_neg hbegin, if_pos hiss] at h
    cases h
  by_cases haud : p.aud ≠ some env.expectedAud
  · rw [if_neg hend, if_neg hbegin, if_neg hiss, if_pos haud] at h
    cases h
  rw [if_neg hend, if_neg hbegin, if_neg hiss, if_neg haud] at h
  refine ⟨Bool.eq_true_of_not_eq_false hend, Bool.eq_true_of_not_eq_false hbegin, ?_⟩
  cases hevent : p.eventId.filter (· ≠ "") with
  | none =>
    rw [hevent] at h
    cases h
  | some e =>
    cases huser : p.userId.filter (· ≠ "") with
    | none =>
      rw [hevent, huser] at h
      cases h
    | some u =>
      have hids : headers.userId = u ∧ headers.eventId = e := by
        rw [hevent, huser] at h
        cases hroute : req.extractEventId.filter (· ≠ e) with
        | some route =>
          simp only [hroute] at h
          exact absurd h (deny_ne_pass _ _ _ _ _)
        | none =>
          simp only [hroute] at h
          split_ifs at h
          · obtain rfl := EdgeAnswer.pass.inj h
            exact ⟨rfl, rfl⟩
          · exact absurd h (deny_ne_pass _ _ _ _ _)
      obtain ⟨rfl, rfl⟩ := hids
      have hu := Option.filter_eq_some_iff.mp huser
      have he := Option.filter_eq_some_iff.mp hevent
      exact ⟨⟨hu.1, by simpa using hu.2⟩, he.1, by simpa using he.2⟩

theorem notExpired_signed (now : Int) : notExpired (claims.payload issuedMs jti) now jwtLeewaySec =
    decide (now ≤ issuedMs / 1000 + claims.ttl + 5) := by
  simp [notExpired, SignClaims.payload, jwtLeewaySec]

theorem alreadyValid_signed (now : Int) : alreadyValid (claims.payload issuedMs jti) now jwtLeewaySec =
    decide ((issuedMs : Int) / 1000 ≤ now + 5) := by
  simp [alreadyValid, SignClaims.payload, jwtLeewaySec]

theorem allowlistKey_signed (he : claims.eventId ≠ "") : allowlistKey env (claims.payload issuedMs jti) =
    if env.upstash then some (jtiKey claims.eventId jti.str) else none := by
  have hj := jti.ne_empty
  simp [allowlistKey, SignClaims.payload, Option.filter, he, hj]

theorem checkJtiAllowlist_signed (he : claims.eventId ≠ "") (lookup : String → RedisAnswer) :
    checkJtiAllowlist env lookup (claims.payload issuedMs jti) = true ↔
      (env.upstash = true → lookup (jtiKey claims.eventId jti.str) ≠ .result none) := by
  rw [checkJtiAllowlist, allowlistKey_signed he]
  by_cases hup : env.upstash = true <;> simp [hup]

theorem settable_signed (req : EdgeRequest) (claims : SignClaims) (issuedMs : Nat) (jti : RandomUuid)
    (token : String) (now : Int) :
    (req.passHeaders (claims.payload issuedMs jti) token claims.userId claims.eventId now).settable = true ↔
      headerValue claims.userId = true ∧ headerValue claims.eventId = true ∧ headerValue jti.str = true := by
  have hjti : (claims.payload issuedMs jti).jti.filter (· ≠ "") = some jti.str := by
    simp [SignClaims.payload, Option.filter, jti.ne_empty]
  rw [PassHeaders.settable, EdgeRequest.passHeaders, hjti]
  simp [and_assoc]

theorem filter_route_eq_none_iff {e : String} : req.extractEventId.filter (· ≠ e) = none ↔
    ∀ route ∈ req.extractEventId, route = e := by
  simp [Option.filter_eq_none_iff]

/-- During the lifetime of a token with both ids, its event and the allowlist decide. -/
theorem checkClaims_within (hi : claims.issuer = env.jwtIssuer) (ha : claims.audience = env.jwtAudience)
    (lookup : String → RedisAnswer) (token : String) {now : Int} (hu : claims.userId ≠ "")
    (he : claims.eventId ≠ "") (hend : now ≤ issuedMs / 1000 + claims.ttl + 5)
    (hbegin : (issuedMs : Int) / 1000 ≤ now + 5) :
    req.checkClaims env lookup token (claims.payload issuedMs jti) now =
      match req.extractEventId.filter (· ≠ claims.eventId) with
      | some route => req.deny (.eventMismatch claims.eventId route) "error" "event_mismatch"
      | none =>
        if checkJtiAllowlist env lookup (claims.payload issuedMs jti) then
          let headers := req.passHeaders (claims.payload issuedMs jti) token claims.userId claims.eventId now
          if headers.settable then .pass headers else .thrown
        else req.deny .replayedOrExpired "error" "token_consumed" := by
  have hiss : (claims.payload issuedMs jti).iss = some env.expectedIss := by
    rw [EdgeEnv.expectedIss, ← hi]
    rfl
  have haud : (claims.payload issuedMs jti).aud = some env.expectedAud := by
    rw [EdgeEnv.expectedAud, ← ha]
    rfl
  have hevent : (claims.payload issuedMs jti).eventId.filter (· ≠ "") = some claims.eventId := by
    simp [SignClaims.payload, Option.filter, he]
  have huser : (claims.payload issuedMs jti).userId.filter (· ≠ "") = some claims.userId := by
    simp [SignClaims.payload, Option.filter, hu]
  rw [EdgeRequest.checkClaims, notExpired_signed, alreadyValid_signed, hevent, huser,
    if_neg (by simpa using hend), if_neg (by simpa using hbegin), if_neg (not_not.mpr hiss),
    if_neg (not_not.mpr haud)]

theorem checkClaims_pass_within_iff (hi : claims.issuer = env.jwtIssuer)
    (ha : claims.audience = env.jwtAudience) (lookup : String → RedisAnswer) (token : String) {now : Int}
    (hu : claims.userId ≠ "") (he : claims.eventId ≠ "") (hend : now ≤ issuedMs / 1000 + claims.ttl + 5)
    (hbegin : (issuedMs : Int) / 1000 ≤ now + 5) (headers : PassHeaders) :
    req.checkClaims env lookup token (claims.payload issuedMs jti) now = .pass headers ↔
      (∀ route ∈ req.extractEventId, route = claims.eventId) ∧
        (env.upstash = true → lookup (jtiKey claims.eventId jti.str) ≠ .result none) ∧
        (headerValue claims.userId = true ∧ headerValue claims.eventId = true ∧
          headerValue jti.str = true) ∧
        headers = req.passHeaders (claims.payload issuedMs jti) token claims.userId claims.eventId now := by
  rw [checkClaims_within hi ha lookup token hu he hend hbegin, ← filter_route_eq_none_iff]
  cases req.extractEventId.filter (· ≠ claims.eventId) with
  | some route => simp [deny_ne_pass]
  | none =>
    have hlookup : checkJtiAllowlist env lookup (claims.payload issuedMs jti) = true ↔ _ :=
      checkJtiAllowlist_signed he lookup
    rw [and_iff_right rfl, ← hlookup, ← settable_signed req claims issuedMs jti token now]
    by_cases hguard : checkJtiAllowlist env lookup (claims.payload issuedMs jti) = true
    · by_cases hset : (req.passHeaders (claims.payload issuedMs jti) token claims.userId claims.eventId
          now).settable = true
      · simp only [hguard, hset, if_true, true_and, EdgeAnswer.pass.injEq]
        exact eq_comm
      · simp [hguard, hset]
    · simp [hguard, deny_ne_pass]

theorem checkClaims_signed_iff (hi : claims.issuer = env.jwtIssuer) (ha : claims.audience = env.jwtAudience)
    (lookup : String → RedisAnswer) (token : String) (now : Int) (headers : PassHeaders) :
    req.checkClaims env lookup token (claims.payload issuedMs jti) now = .pass headers ↔
      claims.userId ≠ "" ∧ claims.eventId ≠ "" ∧
        now ≤ issuedMs / 1000 + claims.ttl + 5 ∧ (issuedMs : Int) / 1000 ≤ now + 5 ∧
        (∀ route ∈ req.extractEventId, route = claims.eventId) ∧
        (env.upstash = true → lookup (jtiKey claims.eventId jti.str) ≠ .result none) ∧
        (headerValue claims.userId = true ∧ headerValue claims.eventId = true ∧
          headerValue jti.str = true) ∧
        headers = req.passHeaders (claims.payload issuedMs jti) token claims.userId claims.eventId now := by
  by_cases hlive : claims.userId ≠ "" ∧ claims.eventId ≠ "" ∧
      now ≤ issuedMs / 1000 + claims.ttl + 5 ∧ (issuedMs : Int) / 1000 ≤ now + 5
  · obtain ⟨hu, he, hend, hbegin⟩ := hlive
    rw [and_iff_right hu, and_iff_right he, and_iff_right hend, and_iff_right hbegin]
    exact checkClaims_pass_within_iff hi ha lookup token hu he hend hbegin headers
  · refine iff_of_false (fun hpass => hlive ?_) fun h => hlive ⟨h.1, h.2.1, h.2.2.1, h.2.2.2.1⟩
    obtain ⟨hend, hbegin, ⟨huser, hu⟩, hevent, he⟩ := checkClaims_pass hpass
    have huser : claims.userId = headers.userId := Option.some.inj huser
    have hevent : claims.eventId = headers.eventId := Option.some.inj hevent
    rw [notExpired_signed, decide_eq_true_iff] at hend
    rw [alreadyValid_signed, decide_eq_true_iff] at hbegin
    exact ⟨huser ▸ hu, hevent ▸ he, hend, hbegin⟩

end Passes

section BothServices

variable {R : EdgeRuntime} {J : JwtLib R} {env : EdgeEnv} {req : EdgeRequest} {p : Payload}

theorem bearer_of_prefixed {auth : String} (h : "Bearer ".toList <+: auth.toList) :
    EdgeRequest.bearer auth = true := by
  obtain ⟨rest, hrest⟩ := h
  simp only [EdgeRequest.bearer, ← hrest]
  rfl

/-- The places for a token behind the `authorization` header, as the two programs go through them. -/
theorem orElse_filter_of_getD {x c q t : Option String} {g : String} (hg : g ≠ "")
    (h : (x <|> c).getD (q.getD "") = g) :
    (x <|> c.filter (· ≠ "") <|> (q <|> t).filter (· ≠ "")) = some g := by
  have hkept : (some g).filter (· ≠ "") = some g := by
    rw [Option.filter_some, if_pos (by simpa using hg)]
  cases x with
  | some a => exact congrArg some h
  | none =>
    cases c with
    | some a =>
      obtain rfl : a = g := h
      show ((some a).filter _ <|> _) = some a
      rw [hkept]
      rfl
    | none =>
      cases q with
      | some a =>
        obtain rfl : a = g := h
        exact hkept
      | none => exact absurd h.symm hg

/-- What the booking service takes for the token, the edge takes too, where both read the prefix
of the header alike. -/
theorem extractToken_of_queueAuthToken {secret : String}
    (hbearer : ∀ a ∈ req.authorization, EdgeRequest.bearer a = true → "Bearer ".toList <+: a.toList)
    (hg : req.queueAuthToken.toList = R.compact secret p) :
    req.extractToken = some (String.ofList (R.compact secret p)) := by
  have htrim := trim_eq_self (compact_plain R secret p)
  have hof {t : String} (ht : t.toList = R.compact secret p) : String.ofList (R.compact secret p) = t := by
    rw [← ht, String.ofList_toList]
  unfold EdgeRequest.queueAuthToken at hg
  unfold EdgeRequest.extractToken
  by_cases hauth : ∃ a ∈ req.authorization, "Bearer ".toList <+: a.toList
  · obtain ⟨a, ha, hprefix⟩ := hauth
    rw [Option.mem_def.mp ha, Option.filter_some, if_pos (decide_eq_true hprefix)] at hg
    rw [Option.mem_def.mp ha, Option.filter_some, if_pos (bearer_of_prefixed hprefix)]
    have hrest : String.ofList (a.toList.drop 7) = String.ofList (R.compact secret p) := (hof hg).symm
    show some (trim (String.ofList (a.toList.drop 7))) = _
    rw [hrest, htrim]
  · have hgo : (req.authorization.filter fun a => "Bearer ".toList <+: a.toList) = none := by
      refine Option.filter_eq_none_iff.mpr fun a ha hb => ?_
      exact hauth ⟨a, ha, of_decide_eq_true hb⟩
    have hedge : req.authorization.filter EdgeRequest.bearer = none := by
      refine Option.filter_eq_none_iff.mpr fun a ha hb => ?_
      exact hauth ⟨a, ha, hbearer a ha hb⟩
    rw [hgo] at hg
    rw [hedge]
    have hne := ofList_compact_ne (R := R) secret p
    have hfallback := orElse_filter_of_getD (t := req.param "token") hne (hof hg).symm
    show Option.map trim _ = _
    rw [hfallback, Option.map_some, htrim]

end BothServices

section Demo

def demoEdgeEnv : EdgeEnv :=
  ⟨some demoSetup.secret, none, some demoSetup.issuer, some demoSetup.audience, true⟩

/-- A hold that carries its token in `x-queue-token`. -/
def holdThrough (token : List Char) : EdgeRequest where
  pathname := "/api/hold"
  search := ""
  query := []
  accept := some "application/json"
  secFetchMode := some "cors"
  authorization := none
  xQueueToken := some (String.ofList token)
  xEventId := none
  cookie := none

theorem holdThrough_queueAuthToken (R : EdgeRuntime) (secret : String) (p : Payload) :
    (holdThrough (R.compact secret p)).queueAuthToken.toList = R.compact secret p := by
  have hfilter : (some (String.ofList (R.compact secret p))).filter (· ≠ "") =
      some (String.ofList (R.compact secret p)) := by
    rw [Option.filter_some, if_pos (decide_eq_true (ofList_compact_ne secret p))]
  show (Option.getD ((some (String.ofList (R.compact secret p))).filter (· ≠ "") <|> none) "").toList = _
  rw [hfilter]
  exact String.toList_ofList

theorem holdThrough_extractToken (R : EdgeRuntime) (secret : String) (p : Payload) :
    (holdThrough (R.compact secret p)).extractToken = some (String.ofList (R.compact secret p)) :=
  extractToken_of_queueAuthToken (fun _ ha => nomatch ha) (holdThrough_queueAuthToken R secret p)

theorem hold_passes_edge : ∃ headers, middleware demoToken.runtime demoEdgeEnv (fun _ => .failed)
    (holdThrough demoSigned.token) 1790000010000 = .pass headers := by
  have hsecret : demoEdgeEnv.secret ≠ "" := by decide
  have htoken := holdThrough_extractToken demoToken.runtime demoEdgeEnv.secret demoToken.payload
  refine ⟨_, (middleware_compact hsecret htoken _ _).trans ((checkClaims_signed_iff rfl rfl _ _ _ _).mpr
    ⟨by decide, by decide, by decide, by decide, by decide, fun _ => nofun, by decide, rfl⟩)⟩

theorem hold_accepted : ∃ claims, QueueAuth (.reading demoToken.runtime) demoEdgeEnv.secret
    demoSetup.issuer demoSetup.audience (holdThrough demoSigned.token).queueAuthToken.toList
      1790000010000 = some claims := by
  have hg := holdThrough_queueAuthToken demoToken.runtime demoEdgeEnv.secret demoToken.payload
  refine ⟨⟨demoToken.payload.userId.getD "", demoToken.payload.eventId.getD "", demoJti.str⟩, ?_⟩
  rw [demoSigned, show demoSetup.secret = demoEdgeEnv.secret from rfl, hg, queueAuth_compact,
    if_pos (by decide)]
  rfl

end Demo

end CrowdTic
