import CrowdTic.Base64
import Mathlib.Data.Countable.Basic
import Mathlib.Data.List.DropRight
import Mathlib.Logic.Encodable.Basic
import Mathlib.Logic.Equiv.List
import Mathlib.Logic.Function.Basic

/-! Queue tokens: how the waiting room signs and verifies them
(`edge/waiting-room/src/index.ts`), how the Next middleware checks them
(`edge/middleware.ts`) and how the booking service does
(`internal/middleware/queue_auth.go`). Text is a list of characters. -/

namespace CrowdTic

open Base64 (Bytes)

/-- The members of the token's JSON object, absent when missing or of another type. -/
structure Payload where
  iss : Option String
  aud : Option String
  iat : Option Int
  exp : Option Int
  nbf : Option Int
  jti : Option String
  userId : Option String
  eventId : Option String
  deriving DecidableEq

/-- What the edge runtime provides. JSON text is taken together with its UTF-8 bytes, and
`parse` is `none` where the parser throws. -/
structure EdgeRuntime where
  stringify : Payload → Bytes
  parse : Bytes → Option Payload
  sign : String → List Char → Bytes
  verify : String → Bytes → List Char → Bool
  parse_stringify : ∀ p, parse (stringify p) = some p
  verify_iff : ∀ secret sig data, verify secret sig data = true ↔ sig = sign secret data

/-- The answer of `crypto.randomUUID()`. -/
structure RandomUuid where
  str : String
  ne_empty : str ≠ ""

def toUrl (c : Char) : Char := if c = '+' then '-' else if c = '/' then '_' else c

def ofUrl (c : Char) : Char := if c = '-' then '+' else if c = '_' then '/' else c

def b64urlEncode (bs : Bytes) : List Char := ((Base64.btoa bs).map toUrl).rdropWhile (· = '=')

def b64urlDecodeToBytes (s : List Char) : Option Bytes :=
  Base64.atob (s.map ofUrl ++ Base64.padding s.length)

theorem alphabet_url :
    ∀ c ∈ Base64.alphabet, toUrl c ≠ '=' ∧ toUrl c ≠ '.' ∧ ofUrl (toUrl c) = c := by
  have hall : (Base64.alphabet.all fun c =>
      decide (toUrl c ≠ '=' ∧ toUrl c ≠ '.' ∧ ofUrl (toUrl c) = c)) = true := by
    decide +kernel
  exact fun c hc => of_decide_eq_true (List.all_eq_true.mp hall c hc)

theorem b64urlEncode_eq (bs : Bytes) : b64urlEncode bs = (Base64.digits bs).map toUrl := by
  have hpad : ∀ c ∈ (Base64.padding (Base64.digits bs).length).map toUrl, decide (c = '=') = true := by
    intro c hc
    obtain ⟨d, hd, rfl⟩ := List.mem_map.mp hc
    unfold Base64.padding at hd
    split at hd
    · simp at hd
    · obtain rfl := List.eq_of_mem_replicate hd
      rfl
  have hdigits : ∀ c ∈ (Base64.digits bs).map toUrl, ¬ (decide (c = '=') = true) := by
    intro c hc
    obtain ⟨d, hd, rfl⟩ := List.mem_map.mp hc
    simpa using (alphabet_url d (Base64.digits_subset bs d hd)).1
  rw [b64urlEncode, Base64.btoa, List.map_append, List.rdropWhile, List.reverse_append,
    List.dropWhile_append_of_pos (by simpa using hpad)]
  have hh : ((Base64.digits bs).map toUrl).rdropWhile (fun c => decide (c = '=')) =
      (Base64.digits bs).map toUrl := by
    refine List.rdropWhile_eq_self_iff.mpr fun hne => ?_
    exact hdigits _ (List.getLast_mem hne)
  exact hh

theorem b64urlDecode_encode (bs : Bytes) : b64urlDecodeToBytes (b64urlEncode bs) = some bs := by
  have hback : ((Base64.digits bs).map toUrl).map ofUrl = Base64.digits bs := by
    rw [List.map_map]
    refine (List.map_congr_left fun c hc => ?_).trans (List.map_id _)
    exact (alphabet_url c (Base64.digits_subset bs c hc)).2.2
  rw [b64urlDecodeToBytes, b64urlEncode_eq, hback, List.length_map]
  exact Base64.atob_padded bs

theorem dot_not_mem (bs : Bytes) : '.' ∉ b64urlEncode bs := by
  rw [b64urlEncode_eq]
  intro h
  obtain ⟨c, hc, he⟩ := List.mem_map.mp h
  exact (alphabet_url c (Base64.digits_subset bs c hc)).2.1 he

def headerText : String := "\x7b\"alg\":\"HS256\",\"typ\":\"JWT\"\x7d"

def header : Bytes := headerText.toUTF8.toList

namespace EdgeRuntime

variable (R : EdgeRuntime)

def signedData (p : Payload) : List Char :=
  b64urlEncode header ++ '.' :: b64urlEncode (R.stringify p)

def compact (secret : String) (p : Payload) : List Char :=
  R.signedData p ++ '.' :: b64urlEncode (R.sign secret (R.signedData p))

theorem split_compact (secret : String) (p : Payload) :
    (R.compact secret p).splitOn '.' = [b64urlEncode header, b64urlEncode (R.stringify p),
      b64urlEncode (R.sign secret (R.signedData p))] := by
  rw [compact, List.splitOn_append_cons_self, signedData,
    List.splitOn_append_cons_self_of_not_mem (dot_not_mem _),
    List.splitOn_eq_singleton (dot_not_mem _), List.splitOn_eq_singleton (dot_not_mem _)]
  rfl

end EdgeRuntime

/-- White space and line ends, as `trim` takes them off. -/
def isJsSpace (c : Char) : Bool :=
  let n := c.toNat
  (9 ≤ n ∧ n ≤ 13) ∨ n = 32 ∨ n = 0xa0 ∨ n = 0x1680 ∨ (0x2000 ≤ n ∧ n ≤ 0x200a) ∨ n = 0x2028 ∨
    n = 0x2029 ∨ n = 0x202f ∨ n = 0x205f ∨ n = 0x3000 ∨ n = 0xfeff

def trim (s : String) : String :=
  String.ofList ((s.toList.dropWhile isJsSpace).rdropWhile isJsSpace)

/-- The number of UTF-16 units. -/
def jsLength (s : String) : Nat :=
  s.toList.foldr (fun c n => (if c.toNat < 0x10000 then 1 else 2) + n) 0

/-- The ids of a join, which become the claims of the user's tokens. -/
def joinIds (eventId userId : String) : Except String (String × String) :=
  let e := trim eventId
  let u := trim userId
  if e = "" ∨ u = "" then .error "event_id and user_id required"
  else if jsLength e < 8 ∨ jsLength u < 8 then .error "invalid id format"
  else .ok (e, u)

structure SignClaims where
  userId : String
  eventId : String
  ttlSec : Option Int
  issuer : Option String
  audience : Option String

structure Signed where
  token : List Char
  jti : String
  exp : Int

def defaultTtlSec : Int := 45

namespace SignClaims

variable (c : SignClaims)

def ttl : Int := c.ttlSec.getD defaultTtlSec

/-- The payload signed at the clock reading `nowMs`. -/
def payload (nowMs : Nat) (jti : RandomUuid) : Payload :=
  let now : Int := nowMs / 1000
  { iss := some (c.issuer.getD "tiket-waiting-room")
    aud := some (c.audience.getD "tiket-checkout")
    iat := some now
    exp := some (now + c.ttl)
    nbf := some now
    jti := some jti.str
    userId := some c.userId
    eventId := some c.eventId }

end SignClaims

/-- `none` is the exception of `importKey` on an empty key. -/
def signQueueToken (R : EdgeRuntime) (secret : String) (claims : SignClaims) (nowMs : Nat)
    (jti : RandomUuid) : Option Signed :=
  if secret = "" then none
  else some ⟨R.compact secret (claims.payload nowMs jti), jti.str, nowMs / 1000 + claims.ttl⟩

theorem signQueueToken_some {R : EdgeRuntime} {secret : String} {claims : SignClaims} {nowMs : Nat}
    {jti : RandomUuid} {signed : Signed}
    (h : signQueueToken R secret claims nowMs jti = some signed) : secret ≠ "" ∧
      signed = ⟨R.compact secret (claims.payload nowMs jti), jti.str, nowMs / 1000 + claims.ttl⟩ := by
  by_cases hsecret : secret = ""
  · simp [signQueueToken, hsecret] at h
  · rw [signQueueToken, if_neg hsecret] at h
    exact ⟨hsecret, (Option.some.inj h).symm⟩

inductive Verdict
  | valid (payload : Payload)
  | invalid (reason : String)
  | thrown
  deriving DecidableEq

structure VerifyOptions where
  issuer : Option String
  audience : Option String
  leewaySec : Option Int

def truthy (s : Option String) : Bool := s.any (· ≠ "")

/-- A bound on the expiry time is not exceeded, or there is no expiry time. -/
def notExpired (p : Payload) (now leeway : Int) : Bool := p.exp.all fun exp => ¬ exp + leeway < now

def alreadyValid (p : Payload) (now leeway : Int) : Bool := p.nbf.all fun nbf => ¬ now + leeway < nbf

def verifyPayload (p : Payload) (opts : VerifyOptions) (nowMs : Nat) : Verdict :=
  let leeway := opts.leewaySec.getD 5
  let now : Int := nowMs / 1000
  if !notExpired p now leeway then .invalid "expired"
  else if !alreadyValid p now leeway then .invalid "not_yet_valid"
  else if truthy opts.issuer ∧ p.iss ≠ opts.issuer then .invalid "bad_iss"
  else if truthy opts.audience ∧ p.aud ≠ opts.audience then .invalid "bad_aud"
  else if !truthy p.jti || !truthy p.userId || !truthy p.eventId then .invalid "missing_claims"
  else .valid p

def verifyQueueToken (R : EdgeRuntime) (secret : String) (token : List Char) (opts : VerifyOptions)
    (nowMs : Nat) : Verdict :=
  match token.splitOn '.' with
  | [h, p, s] =>
    if secret = "" then .thrown
    else
      match b64urlDecodeToBytes s with
      | none => .thrown
      | some sig =>
        if R.verify secret sig (h ++ '.' :: p) then
          match (b64urlDecodeToBytes p).bind R.parse with
          | none => .invalid "bad_payload"
          | some payload => verifyPayload payload opts nowMs
        else .invalid "bad_signature"
  | _ => .invalid "malformed"

/-- The payload, `none` for the `null` of the middleware. The outer `none` is an exception. -/
def hmacVerify (R : EdgeRuntime) (secret : String) (token : List Char) : Option (Option Payload) :=
  match token.splitOn '.' with
  | [h, p, s] =>
    if secret = "" then none
    else
      (b64urlDecodeToBytes s).map fun sig =>
        if R.verify secret sig (h ++ '.' :: p) then (b64urlDecodeToBytes p).bind R.parse else none
  | _ => some none

def jwtLeewaySec : Int := 5

/-- The checks of the middleware on a payload, with the `error` of its answers. -/
def middlewarePayload (p : Payload) (jwtIssuer jwtAudience : Option String) (nowMs : Nat) :
    Verdict :=
  let nowSec : Int := nowMs / 1000
  if !notExpired p nowSec jwtLeewaySec then .invalid "queue_token_expired"
  else if !alreadyValid p nowSec jwtLeewaySec then .invalid "queue_token_not_yet_valid"
  else if p.iss ≠ some (jwtIssuer.getD "tiket-waiting-room") then .invalid "bad_iss"
  else if p.aud ≠ some (jwtAudience.getD "tiket-checkout") then .invalid "bad_aud"
  else if !truthy p.eventId || !truthy p.userId then .invalid "queue_token_missing_claims"
  else .valid p

/-- The checks made once a secret is configured and the request carries a token. -/
def middlewareChecks (R : EdgeRuntime) (jwtSecret : String) (jwtIssuer jwtAudience : Option String)
    (token : List Char) (nowMs : Nat) : Verdict :=
  match hmacVerify R jwtSecret token with
  | none => .thrown
  | some none => .invalid "invalid_queue_token"
  | some (some payload) => middlewarePayload payload jwtIssuer jwtAudience nowMs

structure ParserOptions where
  issuer : String
  audience : String
  leewayMs : Int

/-- What the JWT package accepts of a payload at an instant, at the full precision of the clock. -/
def ParserOptions.accepts (o : ParserOptions) (p : Payload) (nowMs : Nat) : Prop :=
  (∀ exp ∈ p.exp, (nowMs : Int) < 1000 * exp + o.leewayMs) ∧
    (∀ nbf ∈ p.nbf, 1000 * nbf - o.leewayMs ≤ (nowMs : Int)) ∧
      (o.issuer = "" ∨ p.iss = some o.issuer) ∧ (o.audience = "" ∨ p.aud = some o.audience)

instance (o : ParserOptions) (p : Payload) (nowMs : Nat) : Decidable (o.accepts p nowMs) :=
  inferInstanceAs (Decidable (_ ∧ _ ∧ _ ∧ _))

/-- `jwt.Parse` with a key function that gives the secret. -/
structure JwtLib (R : EdgeRuntime) where
  parse : String → ParserOptions → List Char → Nat → Option Payload
  parse_compact : ∀ secret o p nowMs,
    parse secret o (R.compact secret p) nowMs = if o.accepts p nowMs then some p else none

structure QueueClaims where
  queueUserId : String
  queueEventId : String
  queueJti : String
  deriving DecidableEq

/-- `none` is the answer 401. -/
def QueueAuth {R : EdgeRuntime} (J : JwtLib R) (secret issuer audience : String)
    (tokenStr : List Char) (nowMs : Nat) : Option QueueClaims :=
  if tokenStr = [] then none
  else
    (J.parse secret ⟨issuer, audience, 5000⟩ tokenStr nowMs).map fun claims =>
      ⟨claims.userId.getD "", claims.eventId.getD "", claims.jti.getD ""⟩

structure TokenSetup where
  secret : String
  issuer : String
  audience : String

section Opened

variable (R : EdgeRuntime) (J : JwtLib R) {secret : String} (p : Payload)

theorem verifyQueueToken_compact (hs : secret ≠ "") (opts : VerifyOptions) (nowMs : Nat) :
    verifyQueueToken R secret (R.compact secret p) opts nowMs = verifyPayload p opts nowMs := by
  have hv : R.verify secret (R.sign secret (R.signedData p)) (R.signedData p) = true :=
    (R.verify_iff _ _ _).mpr rfl
  rw [EdgeRuntime.signedData] at hv
  simp [verifyQueueToken, R.split_compact, hs, b64urlDecode_encode, EdgeRuntime.signedData, hv,
    R.parse_stringify]

theorem middlewareChecks_compact (hs : secret ≠ "") (jwtIssuer jwtAudience : Option String)
    (nowMs : Nat) : middlewareChecks R secret jwtIssuer jwtAudience (R.compact secret p) nowMs =
      middlewarePayload p jwtIssuer jwtAudience nowMs := by
  have hv : R.verify secret (R.sign secret (R.signedData p)) (R.signedData p) = true :=
    (R.verify_iff _ _ _).mpr rfl
  rw [EdgeRuntime.signedData] at hv
  simp [middlewareChecks, hmacVerify, R.split_compact, hs, b64urlDecode_encode, EdgeRuntime.signedData,
    hv, R.parse_stringify]

theorem queueAuth_compact (issuer audience : String) (nowMs : Nat) :
    QueueAuth J secret issuer audience (R.compact secret p) nowMs =
      if ParserOptions.accepts ⟨issuer, audience, 5000⟩ p nowMs then
        some ⟨p.userId.getD "", p.eventId.getD "", p.jti.getD ""⟩
      else none := by
  have hne : R.compact secret p ≠ [] := by simp [EdgeRuntime.compact]
  rw [QueueAuth, if_neg hne, J.parse_compact]
  by_cases h : ParserOptions.accepts ⟨issuer, audience, 5000⟩ p nowMs <;> simp [h]

end Opened

section Sample

/-- A payload with its JSON text and the MAC of its token. -/
structure TokenSample where
  secret : String
  payload : Payload
  json : Bytes
  mac : Bytes
  brace : json.head? = some 123

theorem exists_payload_code : ∃ f : Payload → Nat, Function.Injective f := by
  have : Countable Char := Function.Injective.countable (f := Char.toNat) fun _ _ => Char.toNat_inj.mp
  have : Countable String :=
    Function.Injective.countable (f := String.toList) fun _ _ => String.toList_injective
  have : Countable Payload := Function.Injective.countable
    (f := fun p : Payload => (p.iss, p.aud, p.iat, p.exp, p.nbf, p.jti, p.userId, p.eventId))
    fun p q h => by cases p; cases q; simp_all
  exact Countable.exists_injective_nat Payload

namespace TokenSample

variable (x : TokenSample)

def data : List Char := b64urlEncode header ++ '.' :: b64urlEncode x.json

/-- A runtime that has the sample's JSON text and MAC, and some other text for other payloads. -/
noncomputable def runtime : EdgeRuntime where
  stringify p :=
    if p = x.payload then x.json else List.replicate (exists_payload_code.choose p + 1) 0
  parse b :=
    if b = x.json then some x.payload
    else Function.partialInv exists_payload_code.choose (b.length - 1)
  sign secret data := if secret = x.secret ∧ data = x.data then x.mac else []
  verify secret sig data := decide (sig = if secret = x.secret ∧ data = x.data then x.mac else [])
  parse_stringify p := by
    by_cases hp : p = x.payload
    · simp [hp]
    · have hne : List.replicate (exists_payload_code.choose p + 1) (0 : UInt8) ≠ x.json := by
        intro h
        have hh := x.brace
        rw [← h, List.replicate_succ, List.head?_cons] at hh
        exact absurd hh (by decide)
      simp [hp, hne, Function.partialInv_left exists_payload_code.choose_spec]
  verify_iff secret sig data := by simp

end TokenSample

/-- A parser that reads a token the way the edge does. -/
def JwtLib.reading (R : EdgeRuntime) : JwtLib R where
  parse secret o token nowMs :=
    match token.splitOn '.' with
    | [h, p, s] =>
      (b64urlDecodeToBytes s).bind fun sig =>
        if R.verify secret sig (h ++ '.' :: p) then
          ((b64urlDecodeToBytes p).bind R.parse).filter fun q => o.accepts q nowMs
        else none
    | _ => none
  parse_compact secret o p nowMs := by
    have hv : R.verify secret (R.sign secret (R.signedData p)) (R.signedData p) = true :=
      (R.verify_iff _ _ _).mpr rfl
    rw [EdgeRuntime.signedData] at hv
    simp [R.split_compact, b64urlDecode_encode, EdgeRuntime.signedData, hv, R.parse_stringify,
      Option.filter]

def demoSetup : TokenSetup :=
  ⟨"change-me-super-secret-32chars!!", "tiket-waiting-room", "tiket-checkout"⟩

def demoJti : RandomUuid := ⟨"550e8400-e29b-41d4-a716-446655440099", by decide⟩

def demoIssuedMs : Nat := 1790000000000

def demoClaims (userId : String) : SignClaims where
  userId := userId
  eventId := "550e8400-e29b-41d4-a716-446655440010"
  ttlSec := none
  issuer := some demoSetup.issuer
  audience := some demoSetup.audience

def demoSample (userId : String) (mac : Bytes) : TokenSample where
  secret := demoSetup.secret
  payload := (demoClaims userId).payload demoIssuedMs demoJti
  json := 123 :: ("\"iss\":\"tiket-waiting-room\",\"aud\":\"tiket-checkout\",\"iat\":1790000000," ++
    "\"exp\":1790000045,\"nbf\":1790000000,\"jti\":\"550e8400-e29b-41d4-a716-446655440099\"," ++
    "\"user_id\":\"" ++ userId ++
    "\",\"event_id\":\"550e8400-e29b-41d4-a716-446655440010\"\x7d").toUTF8.toList
  mac := mac
  brace := rfl

end Sample

end CrowdTic
