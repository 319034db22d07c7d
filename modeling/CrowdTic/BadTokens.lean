import CrowdTic.TokenRoundTrip
import Mathlib.Algebra.Order.Field.Rat

/-! What `verifyQueueToken` and `hmacVerify` do with any text for a token, whose
payload may be any JSON value. Both decode the signature outside of their `try`,
and the first reads the members of a payload that may be `null`. -/

namespace CrowdTic

open Base64 (Bytes)

/-- A number of `JSON.parse`, which reads too large a literal as an infinity. -/
inductive JsNumber
  | finite (q : ℚ)
  | infinite (negative : Bool)

inductive Json
  | null
  | bool (b : Bool)
  | num (n : JsNumber)
  | str (s : String)
  | arr (items : List Json)
  | obj (members : List (String × Json))

/-- What the two functions use of their runtime. `parse` reads JSON text from its UTF-8 bytes, and is
`none` where `JSON.parse` throws. -/
structure JsonRuntime where
  parse : Bytes → Option Json
  verify : String → Bytes → List Char → Bool

inductive JsonVerdict
  | valid (payload : Json)
  | invalid (reason : String)
  | thrown

/-- `now > exp + leeway` -/
def JsNumber.expired (exp : JsNumber) (now leeway : Int) : Bool :=
  match exp with
  | .finite q => q + leeway < now
  | .infinite negative => negative

/-- `now + leeway < nbf` -/
def JsNumber.early (nbf : JsNumber) (now leeway : Int) : Bool :=
  match nbf with
  | .finite q => now + leeway < q
  | .infinite negative => !negative

namespace Json

/-- A member of an object, `none` for `undefined`. Of two members of one name the last counts. -/
def field (v : Json) (name : String) : Option Json :=
  match v with
  | .obj members => (members.reverse.find? fun m => m.1 = name).map Prod.snd
  | _ => none

def truthy : Option Json → Bool
  | none | some .null => false
  | some (.bool b) => b
  | some (.num (.finite q)) => q ≠ 0
  | some (.str s) => s ≠ ""
  | some (.num (.infinite _)) | some (.arr _) | some (.obj _) => true

def isText : Option Json → Option String → Bool
  | some (.str t), some s => t = s
  | _, _ => false

/-- The checks behind the signature's, on a payload that has members or none. -/
def checks (payload : Json) (opts : VerifyOptions) (nowMs : Nat) : JsonVerdict :=
  let leeway := opts.leewaySec.getD 5
  let now : Int := nowMs / 1000
  let expired := match payload.field "exp" with
    | some (.num exp) => exp.expired now leeway
    | _ => false
  let early := match payload.field "nbf" with
    | some (.num nbf) => nbf.early now leeway
    | _ => false
  if expired then .invalid "expired"
  else if early then .invalid "not_yet_valid"
  else if CrowdTic.truthy opts.issuer ∧ isText (payload.field "iss") opts.issuer = false then
    .invalid "bad_iss"
  else if CrowdTic.truthy opts.audience ∧ isText (payload.field "aud") opts.audience = false then
    .invalid "bad_aud"
  else if !truthy (payload.field "jti") || !truthy (payload.field "user_id") ||
      !truthy (payload.field "event_id") then .invalid "missing_claims"
  else .valid payload

/-- Reading a member of `null` throws. -/
def verify (payload : Json) (opts : VerifyOptions) (nowMs : Nat) : JsonVerdict :=
  match payload with
  | .null => .thrown
  | payload => payload.checks opts nowMs

end Json

namespace JsonRuntime

variable (R : JsonRuntime)

def verifyQueueToken (secret : String) (token : List Char) (opts : VerifyOptions) (nowMs : Nat) :
    JsonVerdict :=
  match token.splitOn '.' with
  | [h, p, s] =>
    if secret = "" then .thrown
    else
      match b64urlDecodeToBytes s with
      | none => .thrown
      | some sigBytes =>
        if R.verify secret sigBytes (h ++ '.' :: p) then
          match (b64urlDecodeToBytes p).bind R.parse with
          | none => .invalid "bad_payload"
          | some payload => payload.verify opts nowMs
        else .invalid "bad_signature"
  | _ => .invalid "malformed"

/-- The outer `none` is an exception, the inner one the answer `null`. -/
def hmacVerify (secret : String) (token : List Char) : Option (Option Json) :=
  match token.splitOn '.' with
  | [h, p, s] =>
    if secret = "" then none
    else
      match b64urlDecodeToBytes s with
      | none => none
      | some sig =>
        if R.verify secret sig (h ++ '.' :: p) then some ((b64urlDecodeToBytes p).bind R.parse)
        else some none
  | _ => some none

/-- The key can be imported, and the third part is base64 text once it is padded. -/
def Opens (secret : String) (s : List Char) : Prop :=
  secret ≠ "" ∧ Base64.Valid (s.map ofUrl ++ Base64.padding s.length)

/-- The parts carry the right MAC over a payload that is the JSON value `null`. -/
def SignsNull (secret : String) (h p s : List Char) : Prop :=
  ∃ sig, b64urlDecodeToBytes s = some sig ∧ R.verify secret sig (h ++ '.' :: p) = true ∧
    (b64urlDecodeToBytes p).bind R.parse = some .null

end JsonRuntime

theorem decode_isSome_iff (s : List Char) : (b64urlDecodeToBytes s).isSome = true ↔
    Base64.Valid (s.map ofUrl ++ Base64.padding s.length) := Base64.atob_isSome_iff _

theorem Json.verify_thrown_iff (payload : Json) (opts : VerifyOptions) (nowMs : Nat) :
    payload.verify opts nowMs = .thrown ↔ payload = .null := by
  cases payload with
  | null => exact iff_of_true rfl rfl
  | _ =>
    refine iff_of_false (fun h => ?_) (by simp)
    unfold Json.verify Json.checks at h
    dsimp only at h
    split_ifs at h

section Throws

variable (R : JsonRuntime) (secret : String) {token h p s : List Char} (opts : VerifyOptions)
  (nowMs : Nat)

theorem verifyQueueToken_malformed (hparts : ∀ h p s, token.splitOn '.' ≠ [h, p, s]) :
    R.verifyQueueToken secret token opts nowMs = .invalid "malformed" ∧
      R.hmacVerify secret token = some none := by
  unfold JsonRuntime.verifyQueueToken JsonRuntime.hmacVerify
  split
  · rename_i h p s hsplit
    exact absurd hsplit (hparts h p s)
  · exact ⟨rfl, rfl⟩

theorem verifyQueueToken_thrown_iff (hparts : token.splitOn '.' = [h, p, s]) :
    R.verifyQueueToken secret token opts nowMs = .thrown ↔
      ¬ JsonRuntime.Opens secret s ∨ R.SignsNull secret h p s := by
  simp only [JsonRuntime.verifyQueueToken, hparts, JsonRuntime.Opens, JsonRuntime.SignsNull,
    ← decode_isSome_iff]
  by_cases hs : secret = ""
  · simp [hs]
  · rw [if_neg hs]
    cases hsig : b64urlDecodeToBytes s with
    | none => simp
    | some sig =>
      dsimp only
      by_cases hv : R.verify secret sig (h ++ '.' :: p) = true
      · rw [if_pos hv]
        cases hp : (b64urlDecodeToBytes p).bind R.parse with
        | none => simp [hs]
        | some payload => simp [hs, hv, Json.verify_thrown_iff]
      · simp [hs, hv]

theorem hmacVerify_thrown_iff (hparts : token.splitOn '.' = [h, p, s]) :
    R.hmacVerify secret token = none ↔ ¬ JsonRuntime.Opens secret s := by
  simp only [JsonRuntime.hmacVerify, hparts, JsonRuntime.Opens, ← decode_isSome_iff]
  by_cases hs : secret = ""
  · simp [hs]
  · rw [if_neg hs]
    cases b64urlDecodeToBytes s with
    | none => simp
    | some sig =>
      dsimp only
      by_cases hv : R.verify secret sig (h ++ '.' :: p) = true <;> simp [hs, hv]

/-- Neither function throws on a token exactly when it is not in three parts, or the key is not
empty, the third part is base64, and the token is no right signature of `null`. -/
theorem bad_tokens_rejected_iff (token : List Char) :
    R.verifyQueueToken secret token opts nowMs ≠ .thrown ∧ R.hmacVerify secret token ≠ none ↔
      ∀ h p s, token.splitOn '.' = [h, p, s] →
        JsonRuntime.Opens secret s ∧ ¬ R.SignsNull secret h p s := by
  by_cases hparts : ∃ h p s, token.splitOn '.' = [h, p, s]
  · obtain ⟨h, p, s, hsplit⟩ := hparts
    rw [Ne, verifyQueueToken_thrown_iff R secret opts nowMs hsplit, Ne,
      hmacVerify_thrown_iff R secret hsplit]
    constructor
    · rintro ⟨hthrown, _⟩ h' p' s' hsplit'
      obtain ⟨rfl, rfl, rfl⟩ : h = h' ∧ p = p' ∧ s = s' := by
        simpa using hsplit.symm.trans hsplit'
      obtain ⟨hopens, hnull⟩ := not_or.mp hthrown
      exact ⟨not_not.mp hopens, hnull⟩
    · intro hall
      obtain ⟨hopens, hnull⟩ := hall h p s hsplit
      exact ⟨not_or.mpr ⟨not_not.mpr hopens, hnull⟩, not_not.mpr hopens⟩
  · push Not at hparts
    obtain ⟨hverify, hmac⟩ := verifyQueueToken_malformed R secret opts nowMs hparts
    rw [hverify, hmac]
    exact iff_of_true (by simp) fun h p s hsplit => absurd hsplit (hparts h p s)

end Throws

/-- A third part of one character is no base64. -/
theorem garbage_token_throws : ¬ ∀ (R : JsonRuntime) (secret : String) (token : List Char)
    (opts : VerifyOptions) (nowMs : Nat), secret ≠ "" →
    R.verifyQueueToken secret token opts nowMs ≠ .thrown ∧ R.hmacVerify secret token ≠ none := by
  intro h
  have hthrown := (h ⟨fun _ => none, fun _ _ _ => false⟩ "s" "x.y.z".toList ⟨none, none, none⟩ 0
    (by decide)).2
  have hparts : "x.y.z".toList.splitOn '.' = [['x'], ['y'], ['z']] := by decide
  exact hthrown ((hmacVerify_thrown_iff _ _ hparts).mpr fun ho => absurd ho.2 (by decide +kernel))

section Payloads

def member (name : String) (v : Option Json) : List (String × Json) := v.toList.map fun v => (name, v)

def Payload.toJson (p : Payload) : Json :=
  .obj (member "iss" (p.iss.map .str) ++ member "aud" (p.aud.map .str) ++
    member "iat" (p.iat.map fun n => .num (.finite n)) ++
    member "exp" (p.exp.map fun n => .num (.finite n)) ++
    member "nbf" (p.nbf.map fun n => .num (.finite n)) ++ member "jti" (p.jti.map .str) ++
    member "user_id" (p.userId.map .str) ++ member "event_id" (p.eventId.map .str))

def Verdict.toJson : Verdict → JsonVerdict
  | .valid p => .valid p.toJson
  | .invalid reason => .invalid reason
  | .thrown => .thrown

theorem find_member (name other : String) (v : Option Json) :
    ((member other v).reverse.find? fun m => m.1 = name) =
      if other = name then v.map fun v => (name, v) else none := by
  cases v with
  | none => simp [member]
  | some v =>
    by_cases h : other = name
    · subst h
      simp [member]
    · simp [member, h]

theorem field_toJson (p : Payload) : p.toJson.field "iss" = p.iss.map .str ∧
    p.toJson.field "aud" = p.aud.map .str ∧
    p.toJson.field "exp" = p.exp.map (fun n => .num (.finite n)) ∧
    p.toJson.field "nbf" = p.nbf.map (fun n => .num (.finite n)) ∧
    p.toJson.field "jti" = p.jti.map .str ∧ p.toJson.field "user_id" = p.userId.map .str ∧
    p.toJson.field "event_id" = p.eventId.map .str := by
  simp only [Payload.toJson, Json.field, List.reverse_append, List.find?_append, find_member]
  refine ⟨?_, ?_, ?_, ?_, ?_, ?_, ?_⟩
  · cases p.iss <;> rfl
  · cases p.aud <;> rfl
  · cases p.exp <;> rfl
  · cases p.nbf <;> rfl
  · cases p.jti <;> rfl
  · cases p.userId <;> rfl
  · cases p.eventId <;> rfl

theorem truthy_str (v : Option String) : Json.truthy (v.map .str) = truthy v := by
  cases v <;> rfl

theorem isText_str {v w : Option String} (h : truthy w = true) :
    Json.isText (v.map .str) w = false ↔ v ≠ w := by
  cases w with
  | none => simp [truthy] at h
  | some w => cases v <;> simp [Json.isText]

theorem verify_toJson (p : Payload) (opts : VerifyOptions) (nowMs : Nat) :
    p.toJson.verify opts nowMs = (verifyPayload p opts nowMs).toJson := by
  obtain ⟨hiss, haud, hexp, hnbf, hjti, huser, hevent⟩ := field_toJson p
  have hexpired : (match p.toJson.field "exp" with
      | some (.num exp) => exp.expired (nowMs / 1000) (opts.leewaySec.getD 5)
      | _ => false) = !notExpired p (nowMs / 1000) (opts.leewaySec.getD 5) := by
    rw [hexp, notExpired]
    cases p.exp with
    | none => rfl
    | some exp =>
      have hcast : ((exp : ℚ) + (opts.leewaySec.getD 5 : Int) < ((nowMs / 1000 : Int) : ℚ)) ↔
          exp + opts.leewaySec.getD 5 < nowMs / 1000 := by norm_cast
      simp only [Option.map_some, JsNumber.expired, hcast, Option.all_some, decide_not, Bool.not_not]
  have hearly : (match p.toJson.field "nbf" with
      | some (.num nbf) => nbf.early (nowMs / 1000) (opts.leewaySec.getD 5)
      | _ => false) = !alreadyValid p (nowMs / 1000) (opts.leewaySec.getD 5) := by
    rw [hnbf, alreadyValid]
    cases p.nbf with
    | none => rfl
    | some nbf =>
      have hcast : ((nowMs / 1000 : Int) : ℚ) + (opts.leewaySec.getD 5 : Int) < (nbf : ℚ) ↔
          nowMs / 1000 + opts.leewaySec.getD 5 < nbf := by norm_cast
      simp only [Option.map_some, JsNumber.early, hcast, Option.all_some, decide_not, Bool.not_not]
  have hissuer : truthy opts.issuer = true ∧ Json.isText (p.iss.map .str) opts.issuer = false ↔
      truthy opts.issuer = true ∧ p.iss ≠ opts.issuer := and_congr_right isText_str
  have haudience : truthy opts.audience = true ∧ Json.isText (p.aud.map .str) opts.audience = false ↔
      truthy opts.audience = true ∧ p.aud ≠ opts.audience := and_congr_right isText_str
  show p.toJson.checks opts nowMs = _
  unfold Json.checks verifyPayload
  simp only [hexpired, hearly, hiss, haud, hjti, huser, hevent, hissuer, haudience, truthy_str]
  split_ifs <;> rfl

/-- A runtime that reads the same payloads as JSON values. -/
structure JsonRuntime.Reads (J : JsonRuntime) (R : EdgeRuntime) : Prop where
  verify : J.verify = R.verify
  parse : ∀ bs, J.parse bs = (R.parse bs).map Payload.toJson

variable {J : JsonRuntime} {R : EdgeRuntime}

theorem parse_toJson (h : J.Reads R) (p : List Char) : (b64urlDecodeToBytes p).bind J.parse =
    ((b64urlDecodeToBytes p).bind R.parse).map Payload.toJson := by
  cases b64urlDecodeToBytes p with
  | none => rfl
  | some bs => exact h.parse bs

/-- On claims of the expected types the functions answer as those of the token's own claims do. -/
theorem verifyQueueToken_toJson (h : J.Reads R) (secret : String) (token : List Char)
    (opts : VerifyOptions) (nowMs : Nat) : J.verifyQueueToken secret token opts nowMs =
      (verifyQueueToken R secret token opts nowMs).toJson := by
  unfold JsonRuntime.verifyQueueToken verifyQueueToken
  rcases token.splitOn '.' with _ | ⟨h', _ | ⟨p, _ | ⟨s, _ | ⟨t, rest⟩⟩⟩⟩
  case cons.cons.cons.nil =>
    dsimp only
    by_cases hs : secret = ""
    · rw [if_pos hs, if_pos hs]
      rfl
    · rw [if_neg hs, if_neg hs]
      cases b64urlDecodeToBytes s with
      | none => rfl
      | some sig =>
        dsimp only
        rw [h.verify, parse_toJson h]
        by_cases hv : R.verify secret sig (h' ++ '.' :: p) = true
        · rw [if_pos hv, if_pos hv]
          cases (b64urlDecodeToBytes p).bind R.parse with
          | none => rfl
          | some payload => exact verify_toJson payload opts nowMs
        · rw [if_neg hv, if_neg hv]
          rfl
  all_goals rfl

theorem hmacVerify_toJson (h : J.Reads R) (secret : String) (token : List Char) :
    J.hmacVerify secret token = (hmacVerify R secret token).map (Option.map Payload.toJson) := by
  unfold JsonRuntime.hmacVerify hmacVerify
  rcases token.splitOn '.' with _ | ⟨h', _ | ⟨p, _ | ⟨s, _ | ⟨t, rest⟩⟩⟩⟩
  case cons.cons.cons.nil =>
    dsimp only
    by_cases hs : secret = ""
    · rw [if_pos hs, if_pos hs]
      rfl
    · rw [if_neg hs, if_neg hs]
      cases b64urlDecodeToBytes s with
      | none => rfl
      | some sig =>
        dsimp only [Option.map_some]
        rw [h.verify, parse_toJson h]
        by_cases hv : R.verify secret sig (h' ++ '.' :: p) = true
        · rw [if_pos hv, if_pos hv]
        · rw [if_neg hv, if_neg hv]
          rfl
  all_goals rfl

end Payloads

end CrowdTic
