import CrowdTic.QueueToken

/-! The three verifiers of a queue token on the same token at the same instant.
They part in the second in which the leeway after the expiry time runs out. -/

namespace CrowdTic

def Verdict.accepted : Verdict → Bool
  | .valid _ => true
  | _ => false

def VerifiersAgree (R : EdgeRuntime) (J : JwtLib R) (c : TokenSetup) (token : List Char)
    (nowMs : Nat) : Prop :=
  let waitingRoom := (verifyQueueToken R c.secret token ⟨some c.issuer, some c.audience, none⟩ nowMs).accepted
  let next := (middlewareChecks R c.secret (some c.issuer) (some c.audience) token nowMs).accepted
  let booking := (QueueAuth J c.secret c.issuer c.audience token nowMs).isSome
  waitingRoom = next ∧ next = booking

section Signed

variable {claims : SignClaims} {issuer audience : String}

/-- The seconds in which the edge accepts a token: up to five after its expiry time. -/
theorem verifyPayload_signed (hu : claims.userId ≠ "") (he : claims.eventId ≠ "")
    (hi : claims.issuer = some issuer) (ha : claims.audience = some audience)
    (issuedMs nowMs : Nat) (jti : RandomUuid) :
    (verifyPayload (claims.payload issuedMs jti) ⟨some issuer, some audience, none⟩ nowMs).accepted =
      decide ((nowMs : Int) / 1000 ≤ issuedMs / 1000 + claims.ttl + 5 ∧
        (issuedMs : Int) / 1000 ≤ nowMs / 1000 + 5) := by
  have hj := jti.ne_empty
  simp only [verifyPayload, SignClaims.payload, notExpired, alreadyValid, truthy, hi, ha]
  by_cases h1 : (nowMs : Int) / 1000 ≤ issuedMs / 1000 + claims.ttl + 5 <;>
    by_cases h2 : (issuedMs : Int) / 1000 ≤ nowMs / 1000 + 5 <;>
      simp_all [Verdict.accepted]

theorem middlewarePayload_signed (hu : claims.userId ≠ "") (he : claims.eventId ≠ "")
    (hi : claims.issuer = some issuer) (ha : claims.audience = some audience)
    (issuedMs nowMs : Nat) (jti : RandomUuid) :
    (middlewarePayload (claims.payload issuedMs jti) (some issuer) (some audience) nowMs).accepted =
      decide ((nowMs : Int) / 1000 ≤ issuedMs / 1000 + claims.ttl + 5 ∧
        (issuedMs : Int) / 1000 ≤ nowMs / 1000 + 5) := by
  simp only [middlewarePayload, SignClaims.payload, notExpired, alreadyValid, truthy, hi, ha,
    jwtLeewaySec]
  by_cases h1 : (nowMs : Int) / 1000 ≤ issuedMs / 1000 + claims.ttl + 5 <;>
    by_cases h2 : (issuedMs : Int) / 1000 ≤ nowMs / 1000 + 5 <;>
      simp_all [Verdict.accepted]

theorem accepts_signed (hi : claims.issuer = some issuer) (ha : claims.audience = some audience)
    (issuedMs nowMs : Nat) (jti : RandomUuid) :
    ParserOptions.accepts ⟨issuer, audience, 5000⟩ (claims.payload issuedMs jti) nowMs ↔
      (nowMs : Int) / 1000 < issuedMs / 1000 + claims.ttl + 5 ∧
        (issuedMs : Int) / 1000 ≤ nowMs / 1000 + 5 := by
  simp only [ParserOptions.accepts, SignClaims.payload, hi, ha, Option.getD_some, or_true,
    and_true, Option.mem_some_iff, forall_eq']
  omega

end Signed

/-- The verifiers agree exactly outside of one second: the one that starts five seconds after the
expiry time. A lifetime below minus ten seconds leaves no second in which anyone accepts. -/
theorem verifiers_agree_iff (R : EdgeRuntime) (J : JwtLib R) (c : TokenSetup) (claims : SignClaims)
    (hu : claims.userId ≠ "") (he : claims.eventId ≠ "") (hi : claims.issuer = some c.issuer)
    (ha : claims.audience = some c.audience) (issuedMs : Nat) (jti : RandomUuid) (signed : Signed)
    (hs : signQueueToken R c.secret claims issuedMs jti = some signed) (nowMs : Nat) :
    VerifiersAgree R J c signed.token nowMs ↔
      (nowMs : Int) / 1000 ≠ issuedMs / 1000 + claims.ttl + 5 ∨ claims.ttl < -10 := by
  obtain ⟨hsecret, rfl⟩ := signQueueToken_some hs
  have hroom := verifyPayload_signed hu he hi ha issuedMs nowMs jti
  have hnext := middlewarePayload_signed hu he hi ha issuedMs nowMs jti
  have hbooking := accepts_signed hi ha issuedMs nowMs jti
  simp only [VerifiersAgree, verifyQueueToken_compact R _ hsecret,
    middlewareChecks_compact R _ hsecret, queueAuth_compact R J, hroom, hnext]
  rw [true_and]
  by_cases h : ParserOptions.accepts ⟨c.issuer, c.audience, 5000⟩ (claims.payload issuedMs jti) nowMs
  · have hin := hbooking.mp h
    rw [if_pos h, Option.isSome_some, decide_eq_true_eq]
    omega
  · have hout := hbooking.not.mp h
    rw [if_neg h, Option.isSome_none, decide_eq_false_iff_not]
    omega

section Demo

def demoToken : TokenSample :=
  demoSample "550e8400-e29b-41d4-a716-446655440030"
    [29, 253, 73, 73, 19, 248, 109, 158, 51, 19, 161, 12, 91, 177, 165, 224, 198, 41, 224, 153, 134,
      234, 2, 86, 195, 46, 121, 103, 106, 97, 69, 16]

noncomputable def demoSigned : Signed :=
  ⟨demoToken.runtime.compact demoSetup.secret demoToken.payload, demoJti.str, 1790000045⟩

theorem demo_signed : signQueueToken demoToken.runtime demoSetup.secret
    (demoClaims "550e8400-e29b-41d4-a716-446655440030") demoIssuedMs demoJti = some demoSigned := by
  rw [signQueueToken, if_neg (by decide)]
  rfl

/-- Five seconds after the expiry time the edge still accepts, and the booking service does not. -/
theorem edge_accepts_longer :
    ¬ ∀ (R : EdgeRuntime) (J : JwtLib R) (c : TokenSetup) (claims : SignClaims)
      (_ : claims.userId ≠ "") (_ : claims.eventId ≠ "") (_ : claims.issuer = some c.issuer)
      (_ : claims.audience = some c.audience) (issuedMs : Nat) (jti : RandomUuid) (signed : Signed)
      (_ : signQueueToken R c.secret claims issuedMs jti = some signed) (nowMs : Nat),
      VerifiersAgree R J c signed.token nowMs := by
  intro h
  have hagree := h _ (.reading _) demoSetup _ (by decide) (by decide) rfl rfl demoIssuedMs demoJti
    demoSigned demo_signed 1790000050000
  have hne : demoSetup.secret ≠ "" := by decide
  have hnext : (middlewareChecks demoToken.runtime demoSetup.secret (some demoSetup.issuer)
      (some demoSetup.audience) demoSigned.token 1790000050000).accepted = true := by
    rw [demoSigned, middlewareChecks_compact _ _ hne]
    decide
  have hbooking : (QueueAuth (.reading demoToken.runtime) demoSetup.secret demoSetup.issuer
      demoSetup.audience demoSigned.token 1790000050000).isSome = false := by
    rw [demoSigned, queueAuth_compact, if_neg (by decide)]
    rfl
  have hlast := hagree.2
  rw [hnext, hbooking] at hlast
  exact absurd hlast (by decide)

theorem verifiers_agree_before :
    VerifiersAgree demoToken.runtime (.reading _) demoSetup demoSigned.token 1790000049999 :=
  (verifiers_agree_iff demoToken.runtime (.reading _) demoSetup _ (by decide) (by decide) rfl rfl
    demoIssuedMs demoJti demoSigned demo_signed 1790000049999).mpr (.inl (by decide))

end Demo

end CrowdTic
