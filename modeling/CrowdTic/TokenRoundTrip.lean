import CrowdTic.Verifiers

/-! Verifying undoes signing: a token that the waiting room has signed opens to
its claims from the time of issue until the leeway after its expiry ends. An
empty secret signs nothing, since it is no HMAC key. -/

namespace CrowdTic

open Base64 (Bytes)

theorem length_split_compact (R : EdgeRuntime) (secret : String) (p : Payload) :
    ((R.compact secret p).splitOn '.').length = 3 := by
  rw [R.split_compact]
  rfl

section Verify

variable {claims : SignClaims} {issuedMs nowMs : Nat} {leewaySec : Option Int}

theorem verifyPayload_own (hu : claims.userId ≠ "") (he : claims.eventId ≠ "") (jti : RandomUuid)
    (hl : 0 ≤ leewaySec.getD 5) (hissue : issuedMs ≤ nowMs)
    (hexp : (nowMs : Int) / 1000 ≤ issuedMs / 1000 + claims.ttl + leewaySec.getD 5) :
    verifyPayload (claims.payload issuedMs jti) ⟨none, none, leewaySec⟩ nowMs =
      .valid (claims.payload issuedMs jti) := by
  have hin : notExpired (claims.payload issuedMs jti) (nowMs / 1000) (leewaySec.getD 5) = true := by
    simp only [notExpired, SignClaims.payload, Option.all_some, decide_eq_true_eq]
    omega
  have hstarted : alreadyValid (claims.payload issuedMs jti) (nowMs / 1000) (leewaySec.getD 5) =
      true := by
    simp only [alreadyValid, SignClaims.payload, Option.all_some, decide_eq_true_eq]
    omega
  have hclaims : truthy (claims.payload issuedMs jti).jti = true ∧
      truthy (claims.payload issuedMs jti).userId = true ∧
      truthy (claims.payload issuedMs jti).eventId = true := by
    simp [truthy, SignClaims.payload, jti.ne_empty, hu, he]
  rw [verifyPayload]
  simp only [hin, hstarted, hclaims.1, hclaims.2.1, hclaims.2.2]
  simp [truthy]

end Verify

/-- What the waiting room signs with a key opens to the same claims while the token lives. -/
theorem verify_undoes_sign (R : EdgeRuntime) {secret : String} (hs : secret ≠ "")
    (claims : SignClaims) (hu : claims.userId ≠ "") (he : claims.eventId ≠ "") (issuedMs : Nat)
    (jti : RandomUuid) :
    (∀ bs : Bytes, b64urlDecodeToBytes (b64urlEncode bs) = some bs) ∧
    ∃ signed, signQueueToken R secret claims issuedMs jti = some signed ∧
      (signed.token.splitOn '.').length = 3 ∧
      ∀ (leewaySec : Option Int) (nowMs : Nat), 0 ≤ leewaySec.getD 5 → issuedMs ≤ nowMs →
        (nowMs : Int) / 1000 ≤ signed.exp + leewaySec.getD 5 →
        ∃ p, verifyQueueToken R secret signed.token ⟨none, none, leewaySec⟩ nowMs = .valid p ∧
          p.userId = some claims.userId ∧ p.eventId = some claims.eventId ∧
          p.iss = some (claims.issuer.getD "tiket-waiting-room") ∧
          p.aud = some (claims.audience.getD "tiket-checkout") ∧ p.jti = some signed.jti := by
  refine ⟨b64urlDecode_encode, _, if_neg hs, length_split_compact R secret _, ?_⟩
  intro leewaySec nowMs hl hissue hexp
  refine ⟨claims.payload issuedMs jti, ?_, rfl, rfl, rfl, rfl, rfl⟩
  rw [verifyQueueToken_compact R _ hs]
  exact verifyPayload_own hu he jti hl hissue hexp

theorem empty_secret_signs_nothing : ¬ ∀ (R : EdgeRuntime) (secret : String) (claims : SignClaims)
    (_ : claims.userId ≠ "") (_ : claims.eventId ≠ "") (issuedMs : Nat) (jti : RandomUuid),
    ∃ signed p, signQueueToken R secret claims issuedMs jti = some signed ∧
      verifyQueueToken R secret signed.token ⟨none, none, none⟩ issuedMs = .valid p := by
  intro h
  obtain ⟨signed, p, hsigned, _⟩ := h demoToken.runtime "" (demoClaims "alice-01") (by decide)
    (by decide) demoIssuedMs demoJti
  exact absurd hsigned (by simp [signQueueToken])

theorem demo_round_trip : ∃ p, verifyQueueToken demoToken.runtime demoSetup.secret demoSigned.token
    ⟨none, none, none⟩ 1790000050000 = .valid p ∧
      p.userId = some "550e8400-e29b-41d4-a716-446655440030" := by
  have hs : demoSetup.secret ≠ "" := by decide
  obtain ⟨-, signed, hsigned, -, hvalid⟩ := verify_undoes_sign demoToken.runtime hs
    (demoClaims "550e8400-e29b-41d4-a716-446655440030") (by decide) (by decide) demoIssuedMs demoJti
  obtain rfl : demoSigned = signed := Option.some.inj (demo_signed.symm.trans hsigned)
  obtain ⟨p, hp, huser, -⟩ := hvalid none 1790000050000 (by decide) (by decide) (by decide)
  exact ⟨p, hp, huser⟩

end CrowdTic
