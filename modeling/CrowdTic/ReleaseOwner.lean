import CrowdTic.Origins
import CrowdTic.QueueToken

/-! Who releases a hold: the user claim of a queue token on its way from the
waiting room through `QueueAuth` to the release handler, and the reservations
on which the handler then executes the release script. -/

namespace CrowdTic

variable {U : Type} [DecidableEq U] {S : Service U}

omit [DecidableEq U] in
/-- The claim is a text of this user's UUID. -/
def Denotes (L : UuidLib U) (claim : String) (u : U) : Prop := L.parse claim = (u, true)

/-- `DELETE /api/hold/:holdId` behind `QueueAuth`. -/
def deleteHold {R : EdgeRuntime} (J : JwtLib R) (c : TokenSetup) (token : List Char) (nowMs : Nat)
    (holdId : String) : Option ReleaseRequest :=
  (QueueAuth J c.secret c.issuer c.audience token nowMs).map fun claims =>
    ⟨holdId, claims.queueUserId⟩

theorem ne_empty_of_jsLength {s : String} (h : 8 ≤ jsLength s) : s ≠ "" := by
  rintro rfl
  exact absurd h (by decide)

/-- The handler sees the user claim that was signed. -/
theorem deleteHold_signed {R : EdgeRuntime} {J : JwtLib R} {c : TokenSetup} {claims : SignClaims}
    {issuedMs nowMs : Nat} {jti : RandomUuid} {signed : Signed} {holdId : String} {q : ReleaseRequest}
    (hs : signQueueToken R c.secret claims issuedMs jti = some signed)
    (hq : deleteHold J c signed.token nowMs holdId = some q) : q.queueUserId = claims.userId := by
  obtain ⟨_, rfl⟩ := signQueueToken_some hs
  rw [deleteHold, queueAuth_compact] at hq
  obtain ⟨a, ha, rfl⟩ := Option.map_eq_some_iff.mp hq
  split at ha
  · obtain rfl := Option.some.inj ha
    rfl
  · cases ha

/-- A thread that is about to execute the script has passed the owner check. -/
theorem owner_checked {s₀ s : Sys U} {tr : List (Sys U × Move U)} (hidle : ∀ t, s₀.threads t = none)
    (h : Run S.Step s₀ tr s) {t : Nat} {q : ReleaseRequest} {res : Reservation U}
    (hth : s.threads t = some (.release q (.script res))) : ¬ q.NotOwner S.uuid res := by
  rcases Service.thread_came h (hidle t) hth with ⟨req, he⟩ | ⟨th₀, p, f, scan, _, he⟩
  · cases req with
    | release q' =>
      simp only [Request.thread, Thread.release.injEq, ReleaseRequest.start] at he
      obtain ⟨_, he⟩ := he
      split at he <;> cases he
    | _ => cases he
  · cases th₀ with
    | release q' pc =>
      simp only [Thread.resume, Thread.release.injEq] at he
      obtain ⟨rfl, he⟩ := he
      cases pc with
      | get =>
        rw [ReleaseRequest.resume] at he
        split at he
        · cases he
        · cases he
        · rename_i res' _
          split at he
          · cases he
          · obtain rfl := ReleasePc.script.inj he
            assumption
      | script res' =>
        rw [ReleaseRequest.resume] at he
        split at he <;> cases he
      | delete res' => cases he
      | done res' => cases he
    | _ => cases he

/-- Whenever a `DELETE` with a token of the waiting room executes the release script, the user
claim denotes the user of the reservation exactly when it is a UUID at all. -/
theorem released_by_owner_iff {R : EdgeRuntime} (J : JwtLib R) (c : TokenSetup) (claims : SignClaims)
    (hlen : 8 ≤ jsLength claims.userId) (issuedMs : Nat) (jti : RandomUuid) (signed : Signed)
    (hs : signQueueToken R c.secret claims issuedMs jti = some signed) (nowMs : Nat)
    (holdId : String) (q : ReleaseRequest)
    (hq : deleteHold J c signed.token nowMs holdId = some q) {s₀ : Sys U}
    {tr : List (Sys U × Move U)} (hidle : ∀ t, s₀.threads t = none) {t : Nat} {res : Reservation U}
    {p : Sys U × Move U} {f : Fault} {scan : Scan U}
    (hm : Service.Made S s₀ tr t (.release q (.script res)) p f scan) :
    Denotes S.uuid claims.userId res.userId ↔ (S.uuid.parse claims.userId).2 = true := by
  obtain ⟨pre, post, _, hpre⟩ := hm.run
  have hcheck := owner_checked hidle hpre hm.thread
  rw [ReleaseRequest.NotOwner, deleteHold_signed hs hq] at hcheck
  constructor
  · intro hd
    rw [Denotes] at hd
    rw [hd]
  · intro hparse
    have hvalue : S.uuid.value claims.userId = res.userId := by
      by_contra hne
      exact hcheck ⟨ne_empty_of_jsLength hlen, hparse, hne⟩
    exact Prod.ext hvalue hparse

section Demo

def demoDelete (claim : String) : List (Cue DemoId) :=
  served 0 (.hold demoHoldRequest) 4 ++ served 1 (.release ⟨DemoId.hold.str, claim⟩) 1

def demoReservation : Reservation DemoId :=
  demoHoldRequest.reservation DemoId.lib demoTtl

theorem demo_made (claim : String)
    (h : ((demoService.play demoSys (demoDelete claim)).any fun x => decide (x.2.threads 1 =
      some (.release ⟨DemoId.hold.str, claim⟩ (.script demoReservation)))) = true) :
    ∃ tr p f scan, Service.Made demoService demoSys tr 1
      (.release ⟨DemoId.hold.str, claim⟩ (.script demoReservation)) p f scan := by
  obtain ⟨tr, s, hrun, hp⟩ := Service.run_of_play h
  exact ⟨tr ++ [(s, .exec 1 .none s.scan)], _, _, _, ⟨tr, [], rfl, hrun⟩, rfl,
    of_decide_eq_true hp, rfl⟩

theorem demo_deleteHold (userId : String) (mac : Base64.Bytes) :
    deleteHold (.reading (demoSample userId mac).runtime) demoSetup
      ((demoSample userId mac).runtime.compact demoSetup.secret
        ((demoClaims userId).payload demoIssuedMs demoJti))
      1790000001000 DemoId.hold.str = some ⟨DemoId.hold.str, userId⟩ := by
  have ha : ParserOptions.accepts ⟨demoSetup.issuer, demoSetup.audience, 5000⟩
      ((demoClaims userId).payload demoIssuedMs demoJti) 1790000001000 := by
    simp [ParserOptions.accepts, demoClaims, SignClaims.payload, SignClaims.ttl, defaultTtlSec,
      demoIssuedMs]
  rw [deleteHold, queueAuth_compact, if_pos ha]
  rfl

theorem demo_signs (userId : String) (mac : Base64.Bytes) :
    signQueueToken (demoSample userId mac).runtime demoSetup.secret (demoClaims userId) demoIssuedMs
      demoJti = some ⟨(demoSample userId mac).runtime.compact demoSetup.secret
        ((demoClaims userId).payload demoIssuedMs demoJti), demoJti.str, 1790000045⟩ := by
  rw [signQueueToken, if_neg (by decide)]
  rfl

/-- The token of the user `mallory-1` releases the hold of another user. -/
theorem stranger_releases :
    ¬ ∀ (R : EdgeRuntime) (J : JwtLib R) (c : TokenSetup) (claims : SignClaims)
      (_ : 8 ≤ jsLength claims.userId) (issuedMs : Nat) (jti : RandomUuid) (signed : Signed)
      (_ : signQueueToken R c.secret claims issuedMs jti = some signed) (nowMs : Nat)
      (holdId : String) (q : ReleaseRequest)
      (_ : deleteHold J c signed.token nowMs holdId = some q) (s₀ : Sys DemoId)
      (tr : List (Sys DemoId × Move DemoId)) (_ : ∀ t, s₀.threads t = none) (t : Nat)
      (res : Reservation DemoId) (p : Sys DemoId × Move DemoId) (f : Fault) (scan : Scan DemoId)
      (_ : Service.Made demoService s₀ tr t (.release q (.script res)) p f scan),
      Denotes demoService.uuid claims.userId res.userId := by
  intro h
  obtain ⟨tr, p, f, scan, hm⟩ := demo_made "mallory-1" (by decide +kernel)
  have hmac := demo_deleteHold "mallory-1" [23, 195, 236, 49, 117, 85, 254, 73, 50, 138, 113, 88, 125,
    56, 33, 95, 86, 217, 101, 118, 24, 129, 6, 101, 72, 79, 25, 119, 123, 158, 248, 203]
  have hd := h _ _ _ _ (by decide) _ _ _ (demo_signs "mallory-1" _) _ _ _ hmac demoSys tr
    (fun _ => rfl) 1 demoReservation p f scan hm
  exact absurd hd (by unfold Denotes; decide +kernel)

theorem owner_releases :
    Denotes demoService.uuid DemoId.user.str demoReservation.userId := by
  obtain ⟨tr, p, f, scan, hm⟩ := demo_made DemoId.user.str (by decide +kernel)
  have hmac := demo_deleteHold DemoId.user.str [29, 253, 73, 73, 19, 248, 109, 158, 51, 19, 161, 12, 91,
    177, 165, 224, 198, 41, 224, 153, 134, 234, 2, 86, 195, 46, 121, 103, 106, 97, 69, 16]
  exact (released_by_owner_iff (JwtLib.reading _) demoSetup (demoClaims DemoId.user.str) (by decide)
    demoIssuedMs demoJti _ (demo_signs DemoId.user.str _) 1790000001000 DemoId.hold.str _ hmac
    (fun _ => rfl) hm).mpr (by decide +kernel)

end Demo

end CrowdTic
