import CrowdTic.Service

/-! A sold seat. The scripts leave it alone, except for a release that names
the hold it was bought under, and such a release can come at any time after
the commit because the reservation outlives it. -/

namespace CrowdTic

/-- The call does not release a sold seat under the hold it was bought under. -/
def Call.SparesSold (r : Redis) : Call → Prop
  | .release _ ks a => ∀ k ∈ ks,
      (r.seat k).status = some "SOLD" → (r.seat k).holdId ≠ some a.holdId
  | _ => True

instance (r : Redis) : DecidablePred (Call.SparesSold r)
  | .release _ ks a => inferInstanceAs (Decidable (∀ k ∈ ks,
      (r.seat k).status = some "SOLD" → (r.seat k).holdId ≠ some a.holdId))
  | .hold _ _ _ | .commit _ _ _ | .advance _ => inferInstanceAs (Decidable True)

def SoldPersists (r : Redis) : Prop :=
  ∀ e s, (r.seat (seatKey e s)).status = some "SOLD" → r.hashes.ttl (seatKey e s) = none

theorem soldPersists_exec {r : Redis} (h : SoldPersists r) (c : Call) :
    SoldPersists (c.exec r) := by
  intro e s hsold
  have hm := seatMove_exec e s r c
  cases hm with
  | keep hseat httl =>
    rw [hseat] at hsold
    rw [httl, h e s hsold]
  | take _ _ hseat => simp [hseat, Seat.held] at hsold
  | free _ _ _ httl => exact httl
  | sell _ _ _ _ httl => exact httl
  | lapse _ hseat => simp [hseat, Seat.gone] at hsold

theorem sold_exec {r : Redis} {c : Call} {e s user hold : String} (h : SoldPersists r)
    (hsold : r.seat (seatKey e s) = .sold user hold) (hc : c.SparesSold r) :
    (c.exec r).seat (seatKey e s) = .sold user hold := by
  have hst : (r.seat (seatKey e s)).status = some "SOLD" := by simp [hsold, Seat.sold]
  have hm := seatMove_exec e s r c
  cases hm with
  | keep hseat _ => rw [hseat, hsold]
  | take _ hfree _ => simp [hsold, Seat.sold] at hfree
  | free hk hhold _ _ => exact absurd hhold (hc _ hk hst)
  | sell _ _ hheld _ _ => simp [hsold, Seat.sold, Seat.held] at hheld
  | lapse hlapsed _ =>
    rw [ExpMap.lapsed_of_ttl_none (h e s hst)] at hlapsed
    cases hlapsed

theorem holdRefusal_of_sold {r : Redis} {inv k user hold : String} {ks : List String} {a : HoldArgs}
    (hsold : r.seat k = .sold user hold) (hk : k ∈ ks) : holdRefusal r inv ks a ≠ none := by
  intro hn
  obtain ⟨_, _, _, _, hfree⟩ := holdRefusal_eq_none_iff.mp hn
  simpa [hsold, Seat.sold] using hfree k hk

section Runs

variable {U : Type} [DecidableEq U] {S : Service U} {s₀ s s' : Sys U}
  {tr tr' : List (Sys U × Move U)}

theorem soldPersists_run (hrun : Run S.Step s₀ tr s) (h : SoldPersists s₀.world.redis) :
    SoldPersists s.world.redis :=
  (Service.run_redis hrun).invariant SoldPersists (fun _ _ => True)
    (fun _ c _ hs _ hstep => hstep ▸ soldPersists_exec hs c) h fun _ _ => trivial

/-- In a run whose releases spare sold seats, a sold seat stays sold to the
same user under the same hold, and no hold takes it. -/
theorem sold_final_of_sparing_run {e k user hold : String} (h : SoldPersists s₀.world.redis)
    (hrun : Run S.Step s₀ tr s) (hsold : s.world.redis.seat (seatKey e k) = .sold user hold)
    (hrun' : Run S.Step s tr' s')
    (hspare : ∀ p ∈ tr', ∀ c ∈ S.call p.1 p.2, c.SparesSold p.1.world.redis) :
    s'.world.redis.seat (seatKey e k) = .sold user hold ∧
      ∀ inv ks a, seatKey e k ∈ ks → holdRefusal s'.world.redis inv ks a ≠ none := by
  have hinv := (Service.run_redis hrun').invariant
    (fun r => SoldPersists r ∧ r.seat (seatKey e k) = .sold user hold)
    (fun r c => c.SparesSold r)
    (fun r c r' hr hc hstep => hstep ▸ ⟨soldPersists_exec hr.1 c, sold_exec hr.1 hr.2 hc⟩)
    ⟨soldPersists_run hrun h, hsold⟩ fun p hp => by
      obtain ⟨x, hx, hcall, hr⟩ := Service.mem_run_redis hp
      exact hr ▸ hspare x hx _ hcall
  exact ⟨hinv.2, fun _ _ _ hk => holdRefusal_of_sold hinv.2 hk⟩

end Runs

theorem demoSys_soldPersists : SoldPersists demoSys.world.redis := by
  intro e s _
  simp only [demoSys, demoRedis, ExpMap.ttl]
  split_ifs <;> rfl

def demoOtherRelease : List (Cue DemoId) :=
  served 2 (.hold { demoHoldRequest with
    seatIds := [demoSeat'], queueUserId := DemoId.user'.str, draw := .hold' }) 4 ++
  served 3 (.release ⟨DemoId.hold'.str, DemoId.user'.str⟩) 3

theorem seat_stays_sold_beside_release : ∃ s s' : Sys DemoId,
    (∃ tr, Run demoService.Step s tr s') ∧
    s'.world.redis.seat (seatKey demoEvent demoSeat) = .sold demoUser demoHold := by
  have hplay : ((demoService.play demoSys demoSold).any fun x =>
      (demoService.play x.2 demoOtherRelease).any fun y =>
        decide (x.2.world.redis.seat (seatKey demoEvent demoSeat) = .sold demoUser demoHold ∧
          ∀ p ∈ y.1, ∀ c ∈ demoService.call p.1 p.2, c.SparesSold p.1.world.redis)) = true := by
    decide +kernel
  obtain ⟨tr, s, tr', s', hrun, hrun', hp⟩ := Service.runs_of_play hplay
  obtain ⟨hsold, hspare⟩ := of_decide_eq_true hp
  exact ⟨s, s', ⟨tr', hrun'⟩,
    (sold_final_of_sparing_run demoSys_soldPersists hrun hsold hrun' hspare).1⟩

/-- The owner's `DELETE` after the purchase puts the seat back on sale. -/
theorem sold_seat_freed_by_owner : ¬ ∀ (s₀ s s' : Sys DemoId)
    (tr tr' : List (Sys DemoId × Move DemoId)) (e k user hold : String),
    SoldPersists s₀.world.redis → Run demoService.Step s₀ tr s →
    s.world.redis.seat (seatKey e k) = .sold user hold → Run demoService.Step s tr' s' →
    s'.world.redis.seat (seatKey e k) = .sold user hold := by
  intro h
  have hplay : ((demoService.play demoSys demoSold).any fun x =>
      (demoService.play x.2 (served 2 (.release demoReleaseRequest) 2)).any fun y =>
        decide (x.2.world.redis.seat (seatKey demoEvent demoSeat) = .sold demoUser demoHold ∧
          y.2.world.redis.seat (seatKey demoEvent demoSeat) = .available)) = true := by
    decide +kernel
  obtain ⟨tr, s, tr', s', hrun, hrun', hp⟩ := Service.runs_of_play hplay
  obtain ⟨hsold, hfree⟩ := of_decide_eq_true hp
  have hkept := h demoSys s s' tr tr' demoEvent demoSeat demoUser demoHold demoSys_soldPersists
    hrun hsold hrun'
  rw [hfree] at hkept
  simp [Seat.available, Seat.sold] at hkept

end CrowdTic
