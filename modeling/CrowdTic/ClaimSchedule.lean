import CrowdTic.Instalments
import CrowdTic.StakeLock

/-! Claiming often or once. A claim that pays nothing leaves the clock of the
stake alone, and every other one loses the fraction of the division, so that a
schedule of claims falls short of one claim by less than one unit for each. -/

namespace CrowdTic

open Reverts CrowdTicToken Instalments

/-- What `u` is minted by a claim of its own, in a step with one that takes effect. -/
def mintedByClaim (u : Address) (p : CrowdTicToken × TokenMove) : Option Nat :=
  match p.2 with
  | .call v .claimReward =>
    if v = u then (p.1.claimReward v).toOption.map fun s' => s'.balances u - p.1.balances u else none
  | _ => none

/-- The claims of `u` in a run that take effect, by what each mints. -/
def mintedClaims (u : Address) (tr : List (CrowdTicToken × TokenMove)) : List Nat :=
  tr.filterMap (mintedByClaim u)

def TokenMove.Holds (this u : Address) (s : CrowdTicToken) (m : TokenMove) : Prop :=
  (m.apply this s).stakedAmount u = s.stakedAmount u

def rewardUnit : Nat := 1000000000000000000

theorem rewardUnit_pos : 0 < rewardUnit := by decide

/-- The stake of `u` since `t0`, as an account of parts of the smallest unit. -/
def rewardAccount (u : Address) (t0 : Nat) (tr : List (CrowdTicToken × TokenMove))
    (s : CrowdTicToken) : Account where
  accrued := s.stakedAmount u * (s.timestamp - t0) * REWARDS_PER_STAKED_PER_SECOND
  owed := s.stakedAmount u * (s.timestamp - s.stakeTimestamp u) * REWARDS_PER_STAKED_PER_SECOND
  paid := mintedClaims u tr

section Steps

variable {this u v : Address} {t0 : Nat} {tr : List (CrowdTicToken × TokenMove)}
  {s s' : CrowdTicToken} {m : TokenMove} {c : TokenCall}

theorem mintedClaims_append : mintedClaims u (tr ++ [(s, m)]) =
    mintedClaims u tr ++ (mintedByClaim u (s, m)).toList := by
  rw [mintedClaims, List.filterMap_append]
  cases h : mintedByClaim u (s, m) <;> simp [mintedClaims, h]

/-- What a claim that takes effect does: it mints the whole units of what is owed, and restarts the
clock of the stake unless that is nothing. -/
structure Claimed (u : Address) (s s' : CrowdTicToken) (reward : Nat) : Prop where
  minted : mintedByClaim u (s, .call u .claimReward) = some reward
  whole : s.stakedAmount u * (s.timestamp - s.stakeTimestamp u) * REWARDS_PER_STAKED_PER_SECOND /
    rewardUnit = reward
  timestamp : s'.timestamp = s.timestamp
  staked : s'.stakedAmount u = s.stakedAmount u
  stamp : s'.stakeTimestamp u = if 0 < reward then s.timestamp else s.stakeTimestamp u
  supply : s'.supply = s.supply + reward
  idle : s'.entered = false

theorem claimed_of_claimReward (hpos : 0 < s.stakedAmount u)
    (hle : s.stakeTimestamp u ≤ s.timestamp) (h : s.claimReward u = .ok s') :
    ∃ reward, Claimed u s s' reward := by
  have hclaim := h
  rw [claimReward, guarded_ok_iff] at h
  obtain ⟨-, t, hpay, rfl⟩ := h
  obtain ⟨reward, hreward, hcases⟩ := payReward_ok_iff.mp hpay
  have hwhole := ((getPendingReward_ok_iff hpos hle).mp hreward).2
  rcases hcases with ⟨hzero, rfl⟩ | ⟨hr, hmint⟩
  · refine ⟨reward, ?_, hwhole, rfl, rfl, ?_, ?_, rfl⟩
    · simp [mintedByClaim, hclaim, Except.toOption, hzero]
    · simp [hzero]
    · simp [hzero]
  · obtain ⟨-, -, rfl⟩ := mint_ok_iff.mp hmint
    refine ⟨reward, ?_, hwhole, rfl, rfl, ?_, rfl, rfl⟩
    · simp [mintedByClaim, hclaim, Except.toOption]
    · simp [hr]

theorem Claimed.stamp_bounds {reward : Nat} (h : Claimed u s s' reward)
    (hle : s.stakeTimestamp u ≤ s.timestamp) :
    s.stakeTimestamp u ≤ s'.stakeTimestamp u ∧ s'.stakeTimestamp u ≤ s'.timestamp := by
  have hstamp := h.stamp
  have hnow := h.timestamp
  by_cases hr : 0 < reward
  · rw [if_pos hr] at hstamp
    omega
  · rw [if_neg hr] at hstamp
    omega

theorem mintedByClaim_other (h : v ≠ u ∨ c ≠ .claimReward) :
    mintedByClaim u (s, .call v c) = none := by
  unfold mintedByClaim
  cases c with
  | claimReward =>
    rcases h with h | h
    · exact if_neg h
    · exact absurd rfl h
  | _ => rfl

theorem mintedByClaim_idle (h : ∀ v c, m = .call v c → ∀ t, c.exec this s v ≠ .ok t) :
    mintedByClaim u (s, m) = none := by
  cases m with
  | tick seconds => rfl
  | call v c =>
    by_cases hc : c = .claimReward
    · subst hc
      unfold mintedByClaim
      dsimp only
      by_cases hv : v = u
      · rw [if_pos hv]
        cases hx : s.claimReward v with
        | ok t => exact absurd hx (h v _ rfl t)
        | error e => rfl
      · exact if_neg hv
    · exact mintedByClaim_other (.inr hc)

theorem rewardAccount_claim {reward : Nat} (h : Claimed u s s' reward) :
    rewardAccount u t0 (tr ++ [(s, .call u .claimReward)]) s' =
      (rewardAccount u t0 tr s).claim rewardUnit := by
  have howed : s.stakedAmount u * (s.timestamp - s'.stakeTimestamp u) *
      REWARDS_PER_STAKED_PER_SECOND =
      if 0 < reward then 0
      else s.stakedAmount u * (s.timestamp - s.stakeTimestamp u) * REWARDS_PER_STAKED_PER_SECOND := by
    rw [h.stamp]
    by_cases hr : 0 < reward
    · rw [if_pos hr, if_pos hr, Nat.sub_self, Nat.mul_zero, Nat.zero_mul]
    · rw [if_neg hr, if_neg hr]
  simp only [rewardAccount, Account.claim, h.timestamp, h.staked, howed, h.whole,
    mintedClaims_append, h.minted, Option.toList_some]

/-- The stake of `u`, held since `t0`, is an account that the claims settle. -/
structure Accrued (u : Address) (t0 stake : Nat) (tr : List (CrowdTicToken × TokenMove))
    (s : CrowdTicToken) : Prop where
  held : s.stakedAmount u = stake
  since : t0 ≤ s.stakeTimestamp u
  past : s.stakeTimestamp u ≤ s.timestamp
  settled : (rewardAccount u t0 tr s).Settled rewardUnit

theorem Accrued.claim {stake : Nat} (hstake : 0 < stake) (hi : Accrued u t0 stake tr s)
    (h : s.claimReward u = .ok s') : Accrued u t0 stake (tr ++ [(s, .call u .claimReward)]) s' := by
  have hpos : 0 < s.stakedAmount u := by
    rw [hi.held]
    exact hstake
  have hsince := hi.since
  have hpast := hi.past
  obtain ⟨reward, hc⟩ := claimed_of_claimReward hpos hpast h
  obtain ⟨hlow, hhigh⟩ := hc.stamp_bounds hpast
  refine ⟨hc.staked.trans hi.held, hsince.trans hlow, hhigh, ?_⟩
  rw [rewardAccount_claim hc]
  exact hi.settled.claim rewardUnit_pos

/-- A step that is no claim of `u` and leaves its stake alone, during which time may pass. -/
theorem Accrued.wait {stake : Nat} (hi : Accrued u t0 stake tr s)
    (hminted : mintedByClaim u (s, m) = none) (hheld : s'.stakedAmount u = s.stakedAmount u)
    (hstamp : s'.stakeTimestamp u = s.stakeTimestamp u) (hnow : s.timestamp ≤ s'.timestamp) :
    Accrued u t0 stake (tr ++ [(s, m)]) s' := by
  have hsince := hi.since
  have hpast := hi.past
  refine ⟨hheld.trans hi.held, by omega, by omega, ?_⟩
  have hparts (t : Nat) (ht : t ≤ s.timestamp) :
      s.stakedAmount u * (s'.timestamp - t) * REWARDS_PER_STAKED_PER_SECOND =
        s.stakedAmount u * (s.timestamp - t) * REWARDS_PER_STAKED_PER_SECOND +
          s.stakedAmount u * (s'.timestamp - s.timestamp) * REWARDS_PER_STAKED_PER_SECOND := by
    have hsplit : s'.timestamp - t = (s.timestamp - t) + (s'.timestamp - s.timestamp) := by omega
    rw [hsplit, Nat.mul_add, Nat.add_mul]
  have haccount : rewardAccount u t0 (tr ++ [(s, m)]) s' = (rewardAccount u t0 tr s).accrue
      (s.stakedAmount u * (s'.timestamp - s.timestamp) * REWARDS_PER_STAKED_PER_SECOND) := by
    simp only [rewardAccount, Account.accrue, hheld, hstamp, hparts t0 (by omega), hparts _ hpast,
      mintedClaims_append, hminted, Option.toList_none, List.append_nil]
  rw [haccount]
  exact hi.settled.accrue _

theorem not_stake_of_same (h : c.exec this s u = .ok s') (hsame : s'.stakedAmount u = s.stakedAmount u)
    (amount : Nat) : c ≠ .stake amount ∧ c ≠ .unstake amount := by
  constructor
  · rintro rfl
    obtain ⟨t, hpay, hamount, -, -, rfl⟩ := of_stake h
    have hkept := congrFun (kept_of_payReward this hpay).staked u
    simp only [Function.update_self] at hsame
    dsimp only at hkept
    omega
  · rintro rfl
    obtain ⟨-, ⟨hamount, hle, -⟩, t, hpay, -, -, -, -, rfl⟩ := unstake_ok_iff.mp h
    have hkept := congrFun (kept_of_payReward this hpay).staked u
    simp only [Function.update_self] at hsame
    dsimp only at hkept
    omega

theorem accrued_step {stake : Nat} (hstake : 0 < stake) (hi : Accrued u t0 stake tr s)
    (hm : m.Holds this u s) (hs : TokenStep this s m s') :
    Accrued u t0 stake (tr ++ [(s, m)]) s' := by
  have hheld : s'.stakedAmount u = s.stakedAmount u := by
    rw [← hs]
    exact hm
  obtain ⟨v, c, rfl, hx⟩ | ⟨hfail, now, hle, -, rfl⟩ := tokenStep_cases hs
  · by_cases hclaim : v = u ∧ c = .claimReward
    · obtain ⟨rfl, rfl⟩ := hclaim
      exact hi.claim hstake hx
    · have hunpaid : ¬ (v = u ∧ c.paysReward = true ∧ 0 < s.pending u) := by
        rintro ⟨rfl, hpays, _⟩
        have hnot := not_stake_of_same hx hheld
        cases c with
        | stake amount => exact (hnot amount).1 rfl
        | unstake amount => exact (hnot amount).2 rfl
        | claimReward => exact hclaim ⟨rfl, rfl⟩
        | _ => simp [TokenCall.paysReward] at hpays
      obtain ⟨hnow, ⟨amount, rfl, rfl, -⟩ | ⟨-, -, -, hstamp⟩⟩ := stake_of_exec (u := u) hx
      · exact absurd rfl (not_stake_of_same hx hheld amount).1
      · rw [if_neg hunpaid] at hstamp
        exact hi.wait (mintedByClaim_other (not_and_or.mp hclaim)) hheld hstamp hnow.ge
  · exact hi.wait (mintedByClaim_idle hfail) rfl rfl hle

theorem accrued_run {s₀ : CrowdTicToken} (hstake : 0 < s₀.stakedAmount u)
    (hpast : s₀.stakeTimestamp u ≤ s₀.timestamp) (h : Run (TokenStep this) s₀ tr s)
    (hheld : ∀ p ∈ tr, p.2.Holds this u p.1) :
    Accrued u (s₀.stakeTimestamp u) (s₀.stakedAmount u) tr s := by
  induction h with
  | nil => exact ⟨rfl, le_rfl, hpast, ⟨by simp [rewardAccount, mintedClaims],
      by simp [rewardAccount, mintedClaims]⟩⟩
  | snoc _ hs ih =>
    refine accrued_step hstake (ih fun p hp => hheld p (List.mem_append_left _ hp)) ?_ hs
    exact hheld _ (List.mem_append_right _ List.mem_cons_self)

theorem Accrued.paid_after_claim {stake : Nat} (hstake : 0 < stake) (hi : Accrued u t0 stake tr s)
    (h : s.claimReward u = .ok s') :
    let minted := mintedClaims u (tr ++ [(s, .call u .claimReward)])
    let parts := stake * (s.timestamp - t0) * REWARDS_PER_STAKED_PER_SECOND
    minted.sum ≤ parts / rewardUnit ∧ parts / rewardUnit < minted.sum + minted.length := by
  have hpos : 0 < s.stakedAmount u := by
    rw [hi.held]
    exact hstake
  obtain ⟨reward, hc⟩ := claimed_of_claimReward hpos hi.past h
  have hbounds := hi.settled.paid_after_claim rewardUnit_pos
  rw [← rewardAccount_claim hc] at hbounds
  simpa only [rewardAccount, hi.held] using hbounds

theorem single_claim (time : Nat) (hstake : 0 < s.stakedAmount u) (hle : s.stakeTimestamp u ≤ time)
    (hwords : s.stakedAmount u * (time - s.stakeTimestamp u) * REWARDS_PER_STAKED_PER_SECOND ≤
      maxUint256) : ({ s with timestamp := time } : CrowdTicToken).getPendingReward u =
        .ok (s.stakedAmount u * (time - s.stakeTimestamp u) * REWARDS_PER_STAKED_PER_SECOND /
          rewardUnit) := by
  have hpos : 0 < ({ s with timestamp := time } : CrowdTicToken).stakedAmount u := hstake
  refine (getPendingReward_ok_iff hpos hle).mpr ⟨hwords, ?_⟩
  simp only [rewardUnit]

end Steps

/-- The claims of a schedule that ends with one, on a stake that is held all the while, mint no more
than a single claim at the end would, and fall short of it by fewer units than there are claims. -/
theorem claims_add_up {this u : Address} {s₀ s s' : CrowdTicToken}
    {tr : List (CrowdTicToken × TokenMove)} (hstake : 0 < s₀.stakedAmount u)
    (hpast : s₀.stakeTimestamp u ≤ s₀.timestamp) (h : Run (TokenStep this) s₀ tr s)
    (hheld : ∀ p ∈ tr, p.2.Holds this u p.1) (hlast : s.claimReward u = .ok s')
    (hwords : s₀.stakedAmount u * (s.timestamp - s₀.stakeTimestamp u) *
      REWARDS_PER_STAKED_PER_SECOND ≤ maxUint256) :
    let minted := mintedClaims u (tr ++ [(s, .call u .claimReward)])
    ∃ single, ({ s₀ with timestamp := s.timestamp } : CrowdTicToken).getPendingReward u = .ok single ∧
      minted.sum ≤ single ∧ single < minted.sum + minted.length := by
  have hi := accrued_run hstake hpast h hheld
  have hsingle := single_claim s.timestamp hstake (hi.since.trans hi.past) hwords
  exact ⟨_, hsingle, hi.paid_after_claim hstake hlast⟩

section Demo

def demoStaked : CrowdTicToken := demoTokenAfter [demoStake 1000]

def demoSchedule : List TokenMove := [.tick 1, demoClaim, demoClaim, .tick 7]

theorem demo_claims_add_up :
    mintedClaims 1 (Run.record (TokenMove.apply 9) demoStaked (demoSchedule ++ [demoClaim])) = [1, 0, 8] ∧
      ∃ single, ({ demoStaked with timestamp := 1008 } : CrowdTicToken).getPendingReward 1 = .ok single ∧
        [1, 0, 8].sum ≤ single ∧ single < [1, 0, 8].sum + [1, 0, 8].length := by
  have hplayed : Run (TokenStep 9) demoStaked (Run.record (TokenMove.apply 9) demoStaked demoSchedule)
      (demoSchedule.foldl (TokenMove.apply 9) demoStaked) := Run.of_record (fun _ _ => rfl) _ _
  have hheld : ∀ p ∈ Run.record (TokenMove.apply 9) demoStaked demoSchedule, p.2.Holds 9 1 p.1 := by
    unfold TokenMove.Holds
    decide +kernel
  have hminted : mintedClaims 1 (Run.record (TokenMove.apply 9) demoStaked (demoSchedule ++ [demoClaim])) =
      [1, 0, 8] := by decide +kernel
  have hnow : (demoSchedule.foldl (TokenMove.apply 9) demoStaked).timestamp = 1008 := by decide +kernel
  have hok : ((demoSchedule.foldl (TokenMove.apply 9) demoStaked).claimReward 1).toOption.isSome := by
    decide +kernel
  cases hlast : (demoSchedule.foldl (TokenMove.apply 9) demoStaked).claimReward 1 with
  | error e =>
    rw [hlast] at hok
    cases hok
  | ok s' =>
    obtain ⟨single, hsingle, hle, hlt⟩ :=
      claims_add_up (by decide +kernel) (by decide +kernel) hplayed hheld hlast (by decide +kernel)
    rw [hnow] at hsingle
    rw [Run.record_append] at hminted ⊢
    refine ⟨hminted, single, hsingle, ?_, ?_⟩
    · rw [← hminted]
      exact hle
    · rw [← hminted]
      exact hlt

end Demo

section Schedules

variable {this u : Address}

/-- Claims of `u` after each of the waits. -/
def claimSchedule (u : Address) : List Nat → List TokenMove
  | [] => []
  | wait :: waits => .tick wait :: .call u .claimReward :: claimSchedule u waits

/-- A stake whose rewards up to a later time are computed and minted within words. -/
structure FitsUntil (u : Address) (s : CrowdTicToken) (time : Nat) : Prop where
  real : u ≠ 0
  idle : s.entered = false
  staked : 0 < s.stakedAmount u
  past : s.stakeTimestamp u ≤ s.timestamp
  clock : time ≤ maxUint256
  scaled : s.stakedAmount u * (time - s.stakeTimestamp u) * REWARDS_PER_STAKED_PER_SECOND ≤ maxUint256
  supply : s.supply + s.stakedAmount u * (time - s.stakeTimestamp u) *
    REWARDS_PER_STAKED_PER_SECOND / rewardUnit ≤ maxUint256

theorem Claimed.fitsUntil {s s' : CrowdTicToken} {reward time : Nat} (h : Claimed u s s' reward)
    (hle : s.timestamp ≤ time) (hfits : FitsUntil u s time) : FitsUntil u s' time := by
  obtain ⟨hlow, hhigh⟩ := h.stamp_bounds hfits.past
  have hsupply := hfits.supply
  refine ⟨hfits.real, h.idle, h.staked ▸ hfits.staked, hhigh, hfits.clock, ?_, ?_⟩
  · rw [h.staked]
    refine le_trans (Nat.mul_le_mul_right _ (Nat.mul_le_mul_left _ ?_)) hfits.scaled
    omega
  · rw [h.staked, h.stamp, h.supply]
    by_cases hr : 0 < reward
    · have hpast := hfits.past
      have hsplit : time - s.stakeTimestamp u =
          (s.timestamp - s.stakeTimestamp u) + (time - s.timestamp) := by omega
      rw [hsplit, Nat.mul_add, Nat.add_mul] at hsupply
      have hdiv : s.stakedAmount u * (s.timestamp - s.stakeTimestamp u) *
          REWARDS_PER_STAKED_PER_SECOND / rewardUnit +
          s.stakedAmount u * (time - s.timestamp) * REWARDS_PER_STAKED_PER_SECOND / rewardUnit ≤
          (s.stakedAmount u * (s.timestamp - s.stakeTimestamp u) * REWARDS_PER_STAKED_PER_SECOND +
            s.stakedAmount u * (time - s.timestamp) * REWARDS_PER_STAKED_PER_SECOND) / rewardUnit :=
        Nat.div_add_div_le_add_div
      rw [h.whole] at hdiv
      rw [if_pos hr, Nat.add_assoc]
      exact (Nat.add_le_add_left hdiv s.supply).trans hsupply
    · rw [if_neg hr, Nat.eq_zero_of_not_pos hr, Nat.add_zero]
      exact hsupply

theorem FitsUntil.claims {s : CrowdTicToken} {time : Nat} (h : FitsUntil u s time)
    (hle : s.timestamp ≤ time) : ∃ s', s.claimReward u = .ok s' ∧ FitsUntil u s' time := by
  have hparts : s.stakedAmount u * (s.timestamp - s.stakeTimestamp u) *
      REWARDS_PER_STAKED_PER_SECOND ≤
      s.stakedAmount u * (time - s.stakeTimestamp u) * REWARDS_PER_STAKED_PER_SECOND := by
    refine Nat.mul_le_mul_right _ (Nat.mul_le_mul_left _ ?_)
    omega
  have hwords : ({ s with entered := true } : CrowdTicToken).RewardInWords u := by
    refine ⟨hparts.trans h.scaled, fun _ => ?_⟩
    have hless := Nat.div_le_div_right (c := rewardUnit) hparts
    have hsupply := h.supply
    rw [rewardUnit] at hless hsupply
    exact (Nat.add_le_add_left hless s.supply).trans hsupply
  have hstaked : 0 < ({ s with entered := true } : CrowdTicToken).stakedAmount u := h.staked
  obtain ⟨t, hpay⟩ := (payReward_isOk_of_staked hstaked h.past h.real).mpr hwords
  have hclaim : s.claimReward u = .ok { t with entered := false } :=
    guarded_ok_iff.mpr ⟨h.idle, t, hpay, rfl⟩
  obtain ⟨reward, hc⟩ := claimed_of_claimReward h.staked h.past hclaim
  exact ⟨_, hclaim, hc.fitsUntil hle h⟩

theorem FitsUntil.wait (this : Address) {s : CrowdTicToken} {time wait : Nat}
    (h : FitsUntil u s time) (hle : s.timestamp + wait ≤ time) : (TokenMove.tick wait).apply this s =
      { s with timestamp := s.timestamp + wait } ∧
      FitsUntil u { s with timestamp := s.timestamp + wait } time :=
  ⟨if_pos (hle.trans h.clock), h.real, h.idle, h.staked, h.past.trans (Nat.le_add_right _ _), h.clock,
    h.scaled, h.supply⟩

theorem FitsUntil.turn (this : Address) {s : CrowdTicToken} {time : Nat} (wait : Nat)
    (h : FitsUntil u s time) (hle : s.timestamp + wait ≤ time) :
    ∃ s₁ s' reward, (TokenMove.tick wait).apply this s = s₁ ∧
      s₁.timestamp = s.timestamp + wait ∧ s₁.claimReward u = .ok s' ∧
      (TokenMove.call u .claimReward).apply this s₁ = s' ∧ Claimed u s₁ s' reward ∧
      FitsUntil u s' time := by
  obtain ⟨htick, hfits⟩ := h.wait this hle
  obtain ⟨s', hclaim, hfits'⟩ := hfits.claims hle
  obtain ⟨reward, hc⟩ := claimed_of_claimReward hfits.staked hfits.past hclaim
  refine ⟨_, s', reward, htick, rfl, hclaim, ?_, hc, hfits'⟩
  simp [TokenMove.apply, TokenCall.exec, hclaim, Except.toOption]

theorem schedule_takes_effect (this : Address) {s : CrowdTicToken} {time : Nat} (waits : List Nat)
    (h : FitsUntil u s time) (hle : s.timestamp + waits.sum ≤ time) :
    (mintedClaims u (Run.record (TokenMove.apply this) s (claimSchedule u waits))).length =
      waits.length ∧
    ((claimSchedule u waits).foldl (TokenMove.apply this) s).timestamp = s.timestamp + waits.sum ∧
    FitsUntil u ((claimSchedule u waits).foldl (TokenMove.apply this) s) time := by
  induction waits generalizing s with
  | nil => exact ⟨rfl, rfl, h⟩
  | cons wait waits ih =>
    rw [List.sum_cons] at hle
    obtain ⟨s₁, s', reward, htick, hnow, -, hcall, hc, hfits⟩ :=
      h.turn this wait (by omega)
    have hnow' := hc.timestamp
    obtain ⟨hlength, htime, hlast⟩ := ih hfits (by omega)
    rw [claimSchedule, Run.record, Run.record, List.foldl_cons, List.foldl_cons, htick, hcall, htime,
      List.sum_cons, List.length_cons]
    refine ⟨?_, by omega, hlast⟩
    rw [mintedClaims, List.filterMap_cons, List.filterMap_cons, hc.minted]
    simpa [mintedClaims, mintedByClaim] using hlength

theorem claimSchedule_concat (u : Address) (waits : List Nat) (wait : Nat) :
    claimSchedule u (waits ++ [wait]) =
      claimSchedule u waits ++ [.tick wait, .call u .claimReward] := by
  induction waits with
  | nil => rfl
  | cons w waits ih => simp only [List.cons_append, claimSchedule, ih]

theorem record_schedule_concat (this u : Address) (s : CrowdTicToken) (waits : List Nat) (wait : Nat) :
    let s₁ := (claimSchedule u waits).foldl (TokenMove.apply this) s
    Run.record (TokenMove.apply this) s (claimSchedule u (waits ++ [wait])) =
      Run.record (TokenMove.apply this) s (claimSchedule u waits) ++ [(s₁, .tick wait)] ++
        [((TokenMove.tick wait).apply this s₁, .call u .claimReward)] := by
  dsimp only
  rw [claimSchedule_concat, Run.record_append, List.append_assoc]
  rfl

theorem holds_of_tick (seconds : Nat) (s : CrowdTicToken) :
    (TokenMove.tick seconds).Holds this u s := by
  rw [TokenMove.Holds, TokenMove.apply]
  by_cases hword : s.timestamp + seconds ≤ maxUint256
  · rw [if_pos hword]
  · rw [if_neg hword]

theorem holds_of_claim (s : CrowdTicToken) : (TokenMove.call u .claimReward).Holds this u s := by
  rw [TokenMove.Holds, TokenMove.apply, TokenCall.exec]
  cases hx : s.claimReward u with
  | error e => rfl
  | ok s' =>
    rw [claimReward, guarded_ok_iff] at hx
    obtain ⟨-, t, hpay, rfl⟩ := hx
    exact congrFun (kept_of_payReward this hpay).staked u

theorem holds_of_schedule {waits : List Nat} {m : TokenMove} (h : m ∈ claimSchedule u waits)
    (s : CrowdTicToken) : m.Holds this u s := by
  induction waits with
  | nil => cases h
  | cons wait waits ih =>
    simp only [claimSchedule, List.mem_cons] at h
    rcases h with rfl | rfl | h
    · exact holds_of_tick wait s
    · exact holds_of_claim s
    · exact ih h

/-- A schedule whose rewards fit into words mints as many times as it claims, and adds up. -/
theorem schedule_adds_up {s : CrowdTicToken} (waits : List Nat) (wait : Nat)
    (h : FitsUntil u s (s.timestamp + (waits.sum + wait))) :
    let minted := mintedClaims u
      (Run.record (TokenMove.apply this) s (claimSchedule u (waits ++ [wait])))
    minted.length = waits.length + 1 ∧
      ∃ single, ({ s with timestamp := s.timestamp + (waits.sum + wait) } :
          CrowdTicToken).getPendingReward u = .ok single ∧
        minted.sum ≤ single ∧ single < minted.sum + (waits.length + 1) := by
  obtain ⟨hlength, htime, hfits⟩ := schedule_takes_effect this waits h (by omega)
  obtain ⟨s₁, s', reward, htick, hnow, hclaim, -, hc, -⟩ :=
    hfits.turn this wait (by omega)
  have hplayed : Run (TokenStep this) s (Run.record (TokenMove.apply this) s (claimSchedule u waits))
      ((claimSchedule u waits).foldl (TokenMove.apply this) s) := Run.of_record (fun _ _ => rfl) s _
  have hrun := hplayed.snoc htick
  have hrecord := record_schedule_concat this u s waits wait
  dsimp only at hrecord
  rw [htick] at hrecord
  have hheld : ∀ p ∈ Run.record (TokenMove.apply this) s (claimSchedule u waits) ++
      [((claimSchedule u waits).foldl (TokenMove.apply this) s, .tick wait)],
      p.2.Holds this u p.1 := by
    intro p hp
    rcases List.mem_append.mp hp with hp | hp
    · exact holds_of_schedule (Run.label_mem_of_record hp) p.1
    · rw [List.mem_singleton.mp hp]
      exact holds_of_tick wait _
  have hend : s₁.timestamp = s.timestamp + (waits.sum + wait) := by omega
  have hi := accrued_run h.staked h.past hrun hheld
  have hbounds := hi.paid_after_claim h.staked hclaim
  have hmany : (mintedClaims u (Run.record (TokenMove.apply this) s
      (claimSchedule u (waits ++ [wait])))).length = waits.length + 1 := by
    rw [hrecord, mintedClaims_append, mintedClaims_append, hc.minted, List.length_append,
      List.length_append, hlength]
    rfl
  rw [hend, ← hrecord] at hbounds
  have hsingle := single_claim (s.timestamp + (waits.sum + wait)) h.staked
    (h.past.trans (Nat.le_add_right _ _)) h.scaled
  refine ⟨hmany, _, hsingle, hbounds.1, ?_⟩
  rw [← hmany]
  exact hbounds.2

end Schedules

end CrowdTic
