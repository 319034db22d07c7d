import CrowdTic.StakeBacking

/-! When a stake is released. One timestamp starts the lock and counts the
reward, so that a reward that is paid locks the stake again. -/

namespace CrowdTic

open Reverts

namespace CrowdTicToken

def pending (s : CrowdTicToken) (u : Address) : Nat := (s.getPendingReward u).toOption.getD 0

/-- The reward of `u` is computed and minted within words. -/
def RewardInWords (s : CrowdTicToken) (u : Address) : Prop :=
  let scaled := s.stakedAmount u * (s.timestamp - s.stakeTimestamp u) * REWARDS_PER_STAKED_PER_SECOND
  scaled ≤ maxUint256 ∧ (0 < scaled / 1000000000000000000 →
    s.supply + scaled / 1000000000000000000 ≤ maxUint256)

end CrowdTicToken

open CrowdTicToken

def stakeTime (this u : Address) (p : CrowdTicToken × TokenMove) : Option Nat :=
  match p.2 with
  | .call v (.stake amount) =>
    if v = u ∧ (p.1.stake this v amount).toOption.isSome then some p.1.timestamp else none
  | _ => none

def rewardTime (this u : Address) (p : CrowdTicToken × TokenMove) : Option Nat :=
  match p.2 with
  | .call v c =>
    if v = u ∧ c.paysReward ∧ (c.exec this p.1 v).toOption.isSome ∧ 0 < p.1.pending u then
      some p.1.timestamp
    else none
  | .tick _ => none

def lastTime (time : CrowdTicToken × TokenMove → Option Nat) (tr : List (CrowdTicToken × TokenMove)) :
    Option Nat :=
  tr.reverse.findSome? time

def lastStake (this u : Address) (tr : List (CrowdTicToken × TokenMove)) : Option Nat :=
  lastTime (stakeTime this u) tr

def lastReward (this u : Address) (tr : List (CrowdTicToken × TokenMove)) : Option Nat :=
  lastTime (rewardTime this u) tr

theorem lastTime_append (time : CrowdTicToken × TokenMove → Option Nat)
    (tr : List (CrowdTicToken × TokenMove)) (p : CrowdTicToken × TokenMove) :
    lastTime time (tr ++ [p]) = (time p).or (lastTime time tr) := by
  rw [lastTime, List.reverse_concat, List.findSome?_cons]
  cases time p <;> rfl

namespace CrowdTicToken

theorem stakeTimestamp_of_payReward {s s' : CrowdTicToken} {v : Address} {b : Bool}
    (h : ({ s with entered := b } : CrowdTicToken).payReward v = .ok s') (u : Address) :
    s'.stakeTimestamp u = if v = u ∧ 0 < s.pending u then s.timestamp else s.stakeTimestamp u := by
  obtain ⟨reward, hreward, hcases⟩ := payReward_ok_iff.mp h
  have hpending : s.pending v = reward := congrArg (fun x => x.toOption.getD 0) hreward
  rcases hcases with ⟨hzero, rfl⟩ | ⟨hpos, hmint⟩
  · rw [if_neg]
    rintro ⟨rfl, hpos⟩
    omega
  · obtain ⟨-, -, rfl⟩ := mint_ok_iff.mp hmint
    by_cases hv : v = u
    · subst hv
      simp [hpending, hpos]
    · simp [hv, Ne.symm hv]

theorem stakeTimestamp_of_mintAll {s s' : CrowdTicToken} {l : List (Address × Nat)} {total : Nat}
    (h : s.mintAll total l = .ok s') : s'.stakeTimestamp = s.stakeTimestamp := by
  induction l generalizing s total with
  | nil =>
    obtain rfl := return_ok_iff.mp h
    rfl
  | cons p l ih =>
    obtain ⟨recipient, amount⟩ := p
    simp only [mintAll, bind_ok_iff] at h
    obtain ⟨s₁, hmint, total', -, hrest⟩ := h
    obtain ⟨-, -, rfl⟩ := mint_ok_iff.mp hmint
    have hsame := ih hrest
    exact hsame

theorem stakes_of_transferFrom {u source recipient : Address} {s s' : CrowdTicToken} {amount : Nat}
    (h : s.transferFrom u source recipient amount = .ok s') :
    s'.timestamp = s.timestamp ∧ s'.stakedAmount = s.stakedAmount ∧
      s'.stakeTimestamp = s.stakeTimestamp := by
  rw [transferFrom, bind_ok_iff] at h
  obtain ⟨s₁, hspend, hmove⟩ := h
  obtain ⟨-, -, -, rfl⟩ := move_ok_iff.mp hmove
  unfold spendAllowance at hspend
  by_cases hmax : s.allowances source u = maxUint256
  · rw [if_pos hmax, return_ok_iff] at hspend
    subst hspend
    exact ⟨rfl, rfl, rfl⟩
  · rw [if_neg hmax, ensure_bind_ok_iff, approve, ensure_bind_ok_iff, return_ok_iff] at hspend
    obtain ⟨-, -, rfl⟩ := hspend
    exact ⟨rfl, rfl, rfl⟩

end CrowdTicToken

/-- What a call does to the stake of `u` and to its timestamp. -/
theorem stake_of_exec {this u v : Address} {s s' : CrowdTicToken} {c : TokenCall}
    (h : c.exec this s v = .ok s') : s'.timestamp = s.timestamp ∧
      ((∃ amount, v = u ∧ c = .stake amount ∧ s'.stakeTimestamp u = s.timestamp) ∨
        (∀ amount, v = u → c ≠ .stake amount) ∧ s'.stakedAmount u ≤ s.stakedAmount u ∧
          ((∀ amount, v = u → c ≠ .unstake amount) → s'.stakedAmount u = s.stakedAmount u) ∧
          s'.stakeTimestamp u =
            if v = u ∧ c.paysReward ∧ 0 < s.pending u then s.timestamp else s.stakeTimestamp u) := by
  cases c with
  | stake amount =>
    obtain ⟨t, hpay, -, -, -, rfl⟩ := of_stake h
    have hk := kept_of_payReward this hpay
    refine ⟨hk.now, ?_⟩
    by_cases hv : v = u
    · subst hv
      refine .inl ⟨amount, rfl, rfl, ?_⟩
      simpa using hk.now
    · have hstamp := stakeTimestamp_of_payReward hpay u
      have hsame := congrFun hk.staked u
      refine .inr ⟨fun _ hvu => absurd hvu hv, ?_, fun _ => ?_, ?_⟩
      · simp [Ne.symm hv, hk.staked]
      · simpa [Ne.symm hv] using hsame
      · simpa [hv, Ne.symm hv] using hstamp
  | unstake amount =>
    obtain ⟨-, -, t, hpay, -, -, -, -, rfl⟩ := unstake_ok_iff.mp h
    have hk := kept_of_payReward this hpay
    have hstamp := stakeTimestamp_of_payReward hpay u
    have hsame := congrFun hk.staked u
    refine ⟨hk.now, .inr ⟨by simp, ?_, fun hother => ?_, ?_⟩⟩
    · by_cases hv : v = u
      · subst hv
        simp [hk.staked]
      · simp [Ne.symm hv, hk.staked]
    · have hv : v ≠ u := fun he => hother amount he rfl
      simpa [Ne.symm hv] using hsame
    · show t.stakeTimestamp u = _
      simpa [TokenCall.paysReward] using hstamp
  | claimReward =>
    rw [TokenCall.exec, claimReward, guarded_ok_iff] at h
    obtain ⟨-, t, hpay, rfl⟩ := h
    have hk := kept_of_payReward this hpay
    have hstamp := stakeTimestamp_of_payReward hpay u
    have hsame := congrFun hk.staked u
    refine ⟨hk.now, .inr ⟨by simp, hsame.le, fun _ => hsame, ?_⟩⟩
    simpa [TokenCall.paysReward] using hstamp
  | airdrop recipients amounts =>
    rw [TokenCall.exec, airdrop, ensure_bind_ok_iff, guarded_ok_iff] at h
    obtain ⟨-, -, t, hbody, rfl⟩ := h
    rw [ensure_bind_ok_iff, bind_ok_iff] at hbody
    obtain ⟨-, t', hmint, hbody⟩ := hbody
    rw [ensure_bind_ok_iff, return_ok_iff] at hbody
    obtain ⟨-, rfl⟩ := hbody
    have hk := kept_of_mintAll this hmint
    have hstamp := stakeTimestamp_of_mintAll hmint
    have hsame := congrFun hk.staked u
    refine ⟨hk.now, .inr ⟨by simp, hsame.le, fun _ => hsame, ?_⟩⟩
    simp [TokenCall.paysReward, hstamp]
  | transfer recipient amount =>
    obtain ⟨-, -, -, rfl⟩ := move_ok_iff.mp h
    exact ⟨rfl, .inr ⟨by simp, le_refl _, fun _ => rfl, by simp [TokenCall.paysReward, moved]⟩⟩
  | approve spender amount =>
    rw [TokenCall.exec, approve, ensure_bind_ok_iff, return_ok_iff] at h
    obtain ⟨-, rfl⟩ := h
    exact ⟨rfl, .inr ⟨by simp, le_refl _, fun _ => rfl, by simp [TokenCall.paysReward]⟩⟩
  | transferFrom source recipient amount =>
    obtain ⟨hnow, hstaked, hstamp⟩ := stakes_of_transferFrom h
    exact ⟨hnow, .inr ⟨by simp, by rw [hstaked], fun _ => congrFun hstaked u,
      by simp [TokenCall.paysReward, hstamp]⟩⟩
  | transferOwnership newOwner =>
    simp only [TokenCall.exec, ensure_bind_ok_iff, return_ok_iff] at h
    obtain ⟨-, -, rfl⟩ := h
    exact ⟨rfl, .inr ⟨by simp, le_refl _, fun _ => rfl, by simp [TokenCall.paysReward]⟩⟩
  | renounceOwnership =>
    simp only [TokenCall.exec, ensure_bind_ok_iff, return_ok_iff] at h
    obtain ⟨-, rfl⟩ := h
    exact ⟨rfl, .inr ⟨by simp, le_refl _, fun _ => rfl, by simp [TokenCall.paysReward]⟩⟩

/-- The timestamp of a stake is the later of the last stake and the last reward. -/
structure Stamped (this u : Address) (tr : List (CrowdTicToken × TokenMove)) (s : CrowdTicToken) :
    Prop where
  word : s.timestamp ≤ maxUint256
  staked : ∀ t, lastStake this u tr = some t → t ≤ s.timestamp
  rewarded : ∀ t, lastReward this u tr = some t → t ≤ s.timestamp
  stamp : 0 < s.stakedAmount u →
    ∃ t, lastStake this u tr = some t ∧ s.stakeTimestamp u = max t ((lastReward this u tr).getD 0)

section Steps

variable {this u v : Address} {tr : List (CrowdTicToken × TokenMove)} {s s' : CrowdTicToken} {m : TokenMove}
  {c : TokenCall} {amount : Nat}

theorem lastStake_append : lastStake this u (tr ++ [(s, m)]) =
    (stakeTime this u (s, m)).or (lastStake this u tr) := lastTime_append _ _ _

theorem lastReward_append : lastReward this u (tr ++ [(s, m)]) =
    (rewardTime this u (s, m)).or (lastReward this u tr) := lastTime_append _ _ _

theorem stakeTime_of_stake (hx : s.stake this u amount = .ok s') :
    stakeTime this u (s, .call u (.stake amount)) = some s.timestamp := by
  simp [stakeTime, hx, Except.toOption]

theorem stakeTime_of_other (h : ∀ amount, v = u → c ≠ .stake amount) :
    stakeTime this u (s, .call v c) = none := by
  cases c with
  | stake amount => simp [stakeTime, show v ≠ u from fun hv => h amount hv rfl]
  | _ => rfl

theorem rewardTime_of_ok (hx : c.exec this s v = .ok s') : rewardTime this u (s, .call v c) =
    if v = u ∧ c.paysReward ∧ 0 < s.pending u then some s.timestamp else none := by
  simp [rewardTime, hx, Except.toOption]

theorem times_of_idle (h : ∀ v c, m = .call v c → ∀ t, c.exec this s v ≠ .ok t) :
    stakeTime this u (s, m) = none ∧ rewardTime this u (s, m) = none := by
  cases m with
  | tick seconds => exact ⟨rfl, rfl⟩
  | call v c =>
    cases hx : c.exec this s v with
    | ok t => exact absurd hx (h v c rfl t)
    | error e =>
      refine ⟨?_, by simp [rewardTime, hx, Except.toOption]⟩
      cases c with
      | stake amount =>
        have hstake : s.stake this v amount = .error e := hx
        simp [stakeTime, hstake, Except.toOption]
      | _ => rfl

theorem Stamped.rewarded_call (hi : Stamped this u tr s) (hx : c.exec this s v = .ok s') :
    ∀ t, lastReward this u (tr ++ [(s, .call v c)]) = some t → t ≤ s.timestamp := by
  intro t ht
  rw [lastReward_append, rewardTime_of_ok hx] at ht
  by_cases hpaid : v = u ∧ c.paysReward ∧ 0 < s.pending u
  · rw [if_pos hpaid, Option.some_or] at ht
    exact (Option.some.inj ht).ge
  · rw [if_neg hpaid, Option.none_or] at ht
    exact hi.rewarded t ht

theorem Stamped.stake (hi : Stamped this u tr s) (hx : s.stake this u amount = .ok s')
    (hnow : s'.timestamp = s.timestamp) (hstamp : s'.stakeTimestamp u = s.timestamp) :
    Stamped this u (tr ++ [(s, .call u (.stake amount))]) s' := by
  have hrewarded := hi.rewarded_call (c := .stake amount) hx
  have hstakes : lastStake this u (tr ++ [(s, .call u (.stake amount))]) = some s.timestamp := by
    rw [lastStake_append, stakeTime_of_stake hx, Option.some_or]
  refine ⟨hnow ▸ hi.word, ?_, hnow ▸ hrewarded, fun _ => ⟨s.timestamp, hstakes, ?_⟩⟩
  · intro t ht
    rw [hstakes] at ht
    obtain rfl := Option.some.inj ht
    exact hnow.ge
  · rw [hstamp]
    cases hr : lastReward this u (tr ++ [(s, .call u (.stake amount))]) with
    | none => simp
    | some t => simpa using hrewarded t hr

theorem Stamped.call (hi : Stamped this u tr s) (hx : c.exec this s v = .ok s')
    (hnow : s'.timestamp = s.timestamp) (hother : ∀ amount, v = u → c ≠ .stake amount)
    (hle : s'.stakedAmount u ≤ s.stakedAmount u) (hstamp : s'.stakeTimestamp u =
      if v = u ∧ c.paysReward ∧ 0 < s.pending u then s.timestamp else s.stakeTimestamp u) :
    Stamped this u (tr ++ [(s, .call v c)]) s' := by
  have hstakes : lastStake this u (tr ++ [(s, .call v c)]) = lastStake this u tr := by
    rw [lastStake_append, stakeTime_of_other hother, Option.none_or]
  refine ⟨hnow ▸ hi.word, ?_, hnow ▸ hi.rewarded_call hx, ?_⟩
  · intro t ht
    rw [hnow]
    exact hi.staked t (hstakes ▸ ht)
  · intro hpos
    obtain ⟨t, ht, hold⟩ := hi.stamp (by omega)
    refine ⟨t, hstakes.trans ht, ?_⟩
    rw [hstamp, lastReward_append, rewardTime_of_ok hx]
    by_cases hpaid : v = u ∧ c.paysReward ∧ 0 < s.pending u
    · simpa [hpaid] using hi.staked t ht
    · simpa [hpaid] using hold

theorem Stamped.idle (hi : Stamped this u tr s)
    (hfail : ∀ v c, m = .call v c → ∀ t, c.exec this s v ≠ .ok t) {now : Nat} (hle : s.timestamp ≤ now)
    (hword : now ≤ maxUint256) : Stamped this u (tr ++ [(s, m)]) { s with timestamp := now } := by
  obtain ⟨hstake, hreward⟩ := times_of_idle (u := u) hfail
  have hstakes : lastStake this u (tr ++ [(s, m)]) = lastStake this u tr := by
    rw [lastStake_append, hstake, Option.none_or]
  have hrewards : lastReward this u (tr ++ [(s, m)]) = lastReward this u tr := by
    rw [lastReward_append, hreward, Option.none_or]
  refine ⟨hword, ?_, ?_, ?_⟩
  · intro t ht
    exact (hi.staked t (hstakes ▸ ht)).trans hle
  · intro t ht
    exact (hi.rewarded t (hrewards ▸ ht)).trans hle
  · rw [hstakes, hrewards]
    exact hi.stamp

theorem stamped_step (hi : Stamped this u tr s) (hs : TokenStep this s m s') :
    Stamped this u (tr ++ [(s, m)]) s' := by
  obtain ⟨v, c, rfl, hx⟩ | ⟨hfail, now, hle, hword, rfl⟩ := tokenStep_cases hs
  · obtain ⟨hnow, hcases⟩ := stake_of_exec (u := u) hx
    rcases hcases with ⟨amount, rfl, rfl, hstamp⟩ | ⟨hother, hle, -, hstamp⟩
    · exact hi.stake hx hnow hstamp
    · exact hi.call hx hnow hother hle hstamp
  · exact hi.idle hfail hle (hword hi.word)

end Steps

theorem stamped_run {this deployer : Address} {timestamp : Nat} (hword : timestamp ≤ maxUint256)
    {tr : List (CrowdTicToken × TokenMove)} {s : CrowdTicToken}
    (h : Run (TokenStep this) (.deployed deployer timestamp) tr s) (u : Address) : Stamped this u tr s := by
  induction h with
  | nil => exact ⟨hword, nofun, nofun, fun hpos => absurd hpos (Nat.lt_irrefl 0)⟩
  | snoc _ hs ih => exact stamped_step ih hs

theorem getPendingReward_ok_iff {s : CrowdTicToken} {u : Address} {reward : Nat}
    (hpos : 0 < s.stakedAmount u) (hle : s.stakeTimestamp u ≤ s.timestamp) :
    s.getPendingReward u = .ok reward ↔
      s.stakedAmount u * (s.timestamp - s.stakeTimestamp u) * REWARDS_PER_STAKED_PER_SECOND ≤ maxUint256 ∧
        s.stakedAmount u * (s.timestamp - s.stakeTimestamp u) * REWARDS_PER_STAKED_PER_SECOND /
          1000000000000000000 = reward := by
  have hrate : s.stakedAmount u * (s.timestamp - s.stakeTimestamp u) ≤
      s.stakedAmount u * (s.timestamp - s.stakeTimestamp u) * REWARDS_PER_STAKED_PER_SECOND :=
    Nat.le_mul_of_pos_right _ (by decide)
  rw [getPendingReward, if_neg (by omega)]
  simp only [bind_ok_iff, checkedSub_ok_iff, checkedMul, ensure_ok_iff, exists_const, return_ok_iff]
  constructor
  · rintro ⟨_, ⟨-, rfl⟩, _, ⟨-, rfl⟩, _, ⟨hfits, rfl⟩, rfl⟩
    exact ⟨hfits, rfl⟩
  · rintro ⟨hfits, rfl⟩
    exact ⟨_, ⟨hle, rfl⟩, _, ⟨hrate.trans hfits, rfl⟩, _, ⟨hfits, rfl⟩, rfl⟩

theorem payReward_isOk_of_staked {s : CrowdTicToken} {u : Address} (hpos : 0 < s.stakedAmount u)
    (hle : s.stakeTimestamp u ≤ s.timestamp) (hu : u ≠ 0) :
    (∃ t, s.payReward u = .ok t) ↔ s.RewardInWords u := by
  rw [payReward_isOk_iff]
  constructor
  · rintro ⟨reward, hreward, hcases⟩
    obtain ⟨hfits, rfl⟩ := (getPendingReward_ok_iff hpos hle).mp hreward
    refine ⟨hfits, ?_⟩
    intro hr
    rcases hcases with hzero | ⟨-, hsupply⟩
    · omega
    · exact hsupply
  · rintro ⟨hfits, hsupply⟩
    refine ⟨_, (getPendingReward_ok_iff hpos hle).mpr ⟨hfits, rfl⟩, ?_⟩
    rcases Nat.eq_zero_or_pos (s.stakedAmount u * (s.timestamp - s.stakeTimestamp u) *
      REWARDS_PER_STAKED_PER_SECOND / 1000000000000000000) with hzero | hr
    · exact .inl hzero
    · exact .inr ⟨hu, hsupply hr⟩

/-- The lock of a stake counts from the last stake exactly when, once that lock is over, the last
reward is as old and the next one can be paid. -/
theorem unstake_at_lock_iff (this deployer : Address) {timestamp : Nat} (hword : timestamp ≤ maxUint256)
    {tr : List (CrowdTicToken × TokenMove)} {s : CrowdTicToken}
    (h : Run (TokenStep this) (.deployed deployer timestamp) tr s)
    (hout : ∀ p ∈ tr, p.2.Outside this) (u : Address) (amount : Nat) (hpos : 0 < amount)
    (hle : amount ≤ s.stakedAmount u) :
    ∃ t, lastStake this u tr = some t ∧
      (((∃ s', s.unstake this u amount = .ok s') ↔ t + STAKE_LOCK_SECONDS ≤ s.timestamp) ↔
        (t + STAKE_LOCK_SECONDS ≤ s.timestamp →
          (∀ r, lastReward this u tr = some r → r + STAKE_LOCK_SECONDS ≤ s.timestamp) ∧
            s.RewardInWords u)) := by
  obtain ⟨hb, he⟩ := backed_run h hout
  have hi := stamped_run hword h u
  have hstake : 0 < s.stakedAmount u := by omega
  obtain ⟨t, ht, hstamp⟩ := hi.stamp hstake
  refine ⟨t, ht, ?_⟩
  have htime := hi.staked t ht
  have hle' : s.stakeTimestamp u ≤ s.timestamp := by
    rw [hstamp]
    cases hr : lastReward this u tr with
    | none => simpa using htime
    | some r => simpa using ⟨htime, hi.rewarded r hr⟩
  have hlock : s.stakeTimestamp u + STAKE_LOCK_SECONDS ≤ s.timestamp ↔
      t + STAKE_LOCK_SECONDS ≤ s.timestamp ∧
        ∀ r, lastReward this u tr = some r → r + STAKE_LOCK_SECONDS ≤ s.timestamp := by
    rw [hstamp]
    cases lastReward this u tr with
    | none => simp
    | some r =>
      simp only [Option.getD_some, Option.some.injEq, forall_eq']
      omega
  have hpaid := payReward_isOk_of_staked (s := s) hstake hle' (hb.real u hstake).1
  have hun : (∃ s', s.unstake this u amount = .ok s') ↔
      s.stakeTimestamp u + STAKE_LOCK_SECONDS ≤ s.timestamp ∧ s.RewardInWords u := by
    rw [hb.unstake_isOk_iff, payReward_isOk_iff, ← hpaid, payReward_isOk_iff]
    have hword := hi.word
    constructor
    · rintro ⟨-, ⟨-, -, -, hl⟩, hr⟩
      exact ⟨hl, hr⟩
    · rintro ⟨hl, hr⟩
      exact ⟨he, ⟨by omega, hle, by omega, hl⟩, hr⟩
  rw [hun, hlock, and_assoc, and_iff_left_iff_imp]

/-- A claim on the 29th day of the lock starts another 30 days. -/
theorem claim_extends_lock :
    ¬ ∀ (this deployer : Address) (timestamp : Nat) (tr : List (CrowdTicToken × TokenMove))
      (s : CrowdTicToken), timestamp ≤ maxUint256 →
        Run (TokenStep this) (.deployed deployer timestamp) tr s → (∀ p ∈ tr, p.2.Outside this) →
        ∀ (u : Address) (amount : Nat), 0 < amount → amount ≤ s.stakedAmount u →
          ∃ t, lastStake this u tr = some t ∧
            ((∃ s', s.unstake this u amount = .ok s') ↔ t + STAKE_LOCK_SECONDS ≤ s.timestamp) := by
  intro h
  have hout := @demo_outside [demoStake 1000, .tick 2505600, demoClaim, .tick 86400]
    (by simp [demoStake, demoClaim]) (.deployed 1 1000)
  obtain ⟨t, ht, hiff⟩ := h 9 1 1000 _ _ (by decide +kernel) (Run.of_record (fun _ _ => rfl) _ _) hout
    1 1000 (by decide) (by decide +kernel)
  have hlast : lastStake 9 1 (Run.record (TokenMove.apply 9) (.deployed 1 1000)
      [demoStake 1000, .tick 2505600, demoClaim, .tick 86400]) = some 1000 := by
    decide +kernel
  obtain rfl : t = 1000 := Option.some.inj (ht.symm.trans hlast)
  obtain ⟨s', hs'⟩ := hiff.mpr (by decide +kernel)
  obtain ⟨-, hun, -⟩ := unstake_ok_iff.mp hs'
  have hlocked : ¬ (demoTokenAfter [demoStake 1000, .tick 2505600, demoClaim, .tick 86400]).Unstakable 1 1000 := by
    unfold Unstakable
    decide +kernel
  exact hlocked hun

theorem demo_unstake_at_lock :
    ∃ t, lastStake 9 1 (Run.record (TokenMove.apply 9) (.deployed 1 1000)
        [demoStake 1000, .tick 2592000]) = some t ∧
      ∃ s', (demoTokenAfter [demoStake 1000, .tick 2592000]).unstake 9 1 1000 = .ok s' := by
  have hout := @demo_outside [demoStake 1000, .tick 2592000] (by simp [demoStake]) (.deployed 1 1000)
  obtain ⟨t, ht, hiff⟩ := unstake_at_lock_iff 9 1 (by decide +kernel) (Run.of_record (fun _ _ => rfl) _ _)
    hout 1 1000 (by decide) (by decide +kernel)
  have hlast : lastStake 9 1 (Run.record (TokenMove.apply 9) (.deployed 1 1000)
      [demoStake 1000, .tick 2592000]) = some 1000 := by
    decide +kernel
  obtain rfl : t = 1000 := Option.some.inj (ht.symm.trans hlast)
  have hreward : lastReward 9 1 (Run.record (TokenMove.apply 9) (.deployed 1 1000)
      [demoStake 1000, .tick 2592000]) = none := by
    decide +kernel
  refine ⟨1000, ht, (hiff.mpr fun _ => ⟨?_, ?_⟩).mpr (by decide +kernel)⟩
  · intro r hr
    cases hr.symm.trans hreward
  · unfold RewardInWords
    decide +kernel

end CrowdTic
