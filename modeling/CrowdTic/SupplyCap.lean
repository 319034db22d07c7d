import CrowdTic.CrowdTicToken

/-! The supply of the loyalty token. Staking and airdrops are held against
the cap, and the rewards that stakers are paid are not. -/

namespace CrowdTic

namespace CrowdTicToken

open Reverts

def SupplyCapped (s : CrowdTicToken) : Prop := s.totalSupply ≤ MAX_SUPPLY

theorem mint_ok_iff {s s' : CrowdTicToken} {account : Address} {amount : Nat} :
    s.mint account amount = .ok s' ↔ account ≠ 0 ∧ s.supply + amount ≤ maxUint256 ∧
      { s with
        supply := s.supply + amount
        balances := Function.update s.balances account (s.balances account + amount) } = s' := by
  rw [mint, ensure_bind_ok_iff, bind_ok_iff]
  simp only [checkedAdd_ok_iff, return_ok_iff, and_assoc, exists_and_left, exists_eq_left']

theorem move_ok_iff {s s' : CrowdTicToken} {source recipient : Address} {amount : Nat} :
    s.move source recipient amount = .ok s' ↔ source ≠ 0 ∧ recipient ≠ 0 ∧
      amount ≤ s.balances source ∧ s.moved source recipient amount = s' := by
  rw [move, ensure_bind_ok_iff, ensure_bind_ok_iff, ensure_bind_ok_iff, return_ok_iff]

theorem supply_of_approve {s s' : CrowdTicToken} {u spender : Address} {amount : Nat}
    (h : s.approve u spender amount = .ok s') : s'.supply = s.supply := by
  rw [approve, ensure_bind_ok_iff, return_ok_iff] at h
  rw [← h.2]

theorem supply_of_move {s s' : CrowdTicToken} {source recipient : Address} {amount : Nat}
    (h : s.move source recipient amount = .ok s') : s'.supply = s.supply := by
  obtain ⟨-, -, -, rfl⟩ := move_ok_iff.mp h
  rfl

theorem supply_of_transferFrom {s s' : CrowdTicToken} {u source recipient : Address} {amount : Nat}
    (h : s.transferFrom u source recipient amount = .ok s') : s'.supply = s.supply := by
  rw [transferFrom, bind_ok_iff] at h
  obtain ⟨s₁, hspend, hmove⟩ := h
  have hs₁ : s₁.supply = s.supply := by
    unfold spendAllowance at hspend
    by_cases hmax : s.allowances source u = maxUint256
    · rw [if_pos hmax, return_ok_iff] at hspend
      rw [hspend]
    · rw [if_neg hmax, ensure_bind_ok_iff] at hspend
      exact supply_of_approve hspend.2
  rw [supply_of_move hmove, hs₁]

theorem supply_of_payReward {s s' : CrowdTicToken} {u : Address} (h : s.payReward u = .ok s') :
    ∃ reward, s.getPendingReward u = .ok reward ∧ s'.supply = s.supply + reward := by
  rw [payReward, bind_ok_iff] at h
  obtain ⟨reward, hreward, h⟩ := h
  refine ⟨reward, hreward, ?_⟩
  by_cases hpos : 0 < reward
  · rw [if_pos hpos] at h
    obtain ⟨-, -, rfl⟩ := mint_ok_iff.mp h
    rfl
  · rw [if_neg hpos, return_ok_iff] at h
    have hzero : reward = 0 := by omega
    rw [hzero, ← h, Nat.add_zero]

theorem guarded_ok_iff {body : CrowdTicToken → Except TokenRevert CrowdTicToken} {s s' : CrowdTicToken} :
    guarded body s = .ok s' ↔ s.entered = false ∧
      ∃ t, body { s with entered := true } = .ok t ∧ { t with entered := false } = s' :=
  nonReentrant_ok_iff

end CrowdTicToken

open CrowdTicToken Reverts

def TokenCall.paysReward : TokenCall → Bool
  | .stake _ => true
  | .unstake _ => true
  | .claimReward => true
  | _ => false

/-- Whenever a call that pays a reward goes through, the reward fits under the cap. -/
def RewardFits (this : Address) (s : CrowdTicToken) (m : TokenMove) : Prop :=
  ∀ u c reward, m = .call u c → c.paysReward = true → (c.exec this s u).toOption.isSome →
    s.getPendingReward u = .ok reward → s.totalSupply + reward ≤ MAX_SUPPLY

theorem exec_supply_of_paysReward {this u : Address} {s s' : CrowdTicToken} {c : TokenCall}
    (hc : c.paysReward = true) (h : c.exec this s u = .ok s') :
    ∃ reward, s.getPendingReward u = .ok reward ∧ s'.totalSupply = s.totalSupply + reward := by
  cases c with
  | stake amount =>
    rw [TokenCall.exec, stake, guarded_ok_iff] at h
    obtain ⟨-, t, hbody, rfl⟩ := h
    simp only [bind_ok_iff, ensure_ok_iff, exists_const, return_ok_iff] at hbody
    obtain ⟨-, _, -, _, -, -, s₁, hpay, s₂, hmove, _, -, _, -, rfl⟩ := hbody
    obtain ⟨reward, hreward, hsupply⟩ := supply_of_payReward hpay
    exact ⟨reward, hreward, (supply_of_move hmove).trans hsupply⟩
  | unstake amount =>
    rw [TokenCall.exec, unstake, guarded_ok_iff] at h
    obtain ⟨-, t, hbody, rfl⟩ := h
    simp only [bind_ok_iff, ensure_ok_iff, exists_const] at hbody
    obtain ⟨-, -, _, -, -, s₁, hpay, _, -, _, -, hmove⟩ := hbody
    obtain ⟨reward, hreward, hsupply⟩ := supply_of_payReward hpay
    exact ⟨reward, hreward, (supply_of_move hmove).trans hsupply⟩
  | claimReward =>
    rw [TokenCall.exec, claimReward, guarded_ok_iff] at h
    obtain ⟨-, t, hpay, rfl⟩ := h
    obtain ⟨reward, hreward, hsupply⟩ := supply_of_payReward hpay
    exact ⟨reward, hreward, hsupply⟩
  | _ => simp [TokenCall.paysReward] at hc

theorem exec_supply_of_not_paysReward {this u : Address} {s s' : CrowdTicToken} {c : TokenCall}
    (hc : c.paysReward = false) (h : c.exec this s u = .ok s') :
    s'.totalSupply = s.totalSupply ∨ SupplyCapped s' := by
  cases c with
  | airdrop recipients amounts =>
    rw [TokenCall.exec, airdrop, ensure_bind_ok_iff, guarded_ok_iff] at h
    obtain ⟨-, -, t, hbody, rfl⟩ := h
    rw [ensure_bind_ok_iff, bind_ok_iff] at hbody
    obtain ⟨-, s₁, -, hbody⟩ := hbody
    rw [ensure_bind_ok_iff, return_ok_iff] at hbody
    obtain ⟨hcap, rfl⟩ := hbody
    exact .inr hcap
  | transfer recipient amount => exact .inl (supply_of_move h)
  | approve spender amount => exact .inl (supply_of_approve h)
  | transferFrom source recipient amount => exact .inl (supply_of_transferFrom h)
  | transferOwnership newOwner =>
    simp only [TokenCall.exec, ensure_bind_ok_iff, return_ok_iff] at h
    obtain ⟨-, -, rfl⟩ := h
    exact .inl rfl
  | renounceOwnership =>
    simp only [TokenCall.exec, ensure_bind_ok_iff, return_ok_iff] at h
    obtain ⟨-, rfl⟩ := h
    exact .inl rfl
  | _ => simp [TokenCall.paysReward] at hc

theorem supplyCapped_step {this : Address} {s s' : CrowdTicToken} {m : TokenMove}
    (h : SupplyCapped s) (hfit : RewardFits this s m) (hs : TokenStep this s m s') :
    SupplyCapped s' := by
  rw [TokenStep] at hs
  subst hs
  cases m with
  | tick seconds =>
    have hsame : (TokenMove.apply this s (.tick seconds)).supply = s.supply := by
      by_cases hword : s.timestamp + seconds ≤ maxUint256 <;> simp [TokenMove.apply, hword]
    rw [SupplyCapped, totalSupply, hsame]
    exact h
  | call u c =>
    cases hx : c.exec this s u with
    | error e => simpa [TokenMove.apply, hx, Except.toOption] using h
    | ok s' =>
      have happly : TokenMove.apply this s (.call u c) = s' := by
        simp [TokenMove.apply, hx, Except.toOption]
      rw [happly]
      by_cases hc : c.paysReward = true
      · obtain ⟨reward, hreward, hsupply⟩ := exec_supply_of_paysReward hc hx
        have hle := hfit u c reward rfl hc (by simp [hx, Except.toOption]) hreward
        rw [SupplyCapped, hsupply]
        exact hle
      · rcases exec_supply_of_not_paysReward (by simpa using hc) hx with hsame | hcap
        · rw [SupplyCapped, hsame]
          exact h
        · exact hcap

theorem not_capped_of_not_fits {this : Address} {s s' : CrowdTicToken} {m : TokenMove}
    (hfit : ¬ RewardFits this s m) (hs : TokenStep this s m s') : ¬ SupplyCapped s' := by
  simp only [RewardFits, not_forall] at hfit
  obtain ⟨u, c, reward, rfl, hc, hsome, hreward, hle⟩ := hfit
  cases hx : c.exec this s u with
  | error e => simp [hx, Except.toOption] at hsome
  | ok s₁ =>
    have happly : TokenMove.apply this s (.call u c) = s₁ := by
      simp [TokenMove.apply, hx, Except.toOption]
    rw [TokenStep, happly] at hs
    subst hs
    obtain ⟨reward', hreward', hsupply⟩ := exec_supply_of_paysReward hc hx
    obtain rfl : reward = reward' := Except.ok.inj (hreward.symm.trans hreward')
    rwa [SupplyCapped, hsupply]

/-- The supply stays under the cap in every state of a run exactly when every reward that the run
pays fits under it. -/
theorem supply_capped_iff (this deployer : Address) (timestamp : Nat)
    {tr : List (CrowdTicToken × TokenMove)} {s : CrowdTicToken}
    (h : Run (TokenStep this) (.deployed deployer timestamp) tr s) :
    ((∀ p ∈ tr, SupplyCapped p.1) ∧ SupplyCapped s) ↔ ∀ p ∈ tr, RewardFits this p.1 p.2 := by
  have hstart : SupplyCapped (.deployed deployer timestamp) := by
    have htreasury : MAX_SUPPLY * 5 / 100 ≤ MAX_SUPPLY := by decide
    rw [SupplyCapped, totalSupply, CrowdTicToken.deployed]
    exact htreasury
  exact Run.always_iff (fun _ hc => hc) (fun _ _ _ hc hf hs => supplyCapped_step hc hf hs)
    (fun _ _ _ _ hf hs => not_capped_of_not_fits hf hs) hstart h

section Demo

def demoStake (amount : Nat) : TokenMove := .call 1 (.stake amount)

def demoClaim : TokenMove := .call 1 .claimReward

def demoTokenAfter (ms : List TokenMove) : CrowdTicToken :=
  ms.foldl (TokenMove.apply 9) (.deployed 1 1000)

/-- The treasury stakes its 5 % and claims six hours later. -/
theorem reward_exceeds_cap :
    ¬ ∀ (this deployer : Address) (timestamp : Nat) (tr : List (CrowdTicToken × TokenMove))
      (s : CrowdTicToken), Run (TokenStep this) (.deployed deployer timestamp) tr s →
        (∀ p ∈ tr, SupplyCapped p.1) ∧ SupplyCapped s := by
  intro h
  have hstep : ∀ s m, TokenStep 9 s m (m.apply 9 s) := fun _ _ => rfl
  have hrun := Run.of_record hstep (.deployed 1 1000)
    [demoStake (MAX_SUPPLY * 5 / 100), .tick 21600, demoClaim]
  exact absurd (h _ _ _ _ _ hrun).2 (by unfold SupplyCapped; decide +kernel)

theorem small_reward_capped :
    (∀ p ∈ Run.record (TokenMove.apply 9) (.deployed 1 1000) [demoStake 1000, .tick 100, demoClaim],
        SupplyCapped p.1) ∧ SupplyCapped (demoTokenAfter [demoStake 1000, .tick 100, demoClaim]) := by
  refine (supply_capped_iff 9 1 1000 (Run.of_record (fun _ _ => rfl) _ _)).mpr ?_
  intro p hp
  simp only [Run.record, List.mem_cons, List.not_mem_nil, or_false] at hp
  intro u c reward hm _ _ hreward
  rcases hp with rfl | rfl | rfl
  · obtain ⟨rfl, rfl⟩ := TokenMove.call.inj hm
    obtain rfl : 0 = reward := Except.ok.inj hreward
    decide +kernel
  · cases hm
  · obtain ⟨rfl, rfl⟩ := TokenMove.call.inj hm
    have hpending : (demoTokenAfter [demoStake 1000, .tick 100]).getPendingReward 1 = .ok 115 := by
      decide +kernel
    obtain rfl : 115 = reward := Except.ok.inj (hpending.symm.trans hreward)
    show (demoTokenAfter [demoStake 1000, .tick 100]).totalSupply + 115 ≤ MAX_SUPPLY
    decide +kernel

end Demo

end CrowdTic
