import CrowdTic.SupplyCap
import Mathlib.Algebra.BigOperators.Group.Finset.Piecewise
import Mathlib.Data.BitVec
import Mathlib.Data.Fintype.OfMap

/-! The tokens under the stakes. What the stakers have staked adds up to the
running total, and the contract holds at least that much. -/

namespace CrowdTic

open Reverts

theorem sum_update {ι : Type} [Fintype ι] [DecidableEq ι] (f : ι → Nat) (i : ι) (n : Nat) :
    (∑ j, Function.update f i n j) + f i = (∑ j, f j) + n := by
  have hnew := Finset.sum_update_of_mem (Finset.mem_univ i) f n
  have hold := Finset.sum_eq_add_sum_sdiff_singleton_of_mem (Finset.mem_univ i) f
  omega

instance : Fintype Address := Fintype.ofEquiv (Fin (2 ^ 160)) BitVec.equivFin.symm.toEquiv

/-- The calls by which an account gives tokens of its own away or lets others take them. -/
def TokenCall.parts : TokenCall → Bool
  | .stake _ => true
  | .transfer _ _ => true
  | .approve _ _ => true
  | .transferFrom _ _ _ => true
  | _ => false

/-- The contract makes no such calls on itself. -/
def TokenMove.Outside (this : Address) (m : TokenMove) : Prop :=
  ∀ c : TokenCall, m = .call this c → c.parts = false

namespace CrowdTicToken

/-- What `unstake` checks before it pays the reward. -/
def Unstakable (s : CrowdTicToken) (u : Address) (amount : Nat) : Prop :=
  amount ≠ 0 ∧ amount ≤ s.stakedAmount u ∧ s.stakeTimestamp u + STAKE_LOCK_SECONDS ≤ maxUint256 ∧
    s.stakeTimestamp u + STAKE_LOCK_SECONDS ≤ s.timestamp

structure Backed (this : Address) (s : CrowdTicToken) : Prop where
  total : ∑ u, s.stakedAmount u = s.totalStaked
  backed : s.totalStaked ≤ s.balances this
  unapproved : ∀ spender, s.allowances this spender = 0
  real : ∀ u, 0 < s.stakedAmount u → u ≠ 0 ∧ u ≠ this ∧ this ≠ 0

/-- What a call that leaves the stakes alone does at most. -/
structure Kept (this : Address) (s s' : CrowdTicToken) : Prop where
  staked : s'.stakedAmount = s.stakedAmount
  total : s'.totalStaked = s.totalStaked
  unapproved : s'.allowances this = s.allowances this
  balance : s.balances this ≤ s'.balances this
  now : s'.timestamp = s.timestamp
  entered : s'.entered = s.entered

theorem Kept.refl (this : Address) (s : CrowdTicToken) : Kept this s s :=
  ⟨rfl, rfl, rfl, le_refl _, rfl, rfl⟩

theorem Kept.trans {this : Address} {s t u : CrowdTicToken} (h : Kept this s t) (h' : Kept this t u) :
    Kept this s u where
  staked := h'.staked.trans h.staked
  total := h'.total.trans h.total
  unapproved := h'.unapproved.trans h.unapproved
  balance := h.balance.trans h'.balance
  now := h'.now.trans h.now
  entered := h'.entered.trans h.entered

theorem Backed.of_kept {this : Address} {s s' : CrowdTicToken} (h : Backed this s) (hk : Kept this s s') :
    Backed this s' where
  total := by rw [hk.staked, hk.total, h.total]
  backed := by
    have hs := h.backed
    have hbalance := hk.balance
    rw [hk.total]
    omega
  unapproved := by rw [hk.unapproved]; exact h.unapproved
  real := by rw [hk.staked]; exact h.real

theorem Backed.enter {this : Address} {s : CrowdTicToken} (h : Backed this s) (b : Bool) :
    Backed this { s with entered := b } := ⟨h.total, h.backed, h.unapproved, h.real⟩

theorem Backed.amount_le {this : Address} {s : CrowdTicToken} (h : Backed this s) (u : Address) :
    s.stakedAmount u ≤ s.totalStaked := by
  have hsum := sum_update s.stakedAmount u 0
  have htotal := h.total
  omega

theorem kept_of_mint (this : Address) {account : Address} {s s' : CrowdTicToken} {amount : Nat}
    (h : s.mint account amount = .ok s') : Kept this s s' := by
  obtain ⟨-, -, rfl⟩ := mint_ok_iff.mp h
  refine ⟨rfl, rfl, rfl, ?_, rfl, rfl⟩
  by_cases hself : this = account
  · simp [hself]
  · simp [hself]

theorem payReward_ok_iff {s s' : CrowdTicToken} {u : Address} :
    s.payReward u = .ok s' ↔ ∃ reward, s.getPendingReward u = .ok reward ∧
      (reward = 0 ∧ s = s' ∨ 0 < reward ∧
        { s with stakeTimestamp := Function.update s.stakeTimestamp u s.timestamp }.mint u reward = .ok s') := by
  rw [payReward, bind_ok_iff]
  refine exists_congr fun reward => and_congr_right fun _ => ?_
  by_cases hpos : 0 < reward
  · simp [hpos, Nat.pos_iff_ne_zero.mp hpos]
  · simp [Nat.eq_zero_of_not_pos hpos]

theorem payReward_isOk_iff {s : CrowdTicToken} {u : Address} :
    (∃ t, s.payReward u = .ok t) ↔ ∃ reward, s.getPendingReward u = .ok reward ∧
      (reward = 0 ∨ u ≠ 0 ∧ s.supply + reward ≤ maxUint256) := by
  constructor
  · rintro ⟨t, ht⟩
    obtain ⟨reward, hreward, ⟨hzero, -⟩ | ⟨-, hmint⟩⟩ := payReward_ok_iff.mp ht
    · exact ⟨reward, hreward, .inl hzero⟩
    · obtain ⟨hu, hfits, -⟩ := mint_ok_iff.mp hmint
      exact ⟨reward, hreward, .inr ⟨hu, hfits⟩⟩
  · rintro ⟨reward, hreward, hzero | ⟨hu, hfits⟩⟩
    · exact ⟨s, payReward_ok_iff.mpr ⟨reward, hreward, .inl ⟨hzero, rfl⟩⟩⟩
    · rcases Nat.eq_zero_or_pos reward with hzero | hpos
      · exact ⟨s, payReward_ok_iff.mpr ⟨reward, hreward, .inl ⟨hzero, rfl⟩⟩⟩
      · exact ⟨_, payReward_ok_iff.mpr ⟨reward, hreward, .inr ⟨hpos, mint_ok_iff.mpr ⟨hu, hfits, rfl⟩⟩⟩⟩

theorem kept_of_payReward (this : Address) {u : Address} {s s' : CrowdTicToken} (h : s.payReward u = .ok s') :
    Kept this s s' := by
  obtain ⟨reward, -, ⟨-, rfl⟩ | ⟨-, hmint⟩⟩ := payReward_ok_iff.mp h
  · exact Kept.refl this s
  · have hk := kept_of_mint this hmint
    exact ⟨hk.staked, hk.total, hk.unapproved, hk.balance, hk.now, hk.entered⟩

theorem kept_of_mintAll (this : Address) {s s' : CrowdTicToken} {l : List (Address × Nat)} {total : Nat}
    (h : s.mintAll total l = .ok s') : Kept this s s' := by
  induction l generalizing s total with
  | nil =>
    obtain rfl := return_ok_iff.mp h
    exact Kept.refl this s
  | cons p l ih =>
    obtain ⟨recipient, amount⟩ := p
    simp only [mintAll, bind_ok_iff] at h
    obtain ⟨s₁, hmint, total', -, hrest⟩ := h
    exact (kept_of_mint this hmint).trans (ih hrest)

theorem kept_of_moved {this source recipient : Address} (s : CrowdTicToken) (amount : Nat)
    (hne : source ≠ this) : Kept this s (s.moved source recipient amount) := by
  refine ⟨rfl, rfl, rfl, ?_, rfl, rfl⟩
  by_cases hto : this = recipient
  · subst hto
    simp [moved, hne.symm]
  · simp [moved, hto, hne.symm]

theorem kept_of_move {this source recipient : Address} {s s' : CrowdTicToken} {amount : Nat}
    (hne : source ≠ this) (h : s.move source recipient amount = .ok s') : Kept this s s' := by
  obtain ⟨-, -, -, rfl⟩ := move_ok_iff.mp h
  exact kept_of_moved s amount hne

theorem kept_of_approve {this u spender : Address} {s s' : CrowdTicToken} {amount : Nat}
    (hne : u ≠ this) (h : s.approve u spender amount = .ok s') : Kept this s s' := by
  rw [approve, ensure_bind_ok_iff, return_ok_iff] at h
  obtain ⟨-, rfl⟩ := h
  exact ⟨rfl, rfl, Function.update_of_ne hne.symm _ _, le_refl _, rfl, rfl⟩

/-- Nobody else has an allowance of the contract, and so nothing is taken from it. -/
theorem Backed.transferFrom {this u source recipient : Address} {s s' : CrowdTicToken} {amount : Nat}
    (hb : Backed this s) (hne : u ≠ this) (h : s.transferFrom u source recipient amount = .ok s') :
    Backed this s' ∧ s'.entered = s.entered := by
  rw [CrowdTicToken.transferFrom, bind_ok_iff] at h
  obtain ⟨s₁, hspend, hmove⟩ := h
  unfold spendAllowance at hspend
  by_cases hself : source = this
  · subst hself
    have hzero := hb.unapproved u
    have hmax : s.allowances source u ≠ maxUint256 := by rw [hzero]; decide +kernel
    rw [if_neg hmax, ensure_bind_ok_iff, approve, ensure_bind_ok_iff, return_ok_iff] at hspend
    obtain ⟨hle, -, rfl⟩ := hspend
    obtain rfl : amount = 0 := by omega
    obtain ⟨-, -, -, rfl⟩ := move_ok_iff.mp hmove
    refine ⟨⟨hb.total, ?_, ?_, hb.real⟩, rfl⟩
    · have hbacked := hb.backed
      by_cases hto : source = recipient
      · subst hto
        simpa [moved] using hbacked
      · simpa [moved, hto] using hbacked
    · intro spender
      by_cases hto : spender = u
      · subst hto
        simp [moved, hzero]
      · simpa [moved, hto] using hb.unapproved spender
  · have hk := kept_of_move hself hmove
    by_cases hmax : s.allowances source u = maxUint256
    · rw [if_pos hmax, return_ok_iff] at hspend
      subst hspend
      exact ⟨hb.of_kept hk, hk.entered⟩
    · rw [if_neg hmax, ensure_bind_ok_iff] at hspend
      have hk := (kept_of_approve hself hspend.2).trans hk
      exact ⟨hb.of_kept hk, hk.entered⟩

theorem of_stake {this u : Address} {amount : Nat} {s s' : CrowdTicToken}
    (h : s.stake this u amount = .ok s') :
    ∃ t, ({ s with entered := true } : CrowdTicToken).payReward u = .ok t ∧
      amount ≠ 0 ∧ u ≠ 0 ∧ this ≠ 0 ∧
      { t.moved u this amount with
        stakedAmount := Function.update t.stakedAmount u (t.stakedAmount u + amount)
        stakeTimestamp := Function.update t.stakeTimestamp u t.timestamp
        totalStaked := t.totalStaked + amount
        entered := false } = s' := by
  rw [stake, guarded_ok_iff] at h
  obtain ⟨-, _, hbody, rfl⟩ := h
  simp only [bind_ok_iff, ensure_ok_iff, exists_const, return_ok_iff, checkedAdd_ok_iff,
    move_ok_iff] at hbody
  obtain ⟨hamount, _, -, _, -, -, t, hpay, _, ⟨hu, hthis, -, rfl⟩, _, ⟨-, rfl⟩, _, ⟨-, rfl⟩, rfl⟩ := hbody
  exact ⟨t, hpay, hamount, hu, hthis, rfl⟩

theorem checkedSub_ok_iff {a b n : Nat} : checkedSub a b = .ok n ↔ b ≤ a ∧ a - b = n := by
  rw [checkedSub, ensure_bind_ok_iff, return_ok_iff]

theorem unstake_ok_iff {this u : Address} {amount : Nat} {s s' : CrowdTicToken} :
    s.unstake this u amount = .ok s' ↔ s.entered = false ∧ s.Unstakable u amount ∧
      ∃ t, ({ s with entered := true } : CrowdTicToken).payReward u = .ok t ∧
        amount ≤ t.totalStaked ∧ this ≠ 0 ∧ u ≠ 0 ∧ amount ≤ t.balances this ∧
        { t.moved this u amount with
          stakedAmount := Function.update t.stakedAmount u (t.stakedAmount u - amount)
          totalStaked := t.totalStaked - amount
          entered := false } = s' := by
  rw [unstake, guarded_ok_iff]
  simp only [bind_ok_iff, ensure_ok_iff, exists_const, checkedAdd_ok_iff, checkedSub_ok_iff,
    move_ok_iff]
  refine and_congr_right fun _ => ?_
  constructor
  · rintro ⟨_, ⟨hamount, hstake, _, ⟨hword, rfl⟩, hlock, t, hpay, _, ⟨-, rfl⟩, _, ⟨htotal, rfl⟩, hthis,
      hu, hbalance, rfl⟩, rfl⟩
    exact ⟨⟨hamount, hstake, hword, hlock⟩, t, hpay, htotal, hthis, hu, hbalance, rfl⟩
  · rintro ⟨⟨hamount, hstake, hword, hlock⟩, t, hpay, htotal, hthis, hu, hbalance, rfl⟩
    have hk := kept_of_payReward this hpay
    refine ⟨_, ⟨hamount, hstake, _, ⟨hword, rfl⟩, hlock, t, hpay, _, ⟨?_, rfl⟩, _, ⟨htotal, rfl⟩, hthis,
      hu, hbalance, rfl⟩, rfl⟩
    rw [hk.staked]
    exact hstake

theorem Backed.stake {this u : Address} {amount : Nat} {s s' : CrowdTicToken} (hb : Backed this s)
    (hne : u ≠ this) (h : s.stake this u amount = .ok s') : Backed this s' := by
  obtain ⟨t, hpay, -, hu, hthis, rfl⟩ := of_stake h
  have ht : Backed this t := (hb.enter true).of_kept (kept_of_payReward this hpay)
  refine ⟨?_, ?_, ht.unapproved, ?_⟩
  · have hsum := sum_update t.stakedAmount u (t.stakedAmount u + amount)
    have htotal := ht.total
    show ∑ v, Function.update t.stakedAmount u (t.stakedAmount u + amount) v = t.totalStaked + amount
    omega
  · have hbacked := ht.backed
    have hbalance : (t.moved u this amount).balances this = t.balances this + amount := by
      simp [moved, hne.symm]
    show t.totalStaked + amount ≤ (t.moved u this amount).balances this
    omega
  · intro v hv
    by_cases hvu : v = u
    · subst hvu
      exact ⟨hu, hne, hthis⟩
    · have hsame : Function.update t.stakedAmount u (t.stakedAmount u + amount) v = t.stakedAmount v :=
        Function.update_of_ne hvu _ _
      exact ht.real v (hsame ▸ hv)

theorem Backed.unstake_isOk_iff {this u : Address} {amount : Nat} {s : CrowdTicToken}
    (hb : Backed this s) :
    (∃ s', s.unstake this u amount = .ok s') ↔ s.entered = false ∧ s.Unstakable u amount ∧
      ∃ t, ({ s with entered := true } : CrowdTicToken).payReward u = .ok t := by
  constructor
  · rintro ⟨s', h⟩
    obtain ⟨hentered, hun, t, hpay, -⟩ := unstake_ok_iff.mp h
    exact ⟨hentered, hun, t, hpay⟩
  · rintro ⟨hentered, hun, t, hpay⟩
    have ht : Backed this t := (hb.enter true).of_kept (kept_of_payReward this hpay)
    have hstaked : t.stakedAmount = s.stakedAmount := (kept_of_payReward this hpay).staked
    have hle : amount ≤ t.stakedAmount u := by
      rw [hstaked]
      exact hun.2.1
    have hpos : 0 < t.stakedAmount u := by
      have hamount := hun.1
      omega
    obtain ⟨hu, -, hthis⟩ := ht.real u hpos
    have htotal := ht.amount_le u
    have hbacked := ht.backed
    exact ⟨_, unstake_ok_iff.mpr ⟨hentered, hun, t, hpay, by omega, hthis, hu, by omega, rfl⟩⟩

theorem Backed.unstake {this u : Address} {amount : Nat} {s s' : CrowdTicToken} (hb : Backed this s)
    (h : s.unstake this u amount = .ok s') : Backed this s' := by
  obtain ⟨-, hun, t, hpay, htotal, hthis, hu, hbalance, rfl⟩ := unstake_ok_iff.mp h
  have ht : Backed this t := (hb.enter true).of_kept (kept_of_payReward this hpay)
  have hle : amount ≤ t.stakedAmount u := by
    rw [(kept_of_payReward this hpay).staked]
    exact hun.2.1
  have hne : u ≠ this := (ht.real u (Nat.lt_of_lt_of_le (Nat.pos_of_ne_zero hun.1) hle)).2.1
  refine ⟨?_, ?_, ht.unapproved, ?_⟩
  · have hsum := sum_update t.stakedAmount u (t.stakedAmount u - amount)
    have hall := ht.total
    show ∑ v, Function.update t.stakedAmount u (t.stakedAmount u - amount) v = t.totalStaked - amount
    omega
  · have hbacked := ht.backed
    have hleft : (t.moved this u amount).balances this = t.balances this - amount := by
      simp [moved, hne.symm]
    show t.totalStaked - amount ≤ (t.moved this u amount).balances this
    omega
  · intro v hv
    refine ht.real v (Nat.lt_of_lt_of_le hv ?_)
    by_cases hvu : v = u
    · subst hvu
      simp
    · simp [hvu]

end CrowdTicToken

open CrowdTicToken

theorem backed_exec {this u : Address} {s s' : CrowdTicToken} {c : TokenCall} (hb : Backed this s)
    (he : s.entered = false) (hself : u = this → c.parts = false) (h : c.exec this s u = .ok s') :
    Backed this s' ∧ s'.entered = false := by
  have hne (hc : c.parts = true) : u ≠ this := fun hu => by simp [hself hu] at hc
  cases c with
  | stake amount =>
    refine ⟨hb.stake (hne rfl) h, ?_⟩
    obtain ⟨t, -, -, -, -, rfl⟩ := of_stake h
    rfl
  | unstake amount =>
    refine ⟨hb.unstake h, ?_⟩
    obtain ⟨-, -, t, -, -, -, -, -, rfl⟩ := unstake_ok_iff.mp h
    rfl
  | claimReward =>
    rw [TokenCall.exec, claimReward, guarded_ok_iff] at h
    obtain ⟨-, t, hpay, rfl⟩ := h
    exact ⟨((hb.enter true).of_kept (kept_of_payReward this hpay)).enter false, rfl⟩
  | airdrop recipients amounts =>
    rw [TokenCall.exec, airdrop, ensure_bind_ok_iff, guarded_ok_iff] at h
    obtain ⟨-, -, t, hbody, rfl⟩ := h
    rw [ensure_bind_ok_iff, bind_ok_iff] at hbody
    obtain ⟨-, t', hmint, hbody⟩ := hbody
    rw [ensure_bind_ok_iff, return_ok_iff] at hbody
    obtain ⟨-, rfl⟩ := hbody
    exact ⟨((hb.enter true).of_kept (kept_of_mintAll this hmint)).enter false, rfl⟩
  | transfer recipient amount =>
    have hk := kept_of_move (hne rfl) h
    exact ⟨hb.of_kept hk, hk.entered.trans he⟩
  | approve spender amount =>
    have hk := kept_of_approve (hne rfl) h
    exact ⟨hb.of_kept hk, hk.entered.trans he⟩
  | transferFrom source recipient amount =>
    obtain ⟨hb', hsame⟩ := hb.transferFrom (hne rfl) h
    exact ⟨hb', hsame.trans he⟩
  | transferOwnership newOwner =>
    simp only [TokenCall.exec, ensure_bind_ok_iff, return_ok_iff] at h
    obtain ⟨-, -, rfl⟩ := h
    exact ⟨⟨hb.total, hb.backed, hb.unapproved, hb.real⟩, he⟩
  | renounceOwnership =>
    simp only [TokenCall.exec, ensure_bind_ok_iff, return_ok_iff] at h
    obtain ⟨-, rfl⟩ := h
    exact ⟨⟨hb.total, hb.backed, hb.unapproved, hb.real⟩, he⟩

theorem tokenStep_cases {this : Address} {s s' : CrowdTicToken} {m : TokenMove}
    (hs : TokenStep this s m s') :
    (∃ u c, m = .call u c ∧ c.exec this s u = .ok s') ∨
      (∀ u c, m = .call u c → ∀ t, c.exec this s u ≠ .ok t) ∧
        ∃ now, s.timestamp ≤ now ∧ (s.timestamp ≤ maxUint256 → now ≤ maxUint256) ∧
          s' = { s with timestamp := now } := by
  rw [TokenStep] at hs
  subst hs
  cases m with
  | call u c =>
    cases hx : c.exec this s u with
    | ok s' => exact .inl ⟨u, c, rfl, by simp [TokenMove.apply, hx, Except.toOption]⟩
    | error e =>
      refine .inr ⟨?_, s.timestamp, le_refl _, id, by simp [TokenMove.apply, hx, Except.toOption]⟩
      intro u' c' hm t ht
      obtain ⟨rfl, rfl⟩ := TokenMove.call.inj hm
      simp [hx] at ht
  | tick seconds =>
    refine .inr ⟨by simp, ?_⟩
    by_cases hword : s.timestamp + seconds ≤ maxUint256
    · exact ⟨s.timestamp + seconds, Nat.le_add_right _ _, fun _ => hword, by simp [TokenMove.apply, hword]⟩
    · exact ⟨s.timestamp, le_refl _, id, by simp [TokenMove.apply, hword]⟩

theorem backed_step {this : Address} {s s' : CrowdTicToken} {m : TokenMove}
    (hb : Backed this s ∧ s.entered = false) (hout : m.Outside this) (hs : TokenStep this s m s') :
    Backed this s' ∧ s'.entered = false := by
  obtain ⟨u, c, rfl, hx⟩ | ⟨-, now, -, -, rfl⟩ := tokenStep_cases hs
  · exact backed_exec hb.1 hb.2 (fun hu => hout c (hu ▸ rfl)) hx
  · exact ⟨⟨hb.1.total, hb.1.backed, hb.1.unapproved, hb.1.real⟩, hb.2⟩

theorem backed_deployed (this deployer : Address) (timestamp : Nat) :
    Backed this (.deployed deployer timestamp) where
  total := Finset.sum_const_zero
  backed := Nat.zero_le _
  unapproved _ := rfl
  real _ hu := absurd hu (Nat.lt_irrefl 0)

theorem backed_run {this deployer : Address} {timestamp : Nat} {tr : List (CrowdTicToken × TokenMove)}
    {s : CrowdTicToken} (h : Run (TokenStep this) (.deployed deployer timestamp) tr s)
    (hout : ∀ p ∈ tr, p.2.Outside this) : Backed this s ∧ s.entered = false :=
  h.invariant (fun s => Backed this s ∧ s.entered = false) (fun _ m => m.Outside this)
    (fun _ _ _ hb hm hs => backed_step hb hm hs) ⟨backed_deployed this deployer timestamp, rfl⟩ hout

/-- Every stake is covered by tokens of the contract, in every state of a run in which the contract
does not call itself. No unstake fails for want of them. -/
theorem stakes_backed (this deployer : Address) (timestamp : Nat)
    {tr : List (CrowdTicToken × TokenMove)} {s : CrowdTicToken}
    (h : Run (TokenStep this) (.deployed deployer timestamp) tr s)
    (hout : ∀ p ∈ tr, p.2.Outside this) :
    ∑ u, s.stakedAmount u = s.totalStaked ∧ s.totalStaked ≤ s.balances this ∧
      ∀ u amount, s.Unstakable u amount → amount ≤ s.totalStaked ∧ amount ≤ s.balances this ∧
        ∀ t, s.payReward u = .ok t → ∃ s', s.unstake this u amount = .ok s' := by
  obtain ⟨hb, he⟩ := backed_run h hout
  refine ⟨hb.total, hb.backed, ?_⟩
  intro u amount hun
  have hle := hb.amount_le u
  have hamount := hun.2.1
  have hbacked := hb.backed
  refine ⟨by omega, by omega, ?_⟩
  intro t ht
  refine hb.unstake_isOk_iff.mpr ⟨he, hun, ?_⟩
  have hpaid := payReward_isOk_iff.mp ⟨t, ht⟩
  exact payReward_isOk_iff.mpr hpaid

theorem demo_outside {ms : List TokenMove}
    (h : ∀ m ∈ ms, (∃ c, m = .call 1 c) ∨ ∃ seconds, m = .tick seconds) (s : CrowdTicToken) :
    ∀ p ∈ Run.record (TokenMove.apply 9) s ms, p.2.Outside 9 := by
  intro p hp c hm
  rcases h p.2 (Run.label_mem_of_record hp) with ⟨c', hc'⟩ | ⟨seconds, hs⟩
  · exact absurd (TokenMove.call.inj (hm.symm.trans hc')).1 (by decide)
  · cases hm.symm.trans hs

theorem demo_stakes_backed :
    ∑ u, (demoTokenAfter [demoStake 1000, .tick 2592000]).stakedAmount u =
        (demoTokenAfter [demoStake 1000, .tick 2592000]).totalStaked ∧
      ∃ s', (demoTokenAfter [demoStake 1000, .tick 2592000]).unstake 9 1 1000 = .ok s' := by
  have hout := @demo_outside [demoStake 1000, .tick 2592000] (by simp [demoStake]) (.deployed 1 1000)
  obtain ⟨hsum, -, hun⟩ := stakes_backed 9 1 1000 (Run.of_record (fun _ _ => rfl) _ _) hout
  have hpending : (demoTokenAfter [demoStake 1000, .tick 2592000]).getPendingReward 1 = .ok 2999999 := by
    decide +kernel
  have hfits : (demoTokenAfter [demoStake 1000, .tick 2592000]).supply + 2999999 ≤ maxUint256 := by
    decide +kernel
  obtain ⟨t, ht⟩ := payReward_isOk_iff.mpr ⟨_, hpending, .inr ⟨by decide, hfits⟩⟩
  exact ⟨hsum, (hun 1 1000 (by unfold Unstakable; decide +kernel)).2.2 t ht⟩

end CrowdTic
