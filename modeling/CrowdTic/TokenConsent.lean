import CrowdTic.StakeBacking

/-! Whose tokens are whose. The balances add up to the supply, and what an account
holds or has staked shrinks only by its own transfers and by what it approved. -/

namespace CrowdTic

open Reverts

/-- The tokens of `u` that a call of `v` sends, its own or under an allowance. -/
def TokenCall.sends (u v : Address) : TokenCall → Nat
  | .transfer _ amount => if v = u then amount else 0
  | .transferFrom source _ amount => if source = u then amount else 0
  | _ => 0

/-- The tokens of `u` that `spender` sends under an allowance. -/
def TokenCall.spends (u spender v : Address) : TokenCall → Nat
  | .transferFrom source _ amount => if source = u ∧ v = spender then amount else 0
  | _ => 0

def TokenCall.approves (u spender v : Address) : TokenCall → Nat
  | .approve s amount => if v = u ∧ s = spender then amount else 0
  | _ => 0

/-- What the calls that took effect in a run come to. -/
def sumOfCalls (this : Address) (amount : Address → TokenCall → Nat)
    (tr : List (CrowdTicToken × TokenMove)) : Nat :=
  (tr.map fun p => match p.2 with
    | .call v c => if (c.exec this p.1 v).toOption.isSome then amount v c else 0
    | .tick _ => 0).sum

namespace CrowdTicToken

def wealth (s : CrowdTicToken) (u : Address) : Nat := s.balances u + s.stakedAmount u

/-- The balances have grown by as much as the supply. -/
structure Minted (s s' : CrowdTicToken) : Prop where
  sum : ∑ u, s'.balances u + s.supply = ∑ u, s.balances u + s'.supply
  grows : s.supply ≤ s'.supply
  fits : s.supply ≤ maxUint256 → s'.supply ≤ maxUint256

/-- Nothing of `u` is gone. -/
structure Paid (u : Address) (s s' : CrowdTicToken) : Prop where
  wealth : s.wealth u ≤ s'.wealth u
  allowances : s'.allowances u = s.allowances u

variable {s s' t : CrowdTicToken} {u v source recipient spender : Address} {amount : Nat}

theorem Minted.refl (s : CrowdTicToken) : Minted s s := ⟨rfl, le_rfl, id⟩

theorem Minted.trans (h : Minted s s') (h' : Minted s' t) : Minted s t where
  sum := by
    have hfirst := h.sum
    have hsecond := h'.sum
    omega
  grows := h.grows.trans h'.grows
  fits := h'.fits ∘ h.fits

theorem Paid.refl (u : Address) (s : CrowdTicToken) : Paid u s s := ⟨le_rfl, rfl⟩

theorem Paid.trans (h : Paid u s s') (h' : Paid u s' t) : Paid u s t :=
  ⟨h.wealth.trans h'.wealth, h'.allowances.trans h.allowances⟩

theorem minted_of_mint (h : s.mint v amount = .ok s') : Minted s s' := by
  obtain ⟨-, hfits, rfl⟩ := mint_ok_iff.mp h
  refine ⟨?_, Nat.le_add_right _ _, fun _ => hfits⟩
  have hsum := sum_update s.balances v (s.balances v + amount)
  show ∑ u, Function.update s.balances v (s.balances v + amount) u + s.supply = _
  show _ = ∑ u, s.balances u + (s.supply + amount)
  omega

theorem paid_of_mint (u : Address) (h : s.mint v amount = .ok s') : Paid u s s' := by
  obtain ⟨-, -, rfl⟩ := mint_ok_iff.mp h
  refine ⟨?_, rfl⟩
  by_cases hv : u = v
  · subst hv
    simp [wealth]
  · simp [wealth, hv]

theorem minted_of_payReward (h : s.payReward v = .ok s') : Minted s s' := by
  obtain ⟨reward, -, ⟨-, rfl⟩ | ⟨-, hmint⟩⟩ := payReward_ok_iff.mp h
  · exact Minted.refl s
  · have hm := minted_of_mint hmint
    exact ⟨hm.sum, hm.grows, hm.fits⟩

theorem paid_of_payReward (u : Address) (h : s.payReward v = .ok s') : Paid u s s' := by
  obtain ⟨reward, -, ⟨-, rfl⟩ | ⟨-, hmint⟩⟩ := payReward_ok_iff.mp h
  · exact Paid.refl u s
  · have hp := paid_of_mint u hmint
    exact ⟨hp.wealth, hp.allowances⟩

theorem of_mintAll (u : Address) {l : List (Address × Nat)} {total : Nat}
    (h : s.mintAll total l = .ok s') : Minted s s' ∧ Paid u s s' := by
  induction l generalizing s total with
  | nil =>
    obtain rfl := return_ok_iff.mp h
    exact ⟨Minted.refl s, Paid.refl u s⟩
  | cons p l ih =>
    obtain ⟨recipient, amount⟩ := p
    simp only [mintAll, bind_ok_iff] at h
    obtain ⟨s₁, hmint, total', -, hrest⟩ := h
    obtain ⟨hminted, hpaid⟩ := ih hrest
    exact ⟨(minted_of_mint hmint).trans hminted, (paid_of_mint u hmint).trans hpaid⟩

theorem balances_moved (s : CrowdTicToken) (source recipient u : Address) {amount : Nat}
    (hle : amount ≤ s.balances source) :
    (s.moved source recipient amount).balances u + (if source = u then amount else 0) =
      s.balances u + if recipient = u then amount else 0 := by
  by_cases hsource : source = u <;> by_cases hrecipient : recipient = u
  · subst hsource hrecipient
    simp [moved]
    omega
  · subst hsource
    simp [moved, hrecipient, Ne.symm hrecipient]
    omega
  · subst hrecipient
    simp [moved, hsource, Ne.symm hsource]
  · simp [moved, hsource, hrecipient, Ne.symm hsource, Ne.symm hrecipient]

theorem sum_balances_moved (s : CrowdTicToken) (source recipient : Address) {amount : Nat}
    (hle : amount ≤ s.balances source) :
    ∑ u, (s.moved source recipient amount).balances u = ∑ u, s.balances u := by
  have hout := sum_update s.balances source (s.balances source - amount)
  have hin := sum_update (Function.update s.balances source (s.balances source - amount)) recipient
    (Function.update s.balances source (s.balances source - amount) recipient + amount)
  show ∑ u, Function.update _ recipient _ u = _
  omega

theorem minted_of_move (h : s.move source recipient amount = .ok s') : Minted s s' := by
  obtain ⟨-, -, hle, rfl⟩ := move_ok_iff.mp h
  have hsum := sum_balances_moved s source recipient hle
  refine ⟨?_, le_rfl, id⟩
  rw [hsum]
  rfl

theorem wealth_of_move (u : Address) (h : s.move source recipient amount = .ok s') :
    s.wealth u ≤ s'.wealth u + (if source = u then amount else 0) ∧ s'.allowances = s.allowances := by
  obtain ⟨-, -, hle, rfl⟩ := move_ok_iff.mp h
  have hmoved := balances_moved s source recipient u hle
  refine ⟨?_, rfl⟩
  show s.balances u + s.stakedAmount u ≤
    (s.moved source recipient amount).balances u + s.stakedAmount u + _
  omega

/-- What `_spendAllowance` leaves of an allowance that is not unlimited. -/
theorem of_spendAllowance (h : s.spendAllowance source v amount = .ok s') (u spender : Address) :
    s'.balances = s.balances ∧ s'.supply = s.supply ∧ s'.stakedAmount = s.stakedAmount ∧
      (s.allowances u spender < maxUint256 →
        s'.allowances u spender + (if source = u ∧ v = spender then amount else 0) =
          s.allowances u spender) := by
  unfold spendAllowance at h
  by_cases hmax : s.allowances source v = maxUint256
  · rw [if_pos hmax, return_ok_iff] at h
    subst h
    refine ⟨rfl, rfl, rfl, fun hlt => ?_⟩
    rw [if_neg, Nat.add_zero]
    rintro ⟨rfl, rfl⟩
    omega
  · rw [if_neg hmax, ensure_bind_ok_iff, approve, ensure_bind_ok_iff, return_ok_iff] at h
    obtain ⟨hle, -, rfl⟩ := h
    refine ⟨rfl, rfl, rfl, fun _ => ?_⟩
    by_cases hsource : source = u
    · subst hsource
      by_cases hv : v = spender
      · subst hv
        simp
        omega
      · simp [hv, Ne.symm hv]
    · simp [hsource, Ne.symm hsource]

end CrowdTicToken

open CrowdTicToken

section Exec

variable {this u v spender : Address} {s s' : CrowdTicToken} {c : TokenCall}

theorem minted_of_exec (h : c.exec this s v = .ok s') : Minted s s' := by
  cases c with
  | stake amount =>
    rw [TokenCall.exec, stake, guarded_ok_iff] at h
    obtain ⟨-, t, hbody, rfl⟩ := h
    simp only [bind_ok_iff, ensure_ok_iff, exists_const, return_ok_iff] at hbody
    obtain ⟨-, _, -, _, -, -, s₁, hpay, s₂, hmove, _, -, _, -, rfl⟩ := hbody
    have hm := (minted_of_payReward hpay).trans (minted_of_move hmove)
    exact ⟨hm.sum, hm.grows, hm.fits⟩
  | unstake amount =>
    rw [TokenCall.exec, unstake, guarded_ok_iff] at h
    obtain ⟨-, t, hbody, rfl⟩ := h
    simp only [bind_ok_iff, ensure_ok_iff, exists_const] at hbody
    obtain ⟨-, -, _, -, -, s₁, hpay, _, -, _, -, hmove⟩ := hbody
    have hpaid := minted_of_payReward hpay
    have hmoved := minted_of_move hmove
    exact ⟨(hpaid.trans ⟨hmoved.sum, hmoved.grows, hmoved.fits⟩).sum, hpaid.grows.trans hmoved.grows,
      hmoved.fits ∘ hpaid.fits⟩
  | claimReward =>
    rw [TokenCall.exec, claimReward, guarded_ok_iff] at h
    obtain ⟨-, t, hpay, rfl⟩ := h
    have hm := minted_of_payReward hpay
    exact ⟨hm.sum, hm.grows, hm.fits⟩
  | airdrop recipients amounts =>
    rw [TokenCall.exec, airdrop, ensure_bind_ok_iff, guarded_ok_iff] at h
    obtain ⟨-, -, t, hbody, rfl⟩ := h
    rw [ensure_bind_ok_iff, bind_ok_iff] at hbody
    obtain ⟨-, t', hmint, hbody⟩ := hbody
    rw [ensure_bind_ok_iff, return_ok_iff] at hbody
    obtain ⟨-, rfl⟩ := hbody
    have hm := (of_mintAll 0 hmint).1
    exact ⟨hm.sum, hm.grows, hm.fits⟩
  | transfer recipient amount => exact minted_of_move h
  | approve spender amount =>
    rw [TokenCall.exec, approve, ensure_bind_ok_iff, return_ok_iff] at h
    obtain ⟨-, rfl⟩ := h
    exact ⟨rfl, le_rfl, id⟩
  | transferFrom source recipient amount =>
    rw [TokenCall.exec, transferFrom, bind_ok_iff] at h
    obtain ⟨s₁, hspend, hmove⟩ := h
    obtain ⟨hbalances, hsupply, -⟩ := of_spendAllowance hspend source v
    have hm := minted_of_move hmove
    refine ⟨?_, hsupply ▸ hm.grows, hsupply ▸ hm.fits⟩
    rw [← hbalances, ← hsupply]
    exact hm.sum
  | transferOwnership newOwner =>
    simp only [TokenCall.exec, ensure_bind_ok_iff, return_ok_iff] at h
    obtain ⟨-, -, rfl⟩ := h
    exact ⟨rfl, le_rfl, id⟩
  | renounceOwnership =>
    simp only [TokenCall.exec, ensure_bind_ok_iff, return_ok_iff] at h
    obtain ⟨-, rfl⟩ := h
    exact ⟨rfl, le_rfl, id⟩

/-- A call of anyone takes from an account what it sends in a transfer, and nothing else. -/
theorem wealth_of_exec (hu : u ≠ this) (h : c.exec this s v = .ok s') :
    s.wealth u ≤ s'.wealth u + c.sends u v := by
  cases c with
  | stake amount =>
    rw [TokenCall.exec, stake, guarded_ok_iff] at h
    obtain ⟨-, t, hbody, rfl⟩ := h
    simp only [bind_ok_iff, ensure_ok_iff, exists_const, return_ok_iff, checkedAdd_ok_iff,
      move_ok_iff] at hbody
    obtain ⟨-, _, -, _, -, -, s₁, hpay, _, ⟨-, -, hle, rfl⟩, _, ⟨-, rfl⟩, _, ⟨-, rfl⟩, rfl⟩ := hbody
    have hpaid := (paid_of_payReward u hpay).wealth
    have hmoved := balances_moved s₁ v this u hle
    refine hpaid.trans (le_of_eq ?_)
    rw [if_neg hu.symm] at hmoved
    show s₁.balances u + s₁.stakedAmount u = (s₁.moved v this amount).balances u +
      Function.update s₁.stakedAmount v (s₁.stakedAmount v + amount) u
    by_cases hv : v = u
    · subst hv
      rw [if_pos rfl] at hmoved
      rw [Function.update_self]
      omega
    · rw [if_neg hv] at hmoved
      rw [Function.update_of_ne (Ne.symm hv)]
      omega
  | unstake amount =>
    obtain ⟨-, hun, t, hpay, -, -, -, hle, rfl⟩ := unstake_ok_iff.mp h
    have hpaid := (paid_of_payReward u hpay).wealth
    have hmoved := balances_moved t this v u hle
    have hstaked : t.stakedAmount = s.stakedAmount := (kept_of_payReward this hpay).staked
    refine hpaid.trans (le_of_eq ?_)
    rw [if_neg hu.symm] at hmoved
    show t.balances u + t.stakedAmount u = (t.moved this v amount).balances u +
      Function.update t.stakedAmount v (t.stakedAmount v - amount) u
    by_cases hv : v = u
    · subst hv
      have hamount : amount ≤ t.stakedAmount v := hstaked ▸ hun.2.1
      rw [if_pos rfl] at hmoved
      rw [Function.update_self]
      omega
    · rw [if_neg hv] at hmoved
      rw [Function.update_of_ne (Ne.symm hv)]
      omega
  | claimReward =>
    rw [TokenCall.exec, claimReward, guarded_ok_iff] at h
    obtain ⟨-, t, hpay, rfl⟩ := h
    exact (paid_of_payReward u hpay).wealth
  | airdrop recipients amounts =>
    rw [TokenCall.exec, airdrop, ensure_bind_ok_iff, guarded_ok_iff] at h
    obtain ⟨-, -, t, hbody, rfl⟩ := h
    rw [ensure_bind_ok_iff, bind_ok_iff] at hbody
    obtain ⟨-, t', hmint, hbody⟩ := hbody
    rw [ensure_bind_ok_iff, return_ok_iff] at hbody
    obtain ⟨-, rfl⟩ := hbody
    exact (of_mintAll u hmint).2.wealth
  | transfer recipient amount => exact (wealth_of_move u h).1
  | approve spender amount =>
    rw [TokenCall.exec, approve, ensure_bind_ok_iff, return_ok_iff] at h
    obtain ⟨-, rfl⟩ := h
    exact le_rfl
  | transferFrom source recipient amount =>
    rw [TokenCall.exec, transferFrom, bind_ok_iff] at h
    obtain ⟨s₁, hspend, hmove⟩ := h
    obtain ⟨hbalances, -, hstaked, -⟩ := of_spendAllowance hspend source v
    have hmoved := (wealth_of_move u hmove).1
    rw [wealth, hbalances, hstaked] at hmoved
    exact hmoved
  | transferOwnership newOwner =>
    simp only [TokenCall.exec, ensure_bind_ok_iff, return_ok_iff] at h
    obtain ⟨-, -, rfl⟩ := h
    exact le_rfl
  | renounceOwnership =>
    simp only [TokenCall.exec, ensure_bind_ok_iff, return_ok_iff] at h
    obtain ⟨-, rfl⟩ := h
    exact le_rfl

/-- An allowance that is not unlimited is set by its owner only, and pays for what is spent. -/
theorem allowance_of_exec (hlt : s.allowances u spender < maxUint256) (h : c.exec this s v = .ok s') :
    v = u ∧ c = .approve spender (s'.allowances u spender) ∨
      s'.allowances u spender + c.spends u spender v = s.allowances u spender := by
  cases c with
  | stake amount =>
    obtain ⟨t, hpay, -, -, -, rfl⟩ := of_stake h
    exact .inr (congrFun (paid_of_payReward u hpay).allowances spender)
  | unstake amount =>
    obtain ⟨-, -, t, hpay, -, -, -, -, rfl⟩ := unstake_ok_iff.mp h
    exact .inr (congrFun (paid_of_payReward u hpay).allowances spender)
  | claimReward =>
    rw [TokenCall.exec, claimReward, guarded_ok_iff] at h
    obtain ⟨-, t, hpay, rfl⟩ := h
    exact .inr (congrFun (paid_of_payReward u hpay).allowances spender)
  | airdrop recipients amounts =>
    rw [TokenCall.exec, airdrop, ensure_bind_ok_iff, guarded_ok_iff] at h
    obtain ⟨-, -, t, hbody, rfl⟩ := h
    rw [ensure_bind_ok_iff, bind_ok_iff] at hbody
    obtain ⟨-, t', hmint, hbody⟩ := hbody
    rw [ensure_bind_ok_iff, return_ok_iff] at hbody
    obtain ⟨-, rfl⟩ := hbody
    exact .inr (congrFun (of_mintAll u hmint).2.allowances spender)
  | transfer recipient amount =>
    have hsame := (wealth_of_move u h).2
    rw [hsame]
    exact .inr rfl
  | approve spender' amount =>
    rw [TokenCall.exec, approve, ensure_bind_ok_iff, return_ok_iff] at h
    obtain ⟨-, rfl⟩ := h
    by_cases hv : v = u
    · subst hv
      by_cases hspender : spender' = spender
      · subst hspender
        exact .inl ⟨rfl, by simp⟩
      · simp [TokenCall.spends, Ne.symm hspender]
    · simp [TokenCall.spends, Ne.symm hv]
  | transferFrom source recipient amount =>
    rw [TokenCall.exec, transferFrom, bind_ok_iff] at h
    obtain ⟨s₁, hspend, hmove⟩ := h
    obtain ⟨-, -, -, hleft⟩ := of_spendAllowance hspend u spender
    rw [(wealth_of_move u hmove).2]
    exact .inr (hleft hlt)
  | transferOwnership newOwner =>
    simp only [TokenCall.exec, ensure_bind_ok_iff, return_ok_iff] at h
    obtain ⟨-, -, rfl⟩ := h
    exact .inr rfl
  | renounceOwnership =>
    simp only [TokenCall.exec, ensure_bind_ok_iff, return_ok_iff] at h
    obtain ⟨-, rfl⟩ := h
    exact .inr rfl

end Exec

section Runs

variable {this deployer : Address} {timestamp : Nat} {tr : List (CrowdTicToken × TokenMove)}
  {s s' t : CrowdTicToken} {m : TokenMove}

theorem sumOfCalls_ok {u : Address} {c : TokenCall} (amount : Address → TokenCall → Nat)
    (h : c.exec this s u = .ok s') :
    sumOfCalls this amount (tr ++ [(s, .call u c)]) = sumOfCalls this amount tr + amount u c := by
  simp [sumOfCalls, h, Except.toOption]

theorem sumOfCalls_idle (amount : Address → TokenCall → Nat)
    (h : ∀ u c, m = .call u c → ∀ t, c.exec this s u ≠ .ok t) :
    sumOfCalls this amount (tr ++ [(s, m)]) = sumOfCalls this amount tr := by
  cases m with
  | tick seconds => simp [sumOfCalls]
  | call u c =>
    have hnone : (c.exec this s u).toOption = none := by
      cases hx : c.exec this s u with
      | ok t => exact absurd hx (h u c rfl t)
      | error e => rfl
    simp [sumOfCalls, hnone]

theorem minted_step (hs : TokenStep this s m s') : Minted s s' := by
  obtain ⟨u, c, -, hx⟩ | ⟨-, now, -, -, rfl⟩ := tokenStep_cases hs
  · exact minted_of_exec hx
  · exact ⟨rfl, le_rfl, id⟩

theorem minted_run (h : Run (TokenStep this) s tr t) : Minted s t := by
  induction h with
  | nil => exact Minted.refl s
  | snoc _ hs ih => exact ih.trans (minted_step hs)

theorem sum_update_zero (u : Address) (n : Nat) : ∑ v, Function.update (fun _ => 0) u n v = n := by
  have hsum := sum_update (fun _ : Address => 0) u n
  have hzero : ∑ _v : Address, 0 = 0 := Finset.sum_const_zero
  omega

theorem sum_balances_deployed (deployer : Address) (timestamp : Nat) :
    ∑ u, (CrowdTicToken.deployed deployer timestamp).balances u =
      (CrowdTicToken.deployed deployer timestamp).supply :=
  sum_update_zero deployer (MAX_SUPPLY * 5 / 100)

/-- In every state of every run the balances add up to the supply, which is a word, and only grows:
no balance, and no sum of balances, ever wraps. -/
theorem balances_add_up {tr₀ : List (CrowdTicToken × TokenMove)}
    (h₀ : Run (TokenStep this) (.deployed deployer timestamp) tr₀ s)
    (h : Run (TokenStep this) s tr t) :
    ∑ u, t.balances u = t.supply ∧ s.supply ≤ t.supply ∧ t.supply ≤ maxUint256 := by
  have hm := minted_run (h₀.append h)
  have hsum := hm.sum
  have hword : (CrowdTicToken.deployed deployer timestamp).supply ≤ maxUint256 := by
    show MAX_SUPPLY * 5 / 100 ≤ maxUint256
    decide +kernel
  rw [sum_balances_deployed] at hsum
  exact ⟨by omega, (minted_run h).grows, hm.fits hword⟩

theorem wealth_of_run {u : Address} (hu : u ≠ this) (h : Run (TokenStep this) s tr t) :
    s.wealth u ≤ t.wealth u + sumOfCalls this (fun v c => c.sends u v) tr := by
  induction h with
  | nil => exact Nat.le_add_right _ _
  | snoc _ hs ih =>
    obtain ⟨v, c, rfl, hx⟩ | ⟨hidle, now, -, -, rfl⟩ := tokenStep_cases hs
    · have hstep := wealth_of_exec hu hx
      rw [sumOfCalls_ok _ hx]
      omega
    · rw [sumOfCalls_idle _ hidle]
      exact ih

theorem allowance_of_run {u spender : Address} (hlt : s.allowances u spender < maxUint256)
    (h : Run (TokenStep this) s tr t)
    (hlimited : ∀ p ∈ tr, ∀ n, p.2 = .call u (.approve spender n) → n < maxUint256) :
    t.allowances u spender < maxUint256 ∧
      t.allowances u spender + sumOfCalls this (fun v c => c.spends u spender v) tr ≤
        s.allowances u spender + sumOfCalls this (fun v c => c.approves u spender v) tr := by
  induction h with
  | nil => exact ⟨hlt, le_rfl⟩
  | @snoc tr t t' m _ hs ih =>
    have hp := List.forall_mem_append.mp hlimited
    obtain ⟨hlt', hsum⟩ := ih hp.1
    obtain ⟨v, c, rfl, hx⟩ | ⟨hidle, now, -, -, rfl⟩ := tokenStep_cases hs
    · rw [sumOfCalls_ok _ hx, sumOfCalls_ok _ hx]
      rcases allowance_of_exec hlt' hx with ⟨rfl, rfl⟩ | hspent
      · have happrove := hp.2 _ (List.mem_singleton_self _) _ rfl
        refine ⟨happrove, ?_⟩
        have hspent : (TokenCall.approve spender (t'.allowances v spender)).spends v spender v = 0 := rfl
        have hset : (TokenCall.approve spender (t'.allowances v spender)).approves v spender v =
            t'.allowances v spender := if_pos ⟨rfl, rfl⟩
        omega
      · exact ⟨by omega, by omega⟩
    · rw [sumOfCalls_idle _ hidle, sumOfCalls_idle _ hidle]
      exact ⟨hlt', hsum⟩

/-- Tokens leave an account by consent only. What it holds or has staked shrinks by no more than its
transfers and what was taken under allowances, and no spender takes more than was approved to it,
unless the approval was unlimited. -/
theorem tokens_leave_by_consent {u : Address} (hu : u ≠ this) (h : Run (TokenStep this) s tr t) :
    s.wealth u ≤ t.wealth u + sumOfCalls this (fun v c => c.sends u v) tr ∧
      ∀ spender, s.allowances u spender < maxUint256 →
        (∀ p ∈ tr, ∀ n, p.2 = .call u (.approve spender n) → n < maxUint256) →
          t.allowances u spender + sumOfCalls this (fun v c => c.spends u spender v) tr ≤
            s.allowances u spender + sumOfCalls this (fun v c => c.approves u spender v) tr :=
  ⟨wealth_of_run hu h, fun _ hlt hlimited => (allowance_of_run hlt h hlimited).2⟩

end Runs

section Demo

/-- An account that lets a second one take 600 of its tokens, of which it takes 500. -/
def demoAllowance : List TokenMove :=
  [demoStake 1000, .call 1 (.approve 2 600), .call 2 (.transferFrom 1 3 500), .call 2 (.transferFrom 1 3 500)]

def demoAllowanceTrace : List (CrowdTicToken × TokenMove) :=
  Run.record (TokenMove.apply 9) (.deployed 1 1000) demoAllowance

theorem demoAllowance_run : Run (TokenStep 9) (.deployed 1 1000) demoAllowanceTrace
    (demoTokenAfter demoAllowance) :=
  Run.of_record (fun _ _ => rfl) _ _

theorem balances_add_up_allowance :
    ∑ u, (demoTokenAfter demoAllowance).balances u = (demoTokenAfter demoAllowance).supply :=
  (balances_add_up .nil demoAllowance_run).1

theorem tokens_leave_by_consent_allowance :
    (CrowdTicToken.deployed 1 1000).wealth 1 ≤ (demoTokenAfter demoAllowance).wealth 1 + 500 ∧
      (demoTokenAfter demoAllowance).allowances 1 2 + 500 ≤ 600 := by
  have hne : (1 : Address) ≠ 9 := by decide
  obtain ⟨hwealth, hspent⟩ := tokens_leave_by_consent hne demoAllowance_run
  have hlimited : ∀ p ∈ demoAllowanceTrace, ∀ n, p.2 = .call 1 (.approve 2 n) → n < maxUint256 := by
    intro p hp n hm
    have hmem : TokenMove.call 1 (.approve 2 n) ∈ demoAllowance := hm ▸ Run.label_mem_of_record hp
    simp only [demoAllowance, demoStake, List.mem_cons, TokenMove.call.injEq, TokenCall.approve.injEq,
      reduceCtorEq, List.not_mem_nil, and_false, or_false, false_or, true_and] at hmem
    subst hmem
    decide +kernel
  have hsends : sumOfCalls 9 (fun v c => c.sends 1 v) demoAllowanceTrace = 500 := by decide +kernel
  have hspends : sumOfCalls 9 (fun v c => c.spends 1 2 v) demoAllowanceTrace = 500 := by decide +kernel
  have happroves : sumOfCalls 9 (fun v c => c.approves 1 2 v) demoAllowanceTrace = 600 := by
    decide +kernel
  have hzero : (CrowdTicToken.deployed 1 1000).allowances 1 2 = 0 := rfl
  have hfirst : (CrowdTicToken.deployed 1 1000).allowances 1 2 < maxUint256 := by
    rw [hzero]
    decide +kernel
  have hbudget := hspent 2 hfirst hlimited
  rw [hspends, happroves, hzero] at hbudget
  rw [hsends] at hwealth
  exact ⟨hwealth, hbudget⟩

end Demo

end CrowdTic
