import CrowdTic.Reverts
import CrowdTic.TicketNft

/-! The loyalty token (`contracts/CrowdTicLaunch.sol`): an ERC-20 with
staking. The clock of the chain is part of the state. -/

namespace CrowdTic

open Reverts

def MAX_SUPPLY : Nat := 100000000 * 1000000000000000000

def STAKE_LOCK_SECONDS : Nat := 2592000

def REWARDS_PER_STAKED_PER_SECOND : Nat := 1157407407407407

inductive TokenRevert
  | reverted
  | exceedsMaxSupply
  | reentrantCall
  | arithmeticOverflow
  | ownableUnauthorizedAccount
  | ownableInvalidOwner
  | erc20InvalidSender
  | erc20InvalidReceiver
  | erc20InvalidSpender
  | erc20InsufficientBalance
  | erc20InsufficientAllowance
  deriving DecidableEq

structure CrowdTicToken where
  balances : Address → Nat
  allowances : Address → Address → Nat
  supply : Nat
  stakedAmount : Address → Nat
  stakeTimestamp : Address → Nat
  totalStaked : Nat
  owner : Address
  entered : Bool
  /-- `block.timestamp` -/
  timestamp : Nat

def checkedAdd (a b : Nat) : Except TokenRevert Nat := do
  ensure (a + b ≤ maxUint256) .arithmeticOverflow
  return a + b

def checkedSub (a b : Nat) : Except TokenRevert Nat := do
  ensure (b ≤ a) .arithmeticOverflow
  return a - b

def checkedMul (a b : Nat) : Except TokenRevert Nat := do
  ensure (a * b ≤ maxUint256) .arithmeticOverflow
  return a * b

theorem checkedAdd_ok_iff {a b n : Nat} :
    checkedAdd a b = .ok n ↔ a + b ≤ maxUint256 ∧ a + b = n := by
  rw [checkedAdd, ensure_bind_ok_iff, return_ok_iff]

namespace CrowdTicToken

def totalSupply (s : CrowdTicToken) : Nat := s.supply

/-- `_mint` -/
def mint (s : CrowdTicToken) (account : Address) (amount : Nat) : Except TokenRevert CrowdTicToken := do
  ensure (account ≠ 0) .erc20InvalidReceiver
  let supply ← checkedAdd s.supply amount
  return { s with
    supply := supply
    balances := Function.update s.balances account (s.balances account + amount) }

def moved (s : CrowdTicToken) (source recipient : Address) (amount : Nat) : CrowdTicToken :=
  let balances := Function.update s.balances source (s.balances source - amount)
  { s with balances := Function.update balances recipient (balances recipient + amount) }

/-- `_transfer` -/
def move (s : CrowdTicToken) (source recipient : Address) (amount : Nat) :
    Except TokenRevert CrowdTicToken := do
  ensure (source ≠ 0) .erc20InvalidSender
  ensure (recipient ≠ 0) .erc20InvalidReceiver
  ensure (amount ≤ s.balances source) .erc20InsufficientBalance
  return s.moved source recipient amount

def approve (s : CrowdTicToken) (msgSender spender : Address) (amount : Nat) :
    Except TokenRevert CrowdTicToken := do
  ensure (spender ≠ 0) .erc20InvalidSpender
  return { s with
    allowances := Function.update s.allowances msgSender
      (Function.update (s.allowances msgSender) spender amount) }

/-- `_spendAllowance`. The largest allowance is never used up. -/
def spendAllowance (s : CrowdTicToken) (source spender : Address) (amount : Nat) :
    Except TokenRevert CrowdTicToken :=
  if s.allowances source spender = maxUint256 then return s
  else do
    ensure (amount ≤ s.allowances source spender) .erc20InsufficientAllowance
    s.approve source spender (s.allowances source spender - amount)

def transferFrom (s : CrowdTicToken) (msgSender source recipient : Address) (amount : Nat) :
    Except TokenRevert CrowdTicToken := do
  let s ← s.spendAllowance source msgSender amount
  s.move source recipient amount

def getPendingReward (s : CrowdTicToken) (user : Address) : Except TokenRevert Nat :=
  if s.stakedAmount user = 0 then return 0
  else do
    let elapsed ← checkedSub s.timestamp (s.stakeTimestamp user)
    let weighted ← checkedMul (s.stakedAmount user) elapsed
    let scaled ← checkedMul weighted REWARDS_PER_STAKED_PER_SECOND
    return scaled / 1000000000000000000

/-- `_claimReward` -/
def payReward (s : CrowdTicToken) (user : Address) : Except TokenRevert CrowdTicToken := do
  let reward ← s.getPendingReward user
  if 0 < reward then
    let s := { s with stakeTimestamp := Function.update s.stakeTimestamp user s.timestamp }
    s.mint user reward
  else
    return s

def guarded (body : CrowdTicToken → Except TokenRevert CrowdTicToken) (s : CrowdTicToken) :
    Except TokenRevert CrowdTicToken :=
  nonReentrant entered (fun b s => { s with entered := b }) .reentrantCall body s

/-- `this` is the address of the contract. -/
def stake (this msgSender : Address) (amount : Nat) : CrowdTicToken → Except TokenRevert CrowdTicToken :=
  guarded fun s => do
    ensure (amount ≠ 0) .reverted
    let counted ← checkedAdd s.totalSupply s.totalStaked
    let counted ← checkedAdd counted amount
    ensure (counted ≤ MAX_SUPPLY) .reverted
    let s ← s.payReward msgSender
    let s ← s.move msgSender this amount
    let staked ← checkedAdd (s.stakedAmount msgSender) amount
    let total ← checkedAdd s.totalStaked amount
    return { s with
      stakedAmount := Function.update s.stakedAmount msgSender staked
      stakeTimestamp := Function.update s.stakeTimestamp msgSender s.timestamp
      totalStaked := total }

def unstake (this msgSender : Address) (amount : Nat) : CrowdTicToken → Except TokenRevert CrowdTicToken :=
  guarded fun s => do
    ensure (amount ≠ 0) .reverted
    ensure (amount ≤ s.stakedAmount msgSender) .reverted
    let unlock ← checkedAdd (s.stakeTimestamp msgSender) STAKE_LOCK_SECONDS
    ensure (unlock ≤ s.timestamp) .reverted
    let s ← s.payReward msgSender
    let staked ← checkedSub (s.stakedAmount msgSender) amount
    let total ← checkedSub s.totalStaked amount
    let s := { s with
      stakedAmount := Function.update s.stakedAmount msgSender staked
      totalStaked := total }
    s.move this msgSender amount

def claimReward (msgSender : Address) : CrowdTicToken → Except TokenRevert CrowdTicToken :=
  guarded fun s => s.payReward msgSender

/-- The loop of `airdrop`, with the running `total` that nothing reads. -/
def mintAll (s : CrowdTicToken) (total : Nat) : List (Address × Nat) → Except TokenRevert CrowdTicToken
  | [] => return s
  | (recipient, amount) :: rest => do
    let s ← s.mint recipient amount
    let total ← checkedAdd total amount
    s.mintAll total rest

def airdrop (msgSender : Address) (recipients : List Address) (amounts : List Nat)
    (s : CrowdTicToken) : Except TokenRevert CrowdTicToken := do
  ensure (msgSender = s.owner) .ownableUnauthorizedAccount
  guarded (fun s => do
    ensure (recipients.length = amounts.length) .reverted
    let s ← s.mintAll 0 (recipients.zip amounts)
    ensure (s.totalSupply ≤ MAX_SUPPLY) .exceedsMaxSupply
    return s) s

def deployed (deployer : Address) (timestamp : Nat) : CrowdTicToken where
  balances := Function.update (fun _ => 0) deployer (MAX_SUPPLY * 5 / 100)
  allowances _ _ := 0
  supply := MAX_SUPPLY * 5 / 100
  stakedAmount _ := 0
  stakeTimestamp _ := 0
  totalStaked := 0
  owner := deployer
  entered := false
  timestamp := timestamp

end CrowdTicToken

inductive TokenCall
  | stake (amount : Nat)
  | unstake (amount : Nat)
  | claimReward
  | airdrop (recipients : List Address) (amounts : List Nat)
  | transfer (recipient : Address) (amount : Nat)
  | approve (spender : Address) (amount : Nat)
  | transferFrom (source recipient : Address) (amount : Nat)
  | transferOwnership (newOwner : Address)
  | renounceOwnership

def TokenCall.exec (this : Address) (s : CrowdTicToken) (msgSender : Address) :
    TokenCall → Except TokenRevert CrowdTicToken
  | .stake amount => s.stake this msgSender amount
  | .unstake amount => s.unstake this msgSender amount
  | .claimReward => s.claimReward msgSender
  | .airdrop recipients amounts => s.airdrop msgSender recipients amounts
  | .transfer recipient amount => s.move msgSender recipient amount
  | .approve spender amount => s.approve msgSender spender amount
  | .transferFrom source recipient amount => s.transferFrom msgSender source recipient amount
  | .transferOwnership newOwner => do
    ensure (msgSender = s.owner) .ownableUnauthorizedAccount
    ensure (newOwner ≠ 0) .ownableInvalidOwner
    return { s with owner := newOwner }
  | .renounceOwnership => do
    ensure (msgSender = s.owner) .ownableUnauthorizedAccount
    return { s with owner := 0 }

inductive TokenMove
  | call (msgSender : Address) (c : TokenCall)
  | tick (seconds : Nat)

/-- A call that reverts leaves the state as it was. The clock is a word, too. -/
def TokenMove.apply (this : Address) (s : CrowdTicToken) : TokenMove → CrowdTicToken
  | .call msgSender c => (c.exec this s msgSender).toOption.getD s
  | .tick seconds =>
    if s.timestamp + seconds ≤ maxUint256 then { s with timestamp := s.timestamp + seconds } else s

def TokenStep (this : Address) (s : CrowdTicToken) (m : TokenMove) (s' : CrowdTicToken) : Prop :=
  m.apply this s = s'

end CrowdTic
