import CrowdTic.Callbacks
import CrowdTic.Reverts
import CrowdTic.TicketNft

/-! The identity registry (`contracts/IdentityRegistry.sol`), an ERC-721 of
soulbound tokens whose ids are the addresses of their owners. -/

namespace CrowdTic

open Reverts

inductive RegistryRevert
  | alreadyVerified
  | invalidCommitment
  | soulbound
  | invalidTokenId
  | ownableUnauthorizedAccount
  | ownableInvalidOwner
  | erc721InvalidReceiver
  | erc721InvalidSender
  | erc721InvalidApprover
  | erc721InsufficientApproval
  | erc721IncorrectOwner
  deriving DecidableEq

structure IdentityRegistry where
  owners : Nat → Address
  tokenApprovals : Nat → Address
  operatorApprovals : Address → Address → Bool
  kycVerified : Address → Bool
  commitments : Address → Bytes32
  hasSBT : Address → Bool
  owner : Address

namespace IdentityRegistry

def deployed (deployer : Address) : IdentityRegistry where
  owners _ := 0
  tokenApprovals _ := 0
  operatorApprovals _ _ := false
  kycVerified _ := false
  commitments _ := 0
  hasSBT _ := false
  owner := deployer

/-- The new owner of the token gets it without the approvals of the old one. -/
def setOwnerOf (s : IdentityRegistry) (tokenId : Nat) (account : Address) : IdentityRegistry :=
  { s with
    owners := Function.update s.owners tokenId account
    tokenApprovals := Function.update s.tokenApprovals tokenId 0 }

/-- The token of a user is minted once, and waits for the user to accept it. -/
def verifyZKKYC (s : IdentityRegistry) (msgSender user : Address) (commitment : Bytes32) :
    Except RegistryRevert (Outcome RegistryRevert IdentityRegistry) := do
  ensure (msgSender = s.owner) .ownableUnauthorizedAccount
  ensure (s.kycVerified user = false) .alreadyVerified
  ensure (commitment ≠ 0) .invalidCommitment
  let s := { s with
    commitments := Function.update s.commitments user commitment
    kycVerified := Function.update s.kycVerified user true }
  if s.hasSBT user then return .done s
  else do
    ensure (user ≠ 0) .erc721InvalidReceiver
    ensure (s.owners user.toNat = 0) .erc721InvalidSender
    return .asks (s.setOwnerOf user.toNat user) fun s =>
      .ok { s with hasSBT := Function.update s.hasSBT user true }

def revokeKYC (s : IdentityRegistry) (msgSender user : Address) :
    Except RegistryRevert IdentityRegistry := do
  ensure (msgSender = s.owner) .ownableUnauthorizedAccount
  return { s with
    kycVerified := Function.update s.kycVerified user false
    commitments := Function.update s.commitments user 0 }

/-- The hook refuses every transfer that passes the checks of ERC-721. -/
def transferFrom (s : IdentityRegistry) (msgSender source recipient : Address) (tokenId : Nat) :
    Except RegistryRevert IdentityRegistry := do
  ensure (recipient ≠ 0) .erc721InvalidReceiver
  ensure (s.owners tokenId ≠ 0) .invalidTokenId
  ensure (s.owners tokenId = msgSender ∨ s.operatorApprovals (s.owners tokenId) msgSender = true ∨
    s.tokenApprovals tokenId = msgSender) .erc721InsufficientApproval
  ensure (s.owners tokenId = source) .erc721IncorrectOwner
  .error .soulbound

def approve (s : IdentityRegistry) (msgSender recipient : Address) (tokenId : Nat) :
    Except RegistryRevert IdentityRegistry := do
  ensure (s.owners tokenId ≠ 0) .invalidTokenId
  ensure (s.owners tokenId = msgSender ∨ s.operatorApprovals (s.owners tokenId) msgSender = true)
    .erc721InvalidApprover
  return { s with tokenApprovals := Function.update s.tokenApprovals tokenId recipient }

def setApprovalForAll (s : IdentityRegistry) (msgSender operator : Address) (approved : Bool) :
    IdentityRegistry :=
  { s with
    operatorApprovals := Function.update s.operatorApprovals msgSender
      (Function.update (s.operatorApprovals msgSender) operator approved) }

end IdentityRegistry

inductive RegistryCall
  | verifyZKKYC (user : Address) (commitment : Bytes32)
  | revokeKYC (user : Address)
  | approve (recipient : Address) (tokenId : Nat)
  | setApprovalForAll (operator : Address) (approved : Bool)
  | transferFrom (source recipient : Address) (tokenId : Nat)
  | transferOwnership (newOwner : Address)
  | renounceOwnership

def registryCalls : Calls RegistryRevert IdentityRegistry (Address × RegistryCall)
  | (msgSender, .verifyZKKYC user commitment), s => s.verifyZKKYC msgSender user commitment
  | (msgSender, .revokeKYC user), s => (s.revokeKYC msgSender user).map .done
  | (msgSender, .approve recipient tokenId), s => (s.approve msgSender recipient tokenId).map .done
  | (msgSender, .setApprovalForAll operator approved), s =>
    return .done (s.setApprovalForAll msgSender operator approved)
  | (msgSender, .transferFrom source recipient tokenId), s =>
    (s.transferFrom msgSender source recipient tokenId).map .done
  | (msgSender, .transferOwnership newOwner), s => do
    ensure (msgSender = s.owner) .ownableUnauthorizedAccount
    ensure (newOwner ≠ 0) .ownableInvalidOwner
    return .done { s with owner := newOwner }
  | (msgSender, .renounceOwnership), s => do
    ensure (msgSender = s.owner) .ownableUnauthorizedAccount
    return .done { s with owner := 0 }

end CrowdTic
