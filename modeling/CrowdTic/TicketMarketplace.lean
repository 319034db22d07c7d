import CrowdTic.IdentityRegistry
import CrowdTic.TokenTurns

/-! The marketplace (`contracts/TicketMarketplace.sol`) next to the ticket
contract, the identity registry and the balances of the accounts, wired as
`scripts/deploy.ts` does it. -/

namespace CrowdTic

open Reverts

structure Listing where
  seller : Address
  price : Nat
  tokenId : Nat

def Listing.empty : Listing := ⟨0, 0, 0⟩

def BPS : Nat := 10000

structure TicketMarketplace where
  organizerRoyaltyBps : Nat
  listings : Nat → Listing
  hasListing : Nat → Bool
  owner : Address
  entered : Bool
  /-- The deposits that the escrow of `PullPayment` keeps for each payee. -/
  payments : Address → Nat

namespace TicketMarketplace

def deployed (deployer : Address) : TicketMarketplace where
  organizerRoyaltyBps := 1000
  listings _ := .empty
  hasListing _ := false
  owner := deployer
  entered := false
  payments _ := 0

def listed (s : TicketMarketplace) (tokenId : Nat) (l : Listing) : TicketMarketplace :=
  { s with
    listings := Function.update s.listings tokenId l
    hasListing := Function.update s.hasListing tokenId true }

def delisted (s : TicketMarketplace) (tokenId : Nat) : TicketMarketplace :=
  { s with
    listings := Function.update s.listings tokenId .empty
    hasListing := Function.update s.hasListing tokenId false }

end TicketMarketplace

/-- The addresses of the contracts, and of the account that deploys them. -/
structure Deployment where
  ticketNFT : Address
  identityRegistry : Address
  marketplace : Address
  escrow : Address
  deployer : Address
  distinct : [0, ticketNFT, identityRegistry, marketplace, escrow, deployer].Nodup

namespace Deployment

variable (D : Deployment)

def contracts : List Address := [D.ticketNFT, D.identityRegistry, D.marketplace, D.escrow]

/-- Whoever can send a call: a wallet, or a contract that is not of this deployment. -/
structure Account where
  address : Address
  ne_zero : address ≠ 0
  outside : address ∉ D.contracts

theorem Account.ne_marketplace {D : Deployment} (a : D.Account) : a.address ≠ D.marketplace := by
  have hout := a.outside
  simp only [contracts, List.mem_cons, List.not_mem_nil, or_false, not_or] at hout
  exact hout.2.2.1

theorem marketplace_ne_zero : D.marketplace ≠ 0 := by
  have hd := D.distinct
  simp only [List.nodup_cons, List.mem_cons, not_or] at hd
  exact Ne.symm hd.1.2.2.1

end Deployment

structure Chain (K : Type) where
  nft : TicketNft K
  registry : IdentityRegistry
  market : TicketMarketplace
  wei : Address → Nat

inductive ChainRevert
  | ticketNFT (e : Revert)
  | identityRegistry (e : RegistryRevert)
  | priceAboveCeiling (price ceiling : Nat)
  | notListed (tokenId : Nat)
  | notTokenOwner
  | listingNotOwnedBySeller
  | transferFailed
  | zeroPrice
  | ownableUnauthorizedAccount
  | ownableInvalidOwner
  | reentrantCall
  | arithmeticOverflow
  | insufficientBalance
  | notReceived
  deriving DecidableEq

namespace TicketNft

variable {K : Type} (s : TicketNft K) (tokenId : Nat)

def ownerOf : Except Revert Address := do
  require (s.exists_ tokenId) .invalidToken
  return s.owners tokenId

def getMaxResalePrice : Except Revert Nat := do
  require (s.exists_ tokenId) .invalidToken
  return (s.tickets tokenId).maxResalePrice

end TicketNft

namespace Chain

variable {K : Type}

def deployed (D : Deployment) (wei : Address → Nat) : Chain K where
  nft := { TicketNft.deployed D.deployer with
    identityRegistry := D.identityRegistry
    marketplace := D.marketplace }
  registry := .deployed D.deployer
  market := .deployed D.deployer
  wei := wei

def guarded (body : Chain K → Except ChainRevert (Chain K)) : Chain K → Except ChainRevert (Chain K) :=
  nonReentrant (fun s => s.market.entered)
    (fun b s => { s with market := { s.market with entered := b } }) .reentrantCall body

def pay (s : Chain K) (source recipient : Address) (amount : Nat) : Except ChainRevert (Chain K) := do
  ensure (amount ≤ s.wei source) .insufficientBalance
  let wei := Function.update s.wei source (s.wei source - amount)
  return { s with wei := Function.update wei recipient (wei recipient + amount) }

/-- `ticketNFT.transferFrom` of the marketplace -/
def transferTicket (D : Deployment) (s : Chain K) (source recipient : Address) (tokenId : Nat) :
    Except ChainRevert (Chain K) := do
  let nft ← (s.nft.transferFrom D.marketplace source recipient tokenId).mapError .ticketNFT
  return { s with nft := nft }

/-- `_asyncTransfer` -/
def asyncTransfer (D : Deployment) (s : Chain K) (dest : Address) (amount : Nat) :
    Except ChainRevert (Chain K) := do
  let s ← s.pay D.marketplace D.escrow amount
  ensure (s.market.payments dest + amount ≤ maxUint256) .arithmeticOverflow
  return { s with market := { s.market with
    payments := Function.update s.market.payments dest (s.market.payments dest + amount) } }

def list (D : Deployment) (msgSender : Address) (tokenId price : Nat) :
    Chain K → Except ChainRevert (Chain K) :=
  guarded fun s => do
    ensure (price ≠ 0) .zeroPrice
    let owner ← (s.nft.ownerOf tokenId).mapError .ticketNFT
    ensure (owner = msgSender) .notTokenOwner
    let ceiling ← (s.nft.getMaxResalePrice tokenId).mapError .ticketNFT
    ensure (price ≤ ceiling) (.priceAboveCeiling price ceiling)
    let s ← s.transferTicket D owner D.marketplace tokenId
    return { s with market := s.market.listed tokenId ⟨msgSender, price, tokenId⟩ }

def delist (D : Deployment) (msgSender : Address) (tokenId : Nat) :
    Chain K → Except ChainRevert (Chain K) :=
  guarded fun s => do
    ensure (s.market.hasListing tokenId = true) (.notListed tokenId)
    let l := s.market.listings tokenId
    ensure (l.seller = msgSender ∨ msgSender = s.market.owner) .listingNotOwnedBySeller
    let s := { s with market := s.market.delisted tokenId }
    s.transferTicket D D.marketplace l.seller tokenId

/-- The refund comes with too little gas for the buyer to make calls. -/
def buyBody (D : Deployment) (msgSender : Address) (tokenId value : Nat) (s : Chain K) :
    Except ChainRevert (Chain K) := do
  ensure (s.market.hasListing tokenId = true) (.notListed tokenId)
  let l := s.market.listings tokenId
  ensure (l.price ≤ value) .transferFailed
  ensure (l.price * s.market.organizerRoyaltyBps ≤ maxUint256) .arithmeticOverflow
  let royalty := l.price * s.market.organizerRoyaltyBps / BPS
  ensure (royalty ≤ l.price) .arithmeticOverflow
  let s ← s.asyncTransfer D l.seller (l.price - royalty)
  let s ← s.asyncTransfer D s.market.owner royalty
  let s ← s.transferTicket D D.marketplace msgSender tokenId
  let s := { s with market := s.market.delisted tokenId }
  if l.price < value then s.pay D.marketplace msgSender (value - l.price) else return s

/-- The value of the call is paid before the guards, and there are two of them. -/
def buy (D : Deployment) (msgSender : Address) (tokenId value : Nat) (s : Chain K) :
    Except ChainRevert (Chain K) := do
  let s ← s.pay msgSender D.marketplace value
  guarded (guarded (buyBody D msgSender tokenId value)) s

/-- The escrow pays out with all the gas there is, so the payee can make calls. -/
def withdrawPayments (D : Deployment) (payee : Address) (s : Chain K) :
    Except ChainRevert (Outcome ChainRevert (Chain K)) := do
  let payment := s.market.payments payee
  let s := { s with market := { s.market with
    payments := Function.update s.market.payments payee 0 } }
  let s ← s.pay D.escrow payee payment
  return .asks s .ok

def setOrganizerRoyaltyBps (msgSender : Address) (bps : Nat) (s : Chain K) :
    Except ChainRevert (Chain K) := do
  ensure (msgSender = s.market.owner) .ownableUnauthorizedAccount
  ensure (bps ≤ BPS) .transferFailed
  return { s with market := { s.market with organizerRoyaltyBps := bps } }

end Chain

inductive MarketCall
  | list (tokenId price : Nat)
  | delist (tokenId : Nat)
  | buy (tokenId value : Nat)
  | withdrawPayments (payee : Address)
  | setOrganizerRoyaltyBps (bps : Nat)
  | transferOwnership (newOwner : Address)
  | renounceOwnership

inductive ChainCall
  | nft (c : NftCall)
  | registry (c : RegistryCall)
  | market (c : MarketCall)

section Calls

variable {K : Type}

def marketCalls (D : Deployment) (msgSender : Address) (s : Chain K) :
    MarketCall → Except ChainRevert (Outcome ChainRevert (Chain K))
  | .list tokenId price => (s.list D msgSender tokenId price).map .done
  | .delist tokenId => (s.delist D msgSender tokenId).map .done
  | .buy tokenId value => (s.buy D msgSender tokenId value).map .done
  | .withdrawPayments payee => s.withdrawPayments D payee
  | .setOrganizerRoyaltyBps bps => (s.setOrganizerRoyaltyBps msgSender bps).map .done
  | .transferOwnership newOwner => do
    ensure (msgSender = s.market.owner) .ownableUnauthorizedAccount
    ensure (newOwner ≠ 0) .ownableInvalidOwner
    return .done { s with market := { s.market with owner := newOwner } }
  | .renounceOwnership => do
    ensure (msgSender = s.market.owner) .ownableUnauthorizedAccount
    return .done { s with market := { s.market with owner := 0 } }

/-- The account that has to take a token or a payment. -/
def ChainCall.asked : ChainCall → Option Address
  | .nft (.mintTicket recipient _ _ _ _ _) => some recipient
  | .registry (.verifyZKKYC user _) => some user
  | .market (.withdrawPayments payee) => some payee
  | _ => none

variable [DecidableEq K]

def ChainCall.exec (k : Keccak K) (D : Deployment) (msgSender : Address) (s : Chain K) :
    ChainCall → Except ChainRevert (Outcome ChainRevert (Chain K))
  | .nft c => ((nftCalls k (msgSender, c) s.nft).mapError .ticketNFT).map
    (Outcome.embed Chain.nft (fun s nft => { s with nft := nft }) .ticketNFT s)
  | .registry c => ((registryCalls (msgSender, c) s.registry).mapError .identityRegistry).map
    (Outcome.embed Chain.registry (fun s registry => { s with registry := registry })
      .identityRegistry s)
  | .market c => marketCalls D msgSender s c

/-- The contracts of the deployment take neither tokens nor payments, so they answer nobody. -/
def chainCalls (k : Keccak K) (D : Deployment) :
    Calls ChainRevert (Chain K) (D.Account × ChainCall) := fun (a, c) s => do
  let o ← c.exec k D a.address s
  ensure (o.waits = true → c.asked.all (· ∉ D.contracts) = true) .notReceived
  return o

end Calls

end CrowdTic
