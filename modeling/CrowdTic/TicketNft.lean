import CrowdTic.Runs
import Mathlib.Logic.Function.Basic

/-! The ticket contract (`contracts/TicketNFT.sol`): its storage, its external
calls, and a transaction as one call together with the calls that the
recipient of a minted token makes when it is told about the token. -/

namespace CrowdTic

abbrev Address := BitVec 160

abbrev Bytes32 := BitVec 256

def maxUint256 : Nat := Nat.pow 2 256 - 1

/-- `keccak256` of the two encodings that the contract hashes. -/
structure Keccak (K : Type) where
  seat : Bytes32 → Nat → K
  event : Bytes32 → K
  seat_inj : ∀ e n e' n', seat e n = seat e' n' → e = e' ∧ n = n'

structure Ticket where
  eventId : Bytes32
  seatNumber : Nat
  faceValue : Nat
  maxResalePrice : Nat
  kycRequired : Bool
  originalOwner : Address
  transferred : Bool
  metadataURI : String

/-- A slot that was never written or was deleted. -/
def Ticket.empty : Ticket := ⟨0, 0, 0, 0, false, 0, false, ""⟩

structure TicketNft (K : Type) where
  owners : Nat → Address
  tokenApprovals : Nat → Address
  operatorApprovals : Address → Address → Bool
  tokenURIs : Nat → String
  tokenIdCounter : Nat
  tickets : Nat → Ticket
  seatToToken : K → Nat
  isKYCVerified : Address → Bool
  eventMinted : K → Bool
  marketplace : Address
  identityRegistry : Address
  owner : Address
  /-- The flag of the reentrancy guard. -/
  entered : Bool

inductive Revert
  | seatAlreadyMinted (eventId : Bytes32) (seatNumber : Nat)
  | notMarketplace
  | kycRequired
  | invalidToken
  | transferLocked
  | ownableUnauthorizedAccount
  | ownableInvalidOwner
  | reentrantCall
  | arithmeticOverflow
  | erc721InvalidReceiver
  | erc721InvalidSender
  | erc721InvalidApprover
  | erc721InsufficientApproval
  | erc721IncorrectOwner
  deriving DecidableEq

def require (c : Prop) [Decidable c] (e : Revert) : Except Revert Unit :=
  if c then .ok () else .error e

@[simp] theorem require_bind_eq_ok {α : Type} {c : Prop} [Decidable c] {e : Revert}
    {f : Unit → Except Revert α} {a : α} : (require c e >>= f) = .ok a ↔ c ∧ f () = .ok a := by
  by_cases h : c <;> simp [require, h, bind, Except.bind]

theorem map_eq_ok {α β : Type} {x : Except Revert α} {f : α → β} {b : β} :
    x.map f = .ok b ↔ ∃ a, x = .ok a ∧ f a = b := by
  cases x <;> simp [Except.map]

theorem bind_eq_ok {α β : Type} {x : Except Revert α} {f : α → Except Revert β} {b : β} :
    (x >>= f) = .ok b ↔ ∃ a, x = .ok a ∧ f a = .ok b := by
  cases x <;> simp [bind, Except.bind]

namespace TicketNft

variable {K : Type}

def deployed (deployer : Address) : TicketNft K where
  owners _ := 0
  tokenApprovals _ := 0
  operatorApprovals _ _ := false
  tokenURIs _ := ""
  tokenIdCounter := 0
  tickets _ := .empty
  seatToToken _ := 0
  isKYCVerified _ := false
  eventMinted _ := false
  marketplace := 0
  identityRegistry := 0
  owner := deployer
  entered := false

/-- `_exists` -/
def exists_ (s : TicketNft K) (tokenId : Nat) : Prop := s.owners tokenId ≠ 0

instance (s : TicketNft K) (tokenId : Nat) : Decidable (s.exists_ tokenId) :=
  inferInstanceAs (Decidable (_ ≠ _))

def getSeatToken (k : Keccak K) (s : TicketNft K) (eventId : Bytes32) (seatNumber : Nat) : Nat :=
  s.seatToToken (k.seat eventId seatNumber)

def totalSupply (s : TicketNft K) : Nat := s.tokenIdCounter

/-- The owner of a token, an operator of the owner, or the account approved for the token. -/
def authorized (s : TicketNft K) (account : Address) (tokenId : Nat) : Prop :=
  s.owners tokenId = account ∨ s.operatorApprovals (s.owners tokenId) account = true ∨
    s.tokenApprovals tokenId = account

instance (s : TicketNft K) (account : Address) (tokenId : Nat) :
    Decidable (s.authorized account tokenId) :=
  inferInstanceAs (Decidable (_ ∨ _ ∨ _))

/-- The hook of a token between two accounts. A mint or a burn passes it unchanged. -/
def beforeTokenTransfer (s : TicketNft K) (source recipient : Address) (tokenId : Nat) :
    Except Revert (TicketNft K) :=
  if source = 0 ∨ recipient = 0 then .ok s
  else do
    let ticket := s.tickets tokenId
    require (ticket.transferred = false) .transferLocked
    require (ticket.kycRequired = true → s.isKYCVerified recipient = true) .kycRequired
    if source ≠ ticket.originalOwner then
      return { s with tickets := Function.update s.tickets tokenId { ticket with transferred := true } }
    else
      return s

def setOwnerOf (s : TicketNft K) (tokenId : Nat) (account : Address) : TicketNft K :=
  { s with
    owners := Function.update s.owners tokenId account
    tokenApprovals := Function.update s.tokenApprovals tokenId 0 }

def transferFrom (s : TicketNft K) (msgSender source recipient : Address) (tokenId : Nat) :
    Except Revert (TicketNft K) := do
  require (recipient ≠ 0) .erc721InvalidReceiver
  require (s.exists_ tokenId) .invalidToken
  require (s.authorized msgSender tokenId) .erc721InsufficientApproval
  require (s.owners tokenId = source) .erc721IncorrectOwner
  let s ← s.beforeTokenTransfer source recipient tokenId
  return s.setOwnerOf tokenId recipient

def approve (s : TicketNft K) (msgSender recipient : Address) (tokenId : Nat) :
    Except Revert (TicketNft K) := do
  require (s.exists_ tokenId) .invalidToken
  require (s.owners tokenId = msgSender ∨ s.operatorApprovals (s.owners tokenId) msgSender = true)
    .erc721InvalidApprover
  return { s with tokenApprovals := Function.update s.tokenApprovals tokenId recipient }

def setApprovalForAll (s : TicketNft K) (msgSender operator : Address) (approved : Bool) :
    TicketNft K :=
  { s with
    operatorApprovals := Function.update s.operatorApprovals msgSender
      (Function.update (s.operatorApprovals msgSender) operator approved) }

/-- The state in which the recipient is told about the token: it has an owner and no ticket yet. -/
def minting (s : TicketNft K) (recipient : Address) : TicketNft K :=
  { s with entered := true, tokenIdCounter := s.tokenIdCounter + 1 }.setOwnerOf
    s.tokenIdCounter recipient

def recordTicket [DecidableEq K] (k : Keccak K) (s : TicketNft K) (tokenId : Nat)
    (ticket : Ticket) : TicketNft K :=
  { s with
    tokenURIs := Function.update s.tokenURIs tokenId ticket.metadataURI
    tickets := Function.update s.tickets tokenId ticket
    seatToToken := Function.update s.seatToToken (k.seat ticket.eventId ticket.seatNumber) tokenId
    eventMinted := Function.update s.eventMinted (k.event ticket.eventId) true
    entered := false }

/-- `onReceived` is the call to the recipient inside `_safeMint`. -/
def mintTicket [DecidableEq K] (k : Keccak K) (s : TicketNft K) (msgSender recipient : Address)
    (eventId : Bytes32) (seatNumber faceValue : Nat) (kycRequired : Bool) (metadataURI : String)
    (onReceived : TicketNft K → Except Revert (TicketNft K)) : Except Revert (Nat × TicketNft K) := do
  require (msgSender = s.owner) .ownableUnauthorizedAccount
  require (s.entered = false) .reentrantCall
  require (s.seatToToken (k.seat eventId seatNumber) = 0) (.seatAlreadyMinted eventId seatNumber)
  let tokenId := s.tokenIdCounter
  require (tokenId < maxUint256) .arithmeticOverflow
  require (recipient ≠ 0) .erc721InvalidReceiver
  require (¬ s.exists_ tokenId) .erc721InvalidSender
  let s ← onReceived (s.minting recipient)
  require (faceValue * 120 ≤ maxUint256) .arithmeticOverflow
  return (tokenId, s.recordTicket k tokenId
    { eventId := eventId
      seatNumber := seatNumber
      faceValue := faceValue
      maxResalePrice := faceValue * 120 / 100
      kycRequired := kycRequired
      originalOwner := recipient
      transferred := false
      metadataURI := metadataURI })

def burned (s : TicketNft K) (tokenId : Nat) : TicketNft K :=
  { s.setOwnerOf tokenId 0 with
    tokenURIs := Function.update s.tokenURIs tokenId ""
    tickets := Function.update s.tickets tokenId .empty }

def cancelTicket (s : TicketNft K) (msgSender : Address) (tokenId : Nat) :
    Except Revert (TicketNft K) := do
  require (msgSender = s.owner) .ownableUnauthorizedAccount
  require (s.entered = false) .reentrantCall
  require (s.exists_ tokenId) .invalidToken
  return s.burned tokenId

def setKYCVerified (s : TicketNft K) (msgSender user : Address) (status : Bool) :
    Except Revert (TicketNft K) := do
  require (msgSender = s.identityRegistry ∨ msgSender = s.owner) .notMarketplace
  return { s with isKYCVerified := Function.update s.isKYCVerified user status }

def setMaxResalePrice (s : TicketNft K) (msgSender : Address) (tokenId newCeiling : Nat) :
    Except Revert (TicketNft K) := do
  require (msgSender = s.owner) .ownableUnauthorizedAccount
  require (s.exists_ tokenId) .invalidToken
  let ticket := s.tickets tokenId
  require (ticket.faceValue ≤ newCeiling) .invalidToken
  return { s with
    tickets := Function.update s.tickets tokenId { ticket with maxResalePrice := newCeiling } }

end TicketNft

section Seats

variable {K : Type}

/-- Neither the counter, the index, nor the seat or the existence of any token has changed. -/
structure SameSeats (s s' : TicketNft K) : Prop where
  counter : s'.tokenIdCounter = s.tokenIdCounter
  index : s'.seatToToken = s.seatToToken
  live : ∀ t, s'.exists_ t ↔ s.exists_ t
  eventId : ∀ t, (s'.tickets t).eventId = (s.tickets t).eventId
  seatNumber : ∀ t, (s'.tickets t).seatNumber = (s.tickets t).seatNumber
  entered : s'.entered = s.entered

namespace SameSeats

theorem untouched {s s' : TicketNft K} (ho : s'.owners = s.owners)
    (hc : s'.tokenIdCounter = s.tokenIdCounter) (ht : s'.tickets = s.tickets)
    (hi : s'.seatToToken = s.seatToToken) (he : s'.entered = s.entered) : SameSeats s s' where
  counter := hc
  index := hi
  live t := by simp [TicketNft.exists_, ho]
  eventId t := by rw [ht]
  seatNumber t := by rw [ht]
  entered := he

theorem refl (s : TicketNft K) : SameSeats s s := .untouched rfl rfl rfl rfl rfl

theorem trans {s s' s'' : TicketNft K} (h : SameSeats s s') (h' : SameSeats s' s'') :
    SameSeats s s'' where
  counter := h'.counter.trans h.counter
  index := h'.index.trans h.index
  live t := (h'.live t).trans (h.live t)
  eventId t := (h'.eventId t).trans (h.eventId t)
  seatNumber t := (h'.seatNumber t).trans (h.seatNumber t)
  entered := h'.entered.trans h.entered

theorem rewrite (s : TicketNft K) (t : Nat) (ticket : Ticket)
    (he : ticket.eventId = (s.tickets t).eventId)
    (hn : ticket.seatNumber = (s.tickets t).seatNumber) :
    SameSeats s { s with tickets := Function.update s.tickets t ticket } := by
  refine ⟨rfl, rfl, fun _ => Iff.rfl, fun u => ?_, fun u => ?_, rfl⟩
  all_goals
    by_cases hu : u = t
    · subst hu
      simp [he, hn]
    · simp [hu]

theorem handOver (s : TicketNft K) {t : Nat} {a : Address} (ht : s.exists_ t) (ha : a ≠ 0) :
    SameSeats s (s.setOwnerOf t a) := by
  refine ⟨rfl, rfl, fun u => ?_, fun _ => rfl, fun _ => rfl, rfl⟩
  by_cases hu : u = t
  · subst hu
    exact iff_of_true (by simpa [TicketNft.exists_, TicketNft.setOwnerOf] using ha) ht
  · simp [TicketNft.exists_, TicketNft.setOwnerOf, hu]

end SameSeats

end Seats

section Transfers

variable {K : Type}

/-- The state after a transfer. A sender that is not the original owner locks the token. -/
def TicketNft.handed (s : TicketNft K) (source recipient : Address) (tokenId : Nat) : TicketNft K :=
  { s with
    tickets := Function.update s.tickets tokenId { s.tickets tokenId with
      transferred := decide (source ≠ (s.tickets tokenId).originalOwner) } }.setOwnerOf tokenId recipient

theorem SameSeats.handed (s : TicketNft K) {source recipient : Address} {t : Nat} (ht : s.exists_ t)
    (hr : recipient ≠ 0) : SameSeats s (s.handed source recipient t) := by
  have hlocked := SameSeats.rewrite s t { s.tickets t with
    transferred := decide (source ≠ (s.tickets t).originalOwner) } rfl rfl
  exact hlocked.trans (.handOver _ ((hlocked.live t).mpr ht) hr)

theorem beforeTokenTransfer_iff {s s' : TicketNft K} {source recipient : Address} {t : Nat}
    (hs : source ≠ 0) (hr : recipient ≠ 0) :
    s.beforeTokenTransfer source recipient t = .ok s' ↔ (s.tickets t).transferred = false ∧
      ((s.tickets t).kycRequired = true → s.isKYCVerified recipient = true) ∧
      { s with tickets := Function.update s.tickets t { s.tickets t with
        transferred := decide (source ≠ (s.tickets t).originalOwner) } } = s' := by
  have hz : ¬ (source = 0 ∨ recipient = 0) := not_or.mpr ⟨hs, hr⟩
  rw [TicketNft.beforeTokenTransfer, if_neg hz]
  simp only [require_bind_eq_ok]
  refine and_congr_right fun hlock => and_congr_right fun _ => ?_
  by_cases ho : source ≠ (s.tickets t).originalOwner
  · rw [if_pos ho, decide_eq_true ho]
    exact ⟨Except.ok.inj, congrArg _⟩
  · have hsame : { s.tickets t with transferred := false } = s.tickets t := by rw [← hlock]
    rw [if_neg ho, decide_eq_false ho, hsame, Function.update_eq_self]
    exact ⟨Except.ok.inj, congrArg _⟩

theorem transferFrom_iff {s s' : TicketNft K} {a source recipient : Address} {t : Nat} :
    s.transferFrom a source recipient t = .ok s' ↔ recipient ≠ 0 ∧ s.exists_ t ∧ s.authorized a t ∧
      s.owners t = source ∧ (s.tickets t).transferred = false ∧
      ((s.tickets t).kycRequired = true → s.isKYCVerified recipient = true) ∧
      s.handed source recipient t = s' := by
  rw [TicketNft.transferFrom, require_bind_eq_ok, require_bind_eq_ok, require_bind_eq_ok,
    require_bind_eq_ok, bind_eq_ok]
  refine and_congr_right fun hr => and_congr_right fun hlive => and_congr_right fun _ =>
    and_congr_right fun ho => ?_
  have hs : source ≠ 0 := ho ▸ hlive
  constructor
  · rintro ⟨s₁, hb, h⟩
    obtain ⟨hlock, hkyc, rfl⟩ := (beforeTokenTransfer_iff hs hr).mp hb
    exact ⟨hlock, hkyc, Except.ok.inj h⟩
  · rintro ⟨hlock, hkyc, rfl⟩
    exact ⟨_, (beforeTokenTransfer_iff hs hr).mpr ⟨hlock, hkyc, rfl⟩, rfl⟩

end Transfers

/-- The external calls that write. A `safeTransferFrom` is a `transferFrom` followed by the calls
of its recipient, or nothing when the recipient refuses. -/
inductive NftCall
  | mintTicket (recipient : Address) (eventId : Bytes32) (seatNumber faceValue : Nat) (kycRequired : Bool)
      (metadataURI : String)
  | cancelTicket (tokenId : Nat)
  | setKYCVerified (user : Address) (status : Bool)
  | setMarketplace (marketplace : Address)
  | setIdentityRegistry (identityRegistry : Address)
  | setMaxResalePrice (tokenId newCeiling : Nat)
  | approve (recipient : Address) (tokenId : Nat)
  | setApprovalForAll (operator : Address) (approved : Bool)
  | transferFrom (source recipient : Address) (tokenId : Nat)
  | transferOwnership (newOwner : Address)
  | renounceOwnership

variable {K : Type} [DecidableEq K]

def NftCall.exec (k : Keccak K) (onReceived : TicketNft K → Except Revert (TicketNft K))
    (s : TicketNft K) (msgSender : Address) : NftCall → Except Revert (TicketNft K)
  | .mintTicket recipient eventId seatNumber faceValue kycRequired metadataURI =>
    (s.mintTicket k msgSender recipient eventId seatNumber faceValue kycRequired metadataURI
      onReceived).map Prod.snd
  | .cancelTicket tokenId => s.cancelTicket msgSender tokenId
  | .setKYCVerified user status => s.setKYCVerified msgSender user status
  | .setMarketplace marketplace => do
    require (msgSender = s.owner) .ownableUnauthorizedAccount
    return { s with marketplace := marketplace }
  | .setIdentityRegistry identityRegistry => do
    require (msgSender = s.owner) .ownableUnauthorizedAccount
    return { s with identityRegistry := identityRegistry }
  | .setMaxResalePrice tokenId newCeiling => s.setMaxResalePrice msgSender tokenId newCeiling
  | .approve recipient tokenId => s.approve msgSender recipient tokenId
  | .setApprovalForAll operator approved => return s.setApprovalForAll msgSender operator approved
  | .transferFrom source recipient tokenId => s.transferFrom msgSender source recipient tokenId
  | .transferOwnership newOwner => do
    require (msgSender = s.owner) .ownableUnauthorizedAccount
    require (newOwner ≠ 0) .ownableInvalidOwner
    return { s with owner := newOwner }
  | .renounceOwnership => do
    require (msgSender = s.owner) .ownableUnauthorizedAccount
    return { s with owner := 0 }

theorem exec_mint_iff {k : Keccak K} {hook : TicketNft K → Except Revert (TicketNft K)}
    {s s' : TicketNft K} {a r : Address} {e : Bytes32} {n f : Nat} {q : Bool} {u : String} :
    (NftCall.mintTicket r e n f q u).exec k hook s a = .ok s' ↔
      a = s.owner ∧ s.entered = false ∧ s.getSeatToken k e n = 0 ∧ s.tokenIdCounter < maxUint256 ∧
        r ≠ 0 ∧ ¬ s.exists_ s.tokenIdCounter ∧ f * 120 ≤ maxUint256 ∧
        ∃ s₁, hook (s.minting r) = .ok s₁ ∧ s' = s₁.recordTicket k s.tokenIdCounter
          ⟨e, n, f, f * 120 / 100, q, r, false, u⟩ := by
  simp only [NftCall.exec, TicketNft.mintTicket, map_eq_ok, require_bind_eq_ok]
  constructor
  · rintro ⟨p, ⟨ha, he, hi, hc, hr, ht, hb⟩, rfl⟩
    obtain ⟨s₁, hk, hb⟩ := bind_eq_ok.mp hb
    obtain ⟨hf, hp⟩ := require_bind_eq_ok.mp hb
    obtain rfl := Except.ok.inj hp
    exact ⟨ha, he, hi, hc, hr, ht, hf, s₁, hk, rfl⟩
  · rintro ⟨ha, he, hi, hc, hr, ht, hf, s₁, hk, rfl⟩
    refine ⟨_, ⟨ha, he, hi, hc, hr, ht, bind_eq_ok.mpr ⟨s₁, hk, require_bind_eq_ok.mpr ⟨hf, rfl⟩⟩⟩, rfl⟩

theorem exec_cancel_iff {k : Keccak K} {hook : TicketNft K → Except Revert (TicketNft K)}
    {s s' : TicketNft K} {a : Address} {t : Nat} :
    (NftCall.cancelTicket t).exec k hook s a = .ok s' ↔
      a = s.owner ∧ s.entered = false ∧ s.exists_ t ∧ s' = s.burned t := by
  simp only [NftCall.exec, TicketNft.cancelTicket, require_bind_eq_ok]
  exact and_congr_right fun _ => and_congr_right fun _ => and_congr_right fun _ =>
    ⟨fun h => (Except.ok.inj h).symm, fun h => congrArg Except.ok h.symm⟩

/-- A call from outside. The recipient of a mint makes `calls` before it answers. One of them that
reverts is undone alone, and the calls that it leads to stand after it in the same list. -/
structure NftTx where
  msgSender : Address
  call : NftCall
  calls : List (Address × NftCall)
  accepts : Bool

namespace NftTx

/-- A call made while the recipient is told about its token. -/
def inner (k : Keccak K) (s : TicketNft K) (c : Address × NftCall) : TicketNft K :=
  (c.2.exec k .ok s c.1).toOption.getD s

def onReceived (k : Keccak K) (tx : NftTx) (s : TicketNft K) : Except Revert (TicketNft K) := do
  let s := tx.calls.foldl (inner k) s
  require (tx.accepts = true) .erc721InvalidReceiver
  return s

def exec (k : Keccak K) (tx : NftTx) (s : TicketNft K) : Except Revert (TicketNft K) :=
  tx.call.exec k (tx.onReceived k) s tx.msgSender

/-- A transaction that reverts leaves the state as it was. -/
def apply (k : Keccak K) (tx : NftTx) (s : TicketNft K) : TicketNft K :=
  (tx.exec k s).toOption.getD s

theorem apply_of_ok {k : Keccak K} {tx : NftTx} {s s' : TicketNft K} (h : tx.exec k s = .ok s') :
    tx.apply k s = s' := by
  simp [apply, h, Except.toOption]

theorem apply_of_error {k : Keccak K} {tx : NftTx} {s : TicketNft K} {e : Revert}
    (h : tx.exec k s = .error e) : tx.apply k s = s := by
  simp [apply, h, Except.toOption]

end NftTx

/-- The transactions of a run, each executed on the state that the ones before it left. -/
def NftStep (k : Keccak K) (s : TicketNft K) (tx : NftTx) (s' : TicketNft K) : Prop :=
  tx.apply k s = s'

/-- Everything that a call other than a mint can do. -/
inductive Executed (s : TicketNft K) (a : Address) : NftCall → TicketNft K → Prop
  | cancelTicket {t : Nat} (ha : a = s.owner) (he : s.entered = false) (hlive : s.exists_ t) :
    Executed s a (.cancelTicket t) (s.burned t)
  | setKYCVerified {u : Address} {status : Bool} (ha : a = s.identityRegistry ∨ a = s.owner) :
    Executed s a (.setKYCVerified u status)
      { s with isKYCVerified := Function.update s.isKYCVerified u status }
  | setMarketplace {m : Address} (ha : a = s.owner) :
    Executed s a (.setMarketplace m) { s with marketplace := m }
  | setIdentityRegistry {r : Address} (ha : a = s.owner) :
    Executed s a (.setIdentityRegistry r) { s with identityRegistry := r }
  | setMaxResalePrice {t ceiling : Nat} (ha : a = s.owner) (hlive : s.exists_ t)
    (hc : (s.tickets t).faceValue ≤ ceiling) : Executed s a (.setMaxResalePrice t ceiling)
      { s with
        tickets := Function.update s.tickets t { s.tickets t with maxResalePrice := ceiling } }
  | approve {r : Address} {t : Nat} (hlive : s.exists_ t)
    (ha : s.owners t = a ∨ s.operatorApprovals (s.owners t) a = true) :
    Executed s a (.approve r t) { s with tokenApprovals := Function.update s.tokenApprovals t r }
  | setApprovalForAll {o : Address} {b : Bool} :
    Executed s a (.setApprovalForAll o b) (s.setApprovalForAll a o b)
  | transferFrom {source recipient : Address} {t : Nat} (hr : recipient ≠ 0) (hlive : s.exists_ t)
    (ha : s.authorized a t) (ho : s.owners t = source) (hlock : (s.tickets t).transferred = false)
    (hkyc : (s.tickets t).kycRequired = true → s.isKYCVerified recipient = true) :
    Executed s a (.transferFrom source recipient t) (s.handed source recipient t)
  | transferOwnership {o : Address} (ha : a = s.owner) (ho : o ≠ 0) :
    Executed s a (.transferOwnership o) { s with owner := o }
  | renounceOwnership (ha : a = s.owner) : Executed s a .renounceOwnership { s with owner := 0 }

theorem exec_cases {k : Keccak K} {hook : TicketNft K → Except Revert (TicketNft K)}
    {s s' : TicketNft K} {a : Address} {c : NftCall} (h : c.exec k hook s a = .ok s')
    (hm : ∀ r e n f q u, c ≠ .mintTicket r e n f q u) : Executed s a c s' := by
  cases c with
  | mintTicket r e n f q u => exact absurd rfl (hm r e n f q u)
  | cancelTicket t =>
    obtain ⟨ha, he, hlive, rfl⟩ := exec_cancel_iff.mp h
    exact .cancelTicket ha he hlive
  | transferFrom source recipient t =>
    obtain ⟨hr, hlive, ha, ho, hlock, hkyc, rfl⟩ := transferFrom_iff.mp h
    exact .transferFrom hr hlive ha ho hlock hkyc
  | setKYCVerified u status =>
    simp only [NftCall.exec, TicketNft.setKYCVerified, require_bind_eq_ok] at h
    obtain ⟨ha, h⟩ := h
    obtain rfl := Except.ok.inj h
    exact .setKYCVerified ha
  | setMaxResalePrice t ceiling =>
    simp only [NftCall.exec, TicketNft.setMaxResalePrice, require_bind_eq_ok] at h
    obtain ⟨ha, hlive, hc, h⟩ := h
    obtain rfl := Except.ok.inj h
    exact .setMaxResalePrice ha hlive hc
  | approve r t =>
    simp only [NftCall.exec, TicketNft.approve, require_bind_eq_ok] at h
    obtain ⟨hlive, ha, h⟩ := h
    obtain rfl := Except.ok.inj h
    exact .approve hlive ha
  | setApprovalForAll o b =>
    obtain rfl := Except.ok.inj h
    exact .setApprovalForAll
  | setMarketplace m =>
    simp only [NftCall.exec, require_bind_eq_ok] at h
    obtain ⟨ha, h⟩ := h
    obtain rfl := Except.ok.inj h
    exact .setMarketplace ha
  | setIdentityRegistry r =>
    simp only [NftCall.exec, require_bind_eq_ok] at h
    obtain ⟨ha, h⟩ := h
    obtain rfl := Except.ok.inj h
    exact .setIdentityRegistry ha
  | transferOwnership o =>
    simp only [NftCall.exec, require_bind_eq_ok] at h
    obtain ⟨ha, ho, h⟩ := h
    obtain rfl := Except.ok.inj h
    exact .transferOwnership ha ho
  | renounceOwnership =>
    simp only [NftCall.exec, require_bind_eq_ok] at h
    obtain ⟨ha, h⟩ := h
    obtain rfl := Except.ok.inj h
    exact .renounceOwnership ha

/-- Apart from mints and cancellations, a call leaves the seats of the tokens alone. -/
theorem exec_seats {k : Keccak K} {hook : TicketNft K → Except Revert (TicketNft K)}
    {s s' : TicketNft K} {a : Address} {c : NftCall} (h : c.exec k hook s a = .ok s')
    (hm : ∀ r e n f q u, c ≠ .mintTicket r e n f q u) (hc : ∀ t, c ≠ .cancelTicket t) :
    SameSeats s s' := by
  cases exec_cases h hm with
  | @cancelTicket t => exact absurd rfl (hc t)
  | transferFrom hr hlive => exact .handed s hlive hr
  | @setMaxResalePrice t => exact .rewrite s t _ rfl rfl
  | _ => exact .untouched rfl rfl rfl rfl rfl

end CrowdTic
