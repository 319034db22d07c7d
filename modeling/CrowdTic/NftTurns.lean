import CrowdTic.Callbacks
import CrowdTic.SeatNfts

/-! The calls of the ticket contract at the level of turns. A mint waits for
its recipient, who may call the contract meanwhile, and every other call is
one turn. -/

namespace CrowdTic

section Calls

variable {K : Type}

namespace TicketNft

/-- The checks of `mintTicket` up to the call to the recipient. -/
def mintChecks (k : Keccak K) (s : TicketNft K) (msgSender recipient : Address) (eventId : Bytes32)
    (seatNumber : Nat) : Except Revert Unit := do
  require (msgSender = s.owner) .ownableUnauthorizedAccount
  require (s.entered = false) .reentrantCall
  require (s.seatToToken (k.seat eventId seatNumber) = 0) (.seatAlreadyMinted eventId seatNumber)
  require (s.tokenIdCounter < maxUint256) .arithmeticOverflow
  require (recipient ≠ 0) .erc721InvalidReceiver
  require (¬ s.exists_ s.tokenIdCounter) .erc721InvalidSender

/-- The rest of `mintTicket`, from the state that the recipient leaves. -/
def mintRest [DecidableEq K] (k : Keccak K) (tokenId : Nat) (ticket : Ticket) (s : TicketNft K) :
    Except Revert (TicketNft K) := do
  require (ticket.faceValue * 120 ≤ maxUint256) .arithmeticOverflow
  return s.recordTicket k tokenId ticket

end TicketNft

def newTicket (recipient : Address) (eventId : Bytes32) (seatNumber faceValue : Nat)
    (kycRequired : Bool) (metadataURI : String) : Ticket where
  eventId := eventId
  seatNumber := seatNumber
  faceValue := faceValue
  maxResalePrice := faceValue * 120 / 100
  kycRequired := kycRequired
  originalOwner := recipient
  transferred := false
  metadataURI := metadataURI

abbrev NftConfig (K : Type) := Config (TicketNft K) (Address × NftCall)

variable [DecidableEq K]

def nftCalls (k : Keccak K) : Calls Revert (TicketNft K) (Address × NftCall)
  | (msgSender, .mintTicket recipient eventId seatNumber faceValue kycRequired metadataURI), s => do
    s.mintChecks k msgSender recipient eventId seatNumber
    return .asks (s.minting recipient) (TicketNft.mintRest k s.tokenIdCounter
      (newTicket recipient eventId seatNumber faceValue kycRequired metadataURI))
  | (msgSender, c), s => (c.exec k .ok s msgSender).map .done

inductive NftOutcome (k : Keccak K) (s : TicketNft K) (a : Address) :
    NftCall → Outcome Revert (TicketNft K) → Prop
  | done {c : NftCall} {s' : TicketNft K} (hm : ∀ r e n f q u, c ≠ .mintTicket r e n f q u)
    (h : c.exec k .ok s a = .ok s') : NftOutcome k s a c (.done s')
  | asks {r : Address} {e : Bytes32} {n f : Nat} {q : Bool} {u : String} (ha : a = s.owner)
    (he : s.entered = false) (hi : s.getSeatToken k e n = 0) (hc : s.tokenIdCounter < maxUint256)
    (hr : r ≠ 0) (hx : ¬ s.exists_ s.tokenIdCounter) : NftOutcome k s a (.mintTicket r e n f q u)
      (.asks (s.minting r) (TicketNft.mintRest k s.tokenIdCounter (newTicket r e n f q u)))

theorem nftCalls_eq {k : Keccak K} {s : TicketNft K} {a : Address} {c : NftCall}
    (hm : ∀ r e n f q u, c ≠ .mintTicket r e n f q u) :
    nftCalls k (a, c) s = (c.exec k .ok s a).map .done := by
  cases c with
  | mintTicket r e n f q u => exact absurd rfl (hm r e n f q u)
  | _ => rfl

theorem exec_hook {k : Keccak K} {s : TicketNft K} {a : Address} {c : NftCall}
    (hm : ∀ r e n f q u, c ≠ .mintTicket r e n f q u)
    (hook : TicketNft K → Except Revert (TicketNft K)) : c.exec k hook s a = c.exec k .ok s a := by
  cases c with
  | mintTicket r e n f q u => exact absurd rfl (hm r e n f q u)
  | _ => rfl

theorem nftCalls_ok {k : Keccak K} {s : TicketNft K} {a : Address} {c : NftCall}
    {o : Outcome Revert (TicketNft K)} (h : nftCalls k (a, c) s = .ok o) : NftOutcome k s a c o := by
  cases c with
  | mintTicket r e n f q u =>
    rw [nftCalls, bind_eq_ok] at h
    obtain ⟨_, hchecks, ho⟩ := h
    obtain rfl := Except.ok.inj ho
    simp only [TicketNft.mintChecks, require_bind_eq_ok] at hchecks
    obtain ⟨ha, he, hi, hc, hr, hx⟩ := hchecks
    have hx : ¬ s.exists_ s.tokenIdCounter := by
      by_contra hlive
      simp [require, hlive] at hx
    exact .asks ha he hi hc hr hx
  | _ =>
    rw [nftCalls_eq (by simp), map_eq_ok] at h
    obtain ⟨s', hs', rfl⟩ := h
    exact .done (by simp) hs'

theorem nftCalls_done {k : Keccak K} {s s' : TicketNft K} {a : Address} {c : NftCall}
    (hm : ∀ r e n f q u, c ≠ .mintTicket r e n f q u) (h : c.exec k .ok s a = .ok s') :
    nftCalls k (a, c) s = .ok (.done s') := by
  rw [nftCalls_eq hm, h]
  rfl

theorem nftCalls_asks {k : Keccak K} {s : TicketNft K} {a r : Address} {e : Bytes32} {n f : Nat}
    {q : Bool} {u : String} (ha : a = s.owner) (he : s.entered = false)
    (hi : s.getSeatToken k e n = 0) (hc : s.tokenIdCounter < maxUint256) (hr : r ≠ 0)
    (hx : ¬ s.exists_ s.tokenIdCounter) :
    nftCalls k (a, .mintTicket r e n f q u) s =
      .ok (.asks (s.minting r) (TicketNft.mintRest k s.tokenIdCounter (newTicket r e n f q u))) := by
  have hchecks : s.mintChecks k a r e n = .ok () := by
    simp only [TicketNft.mintChecks, require_bind_eq_ok]
    exact ⟨ha, he, hi, hc, hr, by simp [require, hx]⟩
  rw [nftCalls, hchecks]
  rfl

theorem mintRest_ok {k : Keccak K} {t : Nat} {ticket : Ticket} {s s' : TicketNft K} :
    TicketNft.mintRest k t ticket s = .ok s' ↔
      ticket.faceValue * 120 ≤ maxUint256 ∧ s.recordTicket k t ticket = s' := by
  rw [TicketNft.mintRest, require_bind_eq_ok]
  exact and_congr_right fun _ => ⟨Except.ok.inj, congrArg _⟩

inductive NftTurn (k : Keccak K) : NftConfig K → Option (Address × NftCall) → NftConfig K → Prop
  | executed {s s' : TicketNft K} {p : List (TicketNft K × (Address × NftCall))} {a : Address}
    {c : NftCall} (h : Executed s a c s') : NftTurn k ⟨s, p⟩ (some (a, c)) ⟨s', p⟩
  | minting {s : TicketNft K} {p : List (TicketNft K × (Address × NftCall))} {a r : Address}
    {e : Bytes32} {n f : Nat} {q : Bool} {u : String} (he : s.entered = false) (hr : r ≠ 0)
    (hnew : ¬ s.exists_ s.tokenIdCounter) : NftTurn k ⟨s, p⟩ (some (a, .mintTicket r e n f q u))
      ⟨s.minting r, (s, (a, .mintTicket r e n f q u)) :: p⟩
  | minted {s t : TicketNft K} {p : List (TicketNft K × (Address × NftCall))} {a r : Address}
    {e : Bytes32} {n f : Nat} {q : Bool} {u : String} :
    NftTurn k ⟨t, (s, (a, .mintTicket r e n f q u)) :: p⟩ none
      ⟨t.recordTicket k s.tokenIdCounter (newTicket r e n f q u), p⟩

theorem nftTurn_cases {k : Keccak K} {c c' : NftConfig K} {l : Option (Address × NftCall)}
    (h : Turn (nftCalls k) c l c') : NftTurn k c l c' := by
  cases h.cases with
  | @done s s' p i hx =>
    obtain ⟨a, i⟩ := i
    cases nftCalls_ok hx with
    | done hm hx => exact .executed (exec_cases hx hm)
  | @asks s mid p i resume hx =>
    obtain ⟨a, i⟩ := i
    cases nftCalls_ok hx with
    | asks ha he hi hc hr hnew => exact .minting he hr hnew
  | @resumes s t u mid p i resume hx hr =>
    obtain ⟨a, i⟩ := i
    cases nftCalls_ok hx with
    | asks =>
      obtain ⟨_, rfl⟩ := mintRest_ok.mp hr
      exact .minted

end Calls

section Transactions

variable {K : Type} [DecidableEq K]

theorem inner_turns {k : Keccak K} (calls : List (Address × NftCall)) {s : TicketNft K}
    (he : s.entered = true) (p : List (TicketNft K × (Address × NftCall))) :
    ∃ tr, Run (Turn (nftCalls k)) (⟨s, p⟩ : NftConfig K) tr ⟨calls.foldl (NftTx.inner k) s, p⟩ := by
  induction calls generalizing s with
  | nil => exact ⟨[], .nil⟩
  | cons c calls ih =>
    obtain ⟨a, c⟩ := c
    obtain ⟨tr, hrest⟩ := ih ((inner_seats k he (a, c)).entered.trans he)
    cases hx : c.exec k .ok s a with
    | error e =>
      have hsame : NftTx.inner k s (a, c) = s := by simp [NftTx.inner, hx, Except.toOption]
      rw [hsame] at hrest
      rw [List.foldl_cons, hsame]
      exact ⟨tr, hrest⟩
    | ok s' =>
      have hnext : NftTx.inner k s (a, c) = s' := by simp [NftTx.inner, hx, Except.toOption]
      have hm : ∀ r e n f q u, c ≠ .mintTicket r e n f q u := by
        rintro r e n f q u rfl
        exact absurd (exec_mint_iff.mp hx).2.1 (by simp [he])
      rw [hnext] at hrest
      rw [List.foldl_cons, hnext]
      exact ⟨_, (Run.single (.of_done (nftCalls_done hm hx))).append hrest⟩

/-- A transaction that goes through is a run of turns. -/
theorem NftTx.turns {k : Keccak K} {tx : NftTx} {s s' : TicketNft K} (h : tx.exec k s = .ok s') :
    ∃ tr, Run (Turn (nftCalls k)) (.start s : NftConfig K) tr (.start s') := by
  obtain ⟨a, c, calls, accepts⟩ := tx
  rw [NftTx.exec] at h
  by_cases hm : ∃ r e n f q u, c = .mintTicket r e n f q u
  · obtain ⟨r, e, n, f, q, u, rfl⟩ := hm
    obtain ⟨ha, he, hi, hc, hr, hx, hf, s₁, hk, rfl⟩ := exec_mint_iff.mp h
    simp only [NftTx.onReceived, require_bind_eq_ok] at hk
    obtain rfl := Except.ok.inj hk.2
    have hasks := nftCalls_asks (f := f) (q := q) (u := u) ha he hi hc hr hx
    obtain ⟨tr, hinner⟩ := inner_turns (k := k) calls (s := s.minting r) rfl
      [(s, (a, .mintTicket r e n f q u))]
    exact ⟨_, ((Run.single (.of_asks hasks)).append hinner).snoc
      (.of_resumes hasks (mintRest_ok.mpr ⟨hf, rfl⟩))⟩
  · simp only [not_exists] at hm
    rw [exec_hook hm] at h
    exact ⟨_, Run.single (.of_done (nftCalls_done hm h))⟩

theorem run_turns {k : Keccak K} {s s' : TicketNft K} {tr : List (TicketNft K × NftTx)}
    (h : Run (NftStep k) s tr s') :
    ∃ tr', Run (Turn (nftCalls k)) (.start s : NftConfig K) tr' (.start s') := by
  induction h with
  | nil => exact ⟨[], .nil⟩
  | @snoc tr t u tx _ hs ih =>
    obtain ⟨tr', hrun⟩ := ih
    cases hx : tx.exec k t with
    | error e =>
      rw [NftStep, NftTx.apply_of_error hx] at hs
      exact ⟨tr', hs ▸ hrun⟩
    | ok t' =>
      rw [NftStep, NftTx.apply_of_ok hx] at hs
      obtain ⟨tr'', htx⟩ := NftTx.turns hx
      exact ⟨_, hrun.append (hs ▸ htx)⟩

end Transactions

end CrowdTic
