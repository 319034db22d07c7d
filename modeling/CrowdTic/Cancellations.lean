import CrowdTic.SeatNfts

/-! The seat index after cancellations. A cancelled token keeps its place in
the index, unless the index never held it. -/

namespace CrowdTic

section Property

variable {K : Type}

def SeatIndexSound (k : Keccak K) (s : TicketNft K) : Prop :=
  ∀ e n, s.getSeatToken k e n ≠ 0 →
    s.exists_ (s.getSeatToken k e n) ∧
      (s.tickets (s.getSeatToken k e n)).eventId = e ∧
      (s.tickets (s.getSeatToken k e n)).seatNumber = n

variable [DecidableEq K]

/-- The owner of the contract can mint the seat, to any recipient that accepts it. -/
def Mintable (k : Keccak K) (s : TicketNft K) (eventId : Bytes32) (seatNumber : Nat) : Prop :=
  ∀ recipient faceValue kycRequired metadataURI calls, recipient ≠ 0 → faceValue * 120 ≤ maxUint256 →
    ∃ s', (NftTx.mk s.owner (.mintTicket recipient eventId seatNumber faceValue kycRequired metadataURI)
      calls true).exec k s = .ok s'

/-- A cancellation that goes through frees the seat of its token. -/
def FreesSeat (k : Keccak K) (s : TicketNft K) (tx : NftTx) : Prop :=
  ∀ t s', tx.call = .cancelTicket t → tx.exec k s = .ok s' →
    s'.getSeatToken k (s.tickets t).eventId (s.tickets t).seatNumber = 0 ∧
      Mintable k s' (s.tickets t).eventId (s.tickets t).seatNumber

/-- A cancellation that goes through is of a token whose seat the index has at 0, and the last
token id is not used up. -/
def CancelsUnindexed (k : Keccak K) (s : TicketNft K) (tx : NftTx) : Prop :=
  ∀ t, tx.call = .cancelTicket t → tx.msgSender = s.owner → s.exists_ t →
    s.getSeatToken k (s.tickets t).eventId (s.tickets t).seatNumber = 0 ∧
      s.tokenIdCounter < maxUint256

end Property

section Index

variable {K : Type}

structure IndexedLive (k : Keccak K) (s : TicketNft K) : Prop where
  entered : s.entered = false
  below : ∀ t, s.exists_ t → t < s.tokenIdCounter
  sound : SeatIndexSound k s

theorem IndexedLive.deployed (k : Keccak K) (deployer : Address) :
    IndexedLive k (TicketNft.deployed deployer) where
  entered := rfl
  below _ ht := absurd rfl ht
  sound _ _ h := absurd rfl h

theorem IndexedLive.sameSeats {k : Keccak K} {s s' : TicketNft K} (h : IndexedLive k s)
    (hs : SameSeats s s') : IndexedLive k s' where
  entered := hs.entered.trans h.entered
  below t ht := by
    rw [hs.counter]
    exact h.below t ((hs.live t).mp ht)
  sound e n hne := by
    have hindex : s'.getSeatToken k e n = s.getSeatToken k e n := by
      rw [TicketNft.getSeatToken, hs.index, TicketNft.getSeatToken]
    rw [hindex] at hne ⊢
    obtain ⟨hx, he, hn⟩ := h.sound e n hne
    exact ⟨(hs.live _).mpr hx, (hs.eventId _).trans he, (hs.seatNumber _).trans hn⟩

theorem IndexedLive.burned {k : Keccak K} {s : TicketNft K} {t : Nat} (h : IndexedLive k s)
    (ht : s.getSeatToken k (s.tickets t).eventId (s.tickets t).seatNumber = 0) :
    IndexedLive k (s.burned t) where
  entered := h.entered
  below u hu := h.below u ((exists_burned s t u).mp hu).2
  sound e n hne := by
    obtain ⟨hx, he, hn⟩ := h.sound e n hne
    have hut : s.getSeatToken k e n ≠ t := by
      intro heq
      rw [heq] at he hn
      rw [he, hn] at ht
      exact hne ht
    refine ⟨(exists_burned s t _).mpr ⟨hut, hx⟩, ?_⟩
    have hticket : (s.burned t).tickets (s.getSeatToken k e n) = s.tickets (s.getSeatToken k e n) :=
      Function.update_of_ne hut _ _
    exact ⟨(congrArg Ticket.eventId hticket).trans he, (congrArg Ticket.seatNumber hticket).trans hn⟩

variable [DecidableEq K]

theorem IndexedLive.recorded {k : Keccak K} {s s₁ : TicketNft K} {r : Address} {ticket : Ticket}
    (h : IndexedLive k s) (hr : r ≠ 0) (hs : SameSeats (s.minting r) s₁) :
    IndexedLive k (s₁.recordTicket k s.tokenIdCounter ticket) := by
  obtain ⟨hcounter, hlive, hnew, hold⟩ := recorded_seats k ticket hr hs
  refine ⟨rfl, fun t ht => ?_, fun e n hne => ?_⟩
  · rw [hcounter]
    rcases (hlive t).mp ht with rfl | hx
    · omega
    · have hb := h.below t hx
      omega
  · by_cases hkey : k.seat e n = k.seat ticket.eventId ticket.seatNumber
    · obtain ⟨rfl, rfl⟩ := k.seat_inj _ _ _ _ hkey
      have hindex : (s₁.recordTicket k s.tokenIdCounter ticket).getSeatToken k ticket.eventId
          ticket.seatNumber = s.tokenIdCounter := by
        simp [TicketNft.getSeatToken, TicketNft.recordTicket]
      rw [hindex, hnew]
      exact ⟨(hlive _).mpr (.inl rfl), rfl, rfl⟩
    · have hindex : (s₁.recordTicket k s.tokenIdCounter ticket).getSeatToken k e n =
          s.getSeatToken k e n := by
        simp only [TicketNft.getSeatToken, TicketNft.recordTicket, Function.update_of_ne hkey]
        rw [hs.index]
        rfl
      rw [hindex] at hne ⊢
      obtain ⟨hx, he, hn⟩ := h.sound e n hne
      have hlt := h.below _ hx
      obtain ⟨he', hn'⟩ := hold _ (Nat.ne_of_lt hlt)
      exact ⟨(hlive _).mpr (.inr hx), he'.trans he, hn'.trans hn⟩

theorem IndexedLive.step {k : Keccak K} {s s' : TicketNft K} {tx : NftTx} (h : IndexedLive k s)
    (hc : CancelsUnindexed k s tx) (hs : NftStep k s tx s') : IndexedLive k s' := by
  cases hs.seatStep with
  | same hsame => exact h.sameSeats hsame
  | minted _ _ _ _ hr _ _ hseats => exact h.recorded hr hseats
  | cancelled hcall ha ht => exact h.burned (hc _ hcall ha ht).1

theorem IndexedLive.mintable {k : Keccak K} {s : TicketNft K} (h : IndexedLive k s) {e : Bytes32}
    {n : Nat} (hfree : s.getSeatToken k e n = 0) (hlt : s.tokenIdCounter < maxUint256) :
    Mintable k s e n := by
  intro r f q u calls hr hf
  have hfresh : ¬ s.exists_ s.tokenIdCounter := fun hx => Nat.lt_irrefl _ (h.below _ hx)
  exact ⟨_, exec_mint_iff.mpr ⟨rfl, h.entered, hfree, hlt, hr, hfresh, hf, _, rfl, rfl⟩⟩

theorem IndexedLive.frees {k : Keccak K} {s : TicketNft K} {tx : NftTx} (h : IndexedLive k s)
    (hc : CancelsUnindexed k s tx) : FreesSeat k s tx := by
  intro t s' hcall hx
  rw [NftTx.exec, hcall] at hx
  obtain ⟨ha, _, ht, rfl⟩ := exec_cancel_iff.mp hx
  obtain ⟨hfree, hlt⟩ := hc t hcall ha ht
  exact ⟨hfree, (h.burned hfree).mintable hfree hlt⟩

theorem FreesSeat.cancelsUnindexed {k : Keccak K} {s : TicketNft K} {tx : NftTx}
    (he : s.entered = false) (h : FreesSeat k s tx) : CancelsUnindexed k s tx := by
  intro t hcall ha ht
  have hx : tx.exec k s = .ok (s.burned t) := by
    rw [NftTx.exec, hcall]
    exact exec_cancel_iff.mpr ⟨ha, he, ht, rfl⟩
  obtain ⟨hfree, hmint⟩ := h t _ hcall hx
  obtain ⟨s', hs'⟩ := hmint 1 0 false "" [] (by decide) (Nat.zero_le _)
  exact ⟨hfree, (exec_mint_iff.mp hs').2.2.2.1⟩

end Index

variable {K : Type} [DecidableEq K]

/-- The index is sound in every state of a run and every cancellation of the run frees its seat
exactly when all the cancelled tokens are ones that the index does not hold. -/
theorem seat_index_iff (k : Keccak K) (deployer : Address) {tr : List (TicketNft K × NftTx)}
    {s : TicketNft K} (h : Run (NftStep k) (TicketNft.deployed deployer) tr s) :
    ((∀ p ∈ tr, SeatIndexSound k p.1) ∧ SeatIndexSound k s ∧ ∀ p ∈ tr, FreesSeat k p.1 p.2) ↔
      ∀ p ∈ tr, CancelsUnindexed k p.1 p.2 := by
  have hkeep : ∀ s tx s', IndexedLive k s → CancelsUnindexed k s tx → NftStep k s tx s' →
      IndexedLive k s' := fun _ _ _ hi hc hs => hi.step hc hs
  have hfrees : (∀ p ∈ tr, ¬ ¬ FreesSeat k p.1 p.2) ↔ ∀ p ∈ tr, CancelsUnindexed k p.1 p.2 :=
    Run.steps_iff hkeep
      (fun _ _ hi => not_congr ⟨fun hf => hf.cancelsUnindexed hi.entered, fun hc => hi.frees hc⟩)
      (.deployed k deployer) h
  simp only [not_not] at hfrees
  constructor
  · rintro ⟨-, -, hf⟩
    exact hfrees.mp hf
  · intro hc
    have hstart : IndexedLive k (TicketNft.deployed deployer) := .deployed k deployer
    exact ⟨fun p hp => (h.invariant_mem _ _ hkeep hstart hc p hp).sound,
      (h.invariant _ _ hkeep hstart hc).sound, hfrees.mpr hc⟩

section Demo

def demoCancel (tokenId : Nat) : NftTx where
  msgSender := 1
  call := .cancelTicket tokenId
  calls := []
  accepts := true

/-- Two seats minted and the second one cancelled. -/
theorem cancelled_seat_stays_indexed :
    ¬ ∀ (K : Type) (_ : DecidableEq K) (k : Keccak K) (deployer : Address)
      (tr : List (TicketNft K × NftTx)) (s : TicketNft K),
      Run (NftStep k) (TicketNft.deployed deployer) tr s →
        (∀ p ∈ tr, SeatIndexSound k p.1) ∧ SeatIndexSound k s ∧ ∀ p ∈ tr, FreesSeat k p.1 p.2 := by
  intro h
  have hrun : Run (NftStep demoKeccak) (.deployed 1) _
      ((demoCancel 1).apply demoKeccak (demoNft [1, 2])) :=
    ((Run.single (a := demoMint 1) (t := demoNft [1]) rfl).snoc (a := demoMint 2)
      (u := demoNft [1, 2]) rfl).snoc (a := demoCancel 1) rfl
  obtain ⟨-, hsound, -⟩ := h _ _ _ _ _ _ hrun
  obtain ⟨hlive, -⟩ := hsound 7 2 (by decide)
  exact absurd hlive (by decide)

theorem token_zero_cancelled :
    (∀ p ∈ [(TicketNft.deployed 1, demoMint 1), (demoNft [1], demoCancel 0)],
        SeatIndexSound demoKeccak p.1) ∧
      SeatIndexSound demoKeccak ((demoCancel 0).apply demoKeccak (demoNft [1])) ∧
      ∀ p ∈ [(TicketNft.deployed 1, demoMint 1), (demoNft [1], demoCancel 0)],
        FreesSeat demoKeccak p.1 p.2 :=
  (seat_index_iff demoKeccak 1
    ((Run.single (a := demoMint 1) (t := demoNft [1]) rfl).snoc (a := demoCancel 0) rfl)).mpr
      (List.forall_mem_append.mpr
        ⟨List.forall_mem_singleton.mpr fun _ hc => absurd hc (by simp [demoMint]),
          List.forall_mem_singleton.mpr fun t hc _ _ => by
            obtain rfl : 0 = t := NftCall.cancelTicket.inj hc
            exact ⟨by decide, by decide⟩⟩)

end Demo

end CrowdTic
