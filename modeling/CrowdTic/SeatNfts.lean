import CrowdTic.TicketNft

/-! One seat, one token. Every existing token is the one that the index has
for its seat, as long as the seat of token 0, which the index cannot tell from
an absent one, is not minted a second time. -/

namespace CrowdTic

section Property

variable {K : Type}

def OneSeatOneNft (s : TicketNft K) : Prop :=
  ∀ t t', s.exists_ t → s.exists_ t' →
    (s.tickets t).eventId = (s.tickets t').eventId →
    (s.tickets t).seatNumber = (s.tickets t').seatNumber → t = t'

/-- A mint of the seat that token 0 is for, by the owner of the contract and with nothing else
in its way. -/
def RemintsTokenZero (s : TicketNft K) (tx : NftTx) : Prop :=
  match tx.call with
  | .mintTicket recipient eventId seatNumber faceValue _ _ =>
    s.exists_ 0 ∧ (s.tickets 0).eventId = eventId ∧ (s.tickets 0).seatNumber = seatNumber ∧
      tx.msgSender = s.owner ∧ s.tokenIdCounter < maxUint256 ∧ recipient ≠ 0 ∧
      tx.accepts = true ∧ faceValue * 120 ≤ maxUint256
  | _ => False

structure SeatIndex (k : Keccak K) (s : TicketNft K) : Prop where
  entered : s.entered = false
  below : ∀ t, s.exists_ t → t < s.tokenIdCounter
  indexed : ∀ t, s.exists_ t → s.getSeatToken k (s.tickets t).eventId (s.tickets t).seatNumber = t

theorem SeatIndex.oneSeat {k : Keccak K} {s : TicketNft K} (h : SeatIndex k s) :
    OneSeatOneNft s := by
  intro t t' ht ht' he hn
  have hi := h.indexed t ht
  rw [he, hn, h.indexed t' ht'] at hi
  exact hi.symm

theorem SeatIndex.deployed (k : Keccak K) (deployer : Address) :
    SeatIndex k (TicketNft.deployed deployer) where
  entered := rfl
  below _ ht := absurd rfl ht
  indexed _ ht := absurd rfl ht

theorem SeatIndex.sameSeats {k : Keccak K} {s s' : TicketNft K} (h : SeatIndex k s)
    (hs : SameSeats s s') : SeatIndex k s' where
  entered := hs.entered.trans h.entered
  below t ht := by
    rw [hs.counter]
    exact h.below t ((hs.live t).mp ht)
  indexed t ht := by
    rw [TicketNft.getSeatToken, hs.index, hs.eventId, hs.seatNumber]
    exact h.indexed t ((hs.live t).mp ht)

end Property

variable {K : Type} [DecidableEq K]

theorem inner_seats (k : Keccak K) {s : TicketNft K} (he : s.entered = true)
    (c : Address × NftCall) : SameSeats s (NftTx.inner k s c) := by
  unfold NftTx.inner
  cases hx : c.2.exec k .ok s c.1 with
  | error e => exact .refl s
  | ok s' =>
    refine exec_seats hx (fun r e n f q u hc => ?_) (fun t hc => ?_)
    · rw [hc] at hx
      exact absurd (exec_mint_iff.mp hx).2.1 (by simp [he])
    · rw [hc] at hx
      exact absurd (exec_cancel_iff.mp hx).2.1 (by simp [he])

theorem inner_foldl_seats (k : Keccak K) (calls : List (Address × NftCall)) {s : TicketNft K}
    (he : s.entered = true) : SameSeats s (calls.foldl (NftTx.inner k) s) := by
  induction calls generalizing s with
  | nil => exact .refl s
  | cons c calls ih =>
    have hc := inner_seats k he c
    exact hc.trans (ih (hc.entered.trans he))

theorem onReceived_seats {k : Keccak K} {tx : NftTx} {s s' : TicketNft K}
    (he : s.entered = true) (h : tx.onReceived k s = .ok s') : SameSeats s s' := by
  simp only [NftTx.onReceived, require_bind_eq_ok] at h
  obtain rfl := Except.ok.inj h.2
  exact inner_foldl_seats k tx.calls he

omit [DecidableEq K] in
theorem exists_minting {s : TicketNft K} {r : Address} (hr : r ≠ 0) (t : Nat) :
    (s.minting r).exists_ t ↔ t = s.tokenIdCounter ∨ s.exists_ t := by
  by_cases ht : t = s.tokenIdCounter
  · subst ht
    simpa [TicketNft.minting, TicketNft.setOwnerOf, TicketNft.exists_] using hr
  · simp [TicketNft.minting, TicketNft.setOwnerOf, TicketNft.exists_, ht]

theorem recorded_seats (k : Keccak K) (ticket : Ticket) {s s₁ : TicketNft K} {r : Address}
    (hr : r ≠ 0) (hs : SameSeats (s.minting r) s₁) :
    let s' := s₁.recordTicket k s.tokenIdCounter ticket
    s'.tokenIdCounter = s.tokenIdCounter + 1 ∧
      (∀ t, s'.exists_ t ↔ t = s.tokenIdCounter ∨ s.exists_ t) ∧
      s'.tickets s.tokenIdCounter = ticket ∧
      ∀ t, t ≠ s.tokenIdCounter → (s'.tickets t).eventId = (s.tickets t).eventId ∧
        (s'.tickets t).seatNumber = (s.tickets t).seatNumber := by
  refine ⟨hs.counter, fun t => (hs.live t).trans (exists_minting hr t), ?_, fun t ht => ?_⟩
  · simp [TicketNft.recordTicket]
  · simp only [TicketNft.recordTicket, Function.update_of_ne ht]
    exact ⟨hs.eventId t, hs.seatNumber t⟩

theorem SeatIndex.recorded {k : Keccak K} {s s₁ : TicketNft K} {r : Address} {ticket : Ticket}
    (h : SeatIndex k s) (hr : r ≠ 0) (hs : SameSeats (s.minting r) s₁)
    (hfree : s.getSeatToken k ticket.eventId ticket.seatNumber = 0)
    (hzero : s.exists_ 0 → (s.tickets 0).eventId = ticket.eventId →
      (s.tickets 0).seatNumber = ticket.seatNumber → False) :
    SeatIndex k (s₁.recordTicket k s.tokenIdCounter ticket) := by
  obtain ⟨hcounter, hlive, hnew, hold⟩ := recorded_seats k ticket hr hs
  refine ⟨rfl, fun t ht => ?_, fun t ht => ?_⟩
  · rw [hcounter]
    rcases (hlive t).mp ht with rfl | hx
    · omega
    · have hb := h.below t hx
      omega
  · by_cases hc : t = s.tokenIdCounter
    · subst hc
      simp [TicketNft.getSeatToken, TicketNft.recordTicket]
    · have hx := ((hlive t).mp ht).resolve_left hc
      have hi := h.indexed t hx
      obtain ⟨he, hn⟩ := hold t hc
      have hkey : k.seat (s.tickets t).eventId (s.tickets t).seatNumber ≠
          k.seat ticket.eventId ticket.seatNumber := by
        intro heq
        obtain ⟨hee, hnn⟩ := k.seat_inj _ _ _ _ heq
        -- the index has 0 for this seat, so the token could only be token 0
        have ht0 : t = 0 := by rw [← hi, hee, hnn, hfree]
        subst ht0
        exact hzero hx hee hnn
      rw [he, hn, TicketNft.getSeatToken]
      simp only [TicketNft.recordTicket, Function.update_of_ne hkey]
      rw [hs.index]
      exact hi

omit [DecidableEq K] in
theorem exists_burned (s : TicketNft K) (t u : Nat) : (s.burned t).exists_ u ↔ u ≠ t ∧ s.exists_ u := by
  by_cases hu : u = t
  · subst hu
    simp [TicketNft.burned, TicketNft.setOwnerOf, TicketNft.exists_]
  · simp [TicketNft.burned, TicketNft.setOwnerOf, TicketNft.exists_, hu]

omit [DecidableEq K] in
theorem SeatIndex.burned {k : Keccak K} {s : TicketNft K} (h : SeatIndex k s) (t : Nat) :
    SeatIndex k (s.burned t) := by
  refine ⟨h.entered, fun u hu => h.below u ((exists_burned s t u).mp hu).2, fun u hu => ?_⟩
  obtain ⟨hne, hx⟩ := (exists_burned s t u).mp hu
  have hi := h.indexed u hx
  simpa [TicketNft.burned, TicketNft.setOwnerOf, TicketNft.getSeatToken, hne] using hi

/-- Everything a transaction can do to the seats of the tokens. -/
inductive SeatStep (k : Keccak K) (s : TicketNft K) (tx : NftTx) : TicketNft K → Prop
  | same {s' : TicketNft K} (h : SameSeats s s') : SeatStep k s tx s'
  | minted {s₁ : TicketNft K} {r : Address} {e : Bytes32} {n f : Nat} {q : Bool} {u : String}
    (hcall : tx.call = .mintTicket r e n f q u) (ha : tx.msgSender = s.owner)
    (hfree : s.getSeatToken k e n = 0) (hlt : s.tokenIdCounter < maxUint256) (hr : r ≠ 0)
    (haccepts : tx.accepts = true) (hf : f * 120 ≤ maxUint256) (h : SameSeats (s.minting r) s₁) :
    SeatStep k s tx (s₁.recordTicket k s.tokenIdCounter ⟨e, n, f, f * 120 / 100, q, r, false, u⟩)
  | cancelled {t : Nat} (hcall : tx.call = .cancelTicket t) (ha : tx.msgSender = s.owner)
    (hlive : s.exists_ t) : SeatStep k s tx (s.burned t)

theorem NftStep.seatStep {k : Keccak K} {s s' : TicketNft K} {tx : NftTx} (hs : NftStep k s tx s') :
    SeatStep k s tx s' := by
  rw [NftStep] at hs
  cases hx : tx.exec k s with
  | error e =>
    rw [NftTx.apply_of_error hx] at hs
    exact .same (hs ▸ .refl s)
  | ok u =>
    rw [NftTx.apply_of_ok hx] at hs
    obtain rfl : u = s' := hs
    rw [NftTx.exec] at hx
    cases hc : tx.call with
    | mintTicket r e n f q m =>
      rw [hc] at hx
      obtain ⟨ha, _, hfree, hlt, hr, _, hf, s₁, hk, rfl⟩ := exec_mint_iff.mp hx
      have haccepts : tx.accepts = true := by
        simp only [NftTx.onReceived, require_bind_eq_ok] at hk
        exact hk.1
      exact .minted hc ha hfree hlt hr haccepts hf (onReceived_seats rfl hk)
    | cancelTicket t =>
      rw [hc] at hx
      obtain ⟨ha, _, ht, rfl⟩ := exec_cancel_iff.mp hx
      exact .cancelled hc ha ht
    | _ => exact .same (exec_seats hx (by simp [hc]) (by simp [hc]))

theorem SeatIndex.step {k : Keccak K} {s s' : TicketNft K} {tx : NftTx} (h : SeatIndex k s)
    (hz : ¬ RemintsTokenZero s tx) (hs : NftStep k s tx s') : SeatIndex k s' := by
  cases hs.seatStep with
  | same hsame => exact h.sameSeats hsame
  | minted hc ha hfree hlt hr haccepts hf hseats =>
    refine h.recorded hr hseats hfree fun h0 he hn => ?_
    rw [RemintsTokenZero, hc] at hz
    exact hz ⟨h0, he, hn, ha, hlt, hr, haccepts, hf⟩
  | @cancelled t => exact h.burned t

/-- The index has 0 for the seat of token 0, so nothing stops the second mint. -/
theorem reminted {k : Keccak K} {s s' : TicketNft K} {tx : NftTx} (h : SeatIndex k s)
    (hz : RemintsTokenZero s tx) (hs : NftStep k s tx s') : ¬ OneSeatOneNft s' := by
  unfold RemintsTokenZero at hz
  cases hc : tx.call with
  | mintTicket r e n f q m =>
    rw [hc] at hz
    obtain ⟨h0, he, hn, ha, hlt, hr, haccepts, hf⟩ := hz
    have hfree : s.getSeatToken k e n = 0 := by
      rw [← he, ← hn]
      exact h.indexed 0 h0
    have hcounter : 0 < s.tokenIdCounter := h.below 0 h0
    have hfresh : ¬ s.exists_ s.tokenIdCounter := fun hx => Nat.lt_irrefl _ (h.below _ hx)
    obtain ⟨s₁, hk⟩ : ∃ s₁, tx.onReceived k (s.minting r) = .ok s₁ :=
      ⟨_, require_bind_eq_ok.mpr ⟨haccepts, rfl⟩⟩
    have hx : tx.exec k s = .ok (s₁.recordTicket k s.tokenIdCounter
        ⟨e, n, f, f * 120 / 100, q, r, false, m⟩) := by
      rw [NftTx.exec, hc]
      exact exec_mint_iff.mpr ⟨ha, h.entered, hfree, hlt, hr, hfresh, hf, s₁, hk, rfl⟩
    rw [NftStep, NftTx.apply_of_ok hx] at hs
    subst hs
    obtain ⟨_, hlive, hnew, hold⟩ := recorded_seats k
      ⟨e, n, f, f * 120 / 100, q, r, false, m⟩ hr (onReceived_seats rfl hk)
    intro hone
    obtain ⟨he', hn'⟩ := hold 0 (Nat.ne_of_lt hcounter)
    have heq := hone 0 s.tokenIdCounter ((hlive 0).mpr (.inr h0)) ((hlive _).mpr (.inl rfl))
      (by rw [hnew]; exact he'.trans he) (by rw [hnew]; exact hn'.trans hn)
    omega
  | _ => simp [hc] at hz

/-- At most one token exists for a seat in every state of a run exactly when no transaction of
the run mints the seat of token 0 again while token 0 exists. -/
theorem one_seat_one_nft_iff (k : Keccak K) (deployer : Address) {tr : List (TicketNft K × NftTx)}
    {s : TicketNft K} (h : Run (NftStep k) (TicketNft.deployed deployer) tr s) :
    ((∀ p ∈ tr, OneSeatOneNft p.1) ∧ OneSeatOneNft s) ↔ ∀ p ∈ tr, ¬ RemintsTokenZero p.1 p.2 :=
  Run.always_iff (fun s (hi : SeatIndex k s) => hi.oneSeat)
    (fun _ _ _ hi hg hs => hi.step hg hs) (fun _ _ _ hi hb hs => reminted hi (not_not.mp hb) hs)
    (.deployed k deployer) h

section Demo

def demoKeccak : Keccak (Bytes32 × Nat) where
  seat e n := (e, n)
  event e := (e, 0)
  seat_inj := by simp

def demoMint (seatNumber : Nat) : NftTx where
  msgSender := 1
  call := .mintTicket 2 7 seatNumber 100 false "ipfs://QmTest"
  calls := []
  accepts := true

def demoNft (seats : List Nat) : TicketNft (Bytes32 × Nat) :=
  seats.foldl (fun s n => (demoMint n).apply demoKeccak s) (.deployed 1)

/-- Seat 1 minted twice in a row after deployment. -/
theorem first_seat_minted_twice :
    ¬ ∀ (K : Type) (_ : DecidableEq K) (k : Keccak K) (deployer : Address)
      (tr : List (TicketNft K × NftTx)) (s : TicketNft K),
      Run (NftStep k) (TicketNft.deployed deployer) tr s → OneSeatOneNft s := by
  intro h
  have hrun : Run (NftStep demoKeccak) (.deployed 1) _ (demoNft [1, 1]) :=
    (Run.single (a := demoMint 1) (t := demoNft [1]) rfl).snoc (a := demoMint 1) rfl
  have hone := h _ _ _ _ _ _ hrun 0 1 (by decide) (by decide) (by decide) (by decide)
  omega

theorem two_seats_two_nfts :
    (∀ p ∈ [(TicketNft.deployed 1, demoMint 1), (demoNft [1], demoMint 2)],
      OneSeatOneNft p.1) ∧ OneSeatOneNft (demoNft [1, 2]) :=
  (one_seat_one_nft_iff demoKeccak 1
    ((Run.single (a := demoMint 1) (t := demoNft [1]) rfl).snoc (a := demoMint 2) rfl)).mpr
      (List.forall_mem_append.mpr
        ⟨List.forall_mem_singleton.mpr fun hz => absurd hz.1 (by decide),
          List.forall_mem_singleton.mpr fun hz => absurd hz.2.2.1 (by decide)⟩)

end Demo

end CrowdTic
