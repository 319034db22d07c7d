import CrowdTic.SeatNfts
import CrowdTic.Service
import Mathlib.Data.Set.Function
import Mathlib.Data.Fintype.Card
import Mathlib.Data.List.Nodup

/-! The mint calls of the booking service after its commits
(`internal/handler/commit.go`), against the seat index of the contract. The
caller names the event and passes 0 for every seat. -/

namespace CrowdTic

/-- The hash of an event id. A UUID is an array of 16 bytes. -/
structure EventHash {U : Type} (L : UuidLib U) where
  bytes : U → BitVec 128
  bytes_inj : Function.Injective bytes
  eventIDToBytes32 : String → Bytes32
  eventIDToBytes32_inj : ∀ e e', eventIDToBytes32 (L.str e) = eventIDToBytes32 (L.str e') → e = e'

/-- What an accepted commit hands to `mintNFTAsync`. -/
structure AcceptedCommit (U : Type) where
  userID : Address
  userID_ne : userID ≠ 0
  eventID : U
  seats : List U
  unitPrice : Nat
  unitPrice_lt : unitPrice < Nat.pow 2 63

def weiPerIdrUnit : Nat := 1000000000000

def idrToWei (idr : Nat) : Nat := idr * weiPerIdrUnit

section Calls

variable {U : Type} {L : UuidLib U} (H : EventHash L)

def mintSeat (c : AcceptedCommit U) (seat : U) : NftCall :=
  .mintTicket c.userID (H.eventIDToBytes32 (L.str c.eventID)) 0 (idrToWei c.unitPrice) false
    ("https://tiket.example/nft/" ++ L.str c.eventID ++ "/" ++ L.str seat)

def mintNFTAsync (c : AcceptedCommit U) : List NftCall := c.seats.map (mintSeat H c)

/-- The calls of a sequence of commits, from the account that the contract belongs to to wallets
that run no code. -/
def mintTxs (caller : Address) (commits : List (AcceptedCommit U)) : List NftTx :=
  (commits.flatMap (mintNFTAsync H)).map fun call => ⟨caller, call, [], true⟩

def committedSeats (commits : List (AcceptedCommit U)) : List (U × U) :=
  commits.flatMap fun c => c.seats.map (c.eventID, ·)

def seatToken {K : Type} (k : Keccak K) (s : TicketNft K) (event : U) : Nat :=
  s.getSeatToken k (H.eventIDToBytes32 (L.str event)) 0

variable {K : Type} [DecidableEq K] (k : Keccak K)

def mintedNft (caller : Address) (commits : List (AcceptedCommit U)) : TicketNft K :=
  (mintTxs H caller commits).foldl (fun s tx => tx.apply k s) (.deployed caller)

def NoSeatAlreadyMinted (s : TicketNft K) (txs : List NftTx) : Prop :=
  ∀ p ∈ Run.record (fun s tx => NftTx.apply k tx s) s txs, ∀ e n,
    p.2.exec k p.1 ≠ .error (.seatAlreadyMinted e n)

structure OwnNftEach (caller : Address) (commits : List (AcceptedCommit U)) : Prop where
  accepted : NoSeatAlreadyMinted k (.deployed caller) (mintTxs H caller commits)
  bijOn : Set.BijOn (fun seat => seatToken H k (mintedNft H k caller commits) seat.1)
    {seat | seat ∈ committedSeats commits} {t | (mintedNft H k caller commits).exists_ t}

def mintItems (commits : List (AcceptedCommit U)) : List (AcceptedCommit U × U) :=
  commits.flatMap fun c => c.seats.map (c, ·)

def mintItem (caller : Address) (x : AcceptedCommit U × U) : NftTx :=
  ⟨caller, mintSeat H x.1 x.2, [], true⟩

/-- The ticket that the call of a seat asks for. -/
def seatTicket (x : AcceptedCommit U × U) : Ticket where
  eventId := H.eventIDToBytes32 (L.str x.1.eventID)
  seatNumber := 0
  faceValue := idrToWei x.1.unitPrice
  maxResalePrice := idrToWei x.1.unitPrice * 120 / 100
  kycRequired := false
  originalOwner := x.1.userID
  transferred := false
  metadataURI := "https://tiket.example/nft/" ++ L.str x.1.eventID ++ "/" ++ L.str x.2

theorem mintTxs_eq (caller : Address) (commits : List (AcceptedCommit U)) :
    mintTxs H caller commits = (mintItems commits).map (mintItem H caller) := by
  simp [mintTxs, mintNFTAsync, mintItems, mintItem, List.map_flatMap, Function.comp_def]

theorem committedSeats_eq (commits : List (AcceptedCommit U)) :
    committedSeats commits = (mintItems commits).map fun x => (x.1.eventID, x.2) := by
  simp [committedSeats, mintItems, List.map_flatMap, Function.comp_def]

end Calls

section Issued

variable {U : Type} {L : UuidLib U} (H : EventHash L) {K : Type} (k : Keccak K)

/-- The state after one token was minted for each event of `es`, in this order. The index cannot
hold token 0, so only the first event can come back. -/
structure Issued (caller : Address) (es : List U) (s : TicketNft K) : Prop where
  owner : s.owner = caller
  entered : s.entered = false
  counter : s.tokenIdCounter = es.length
  live : ∀ t, s.exists_ t ↔ t < es.length
  nodup : es.tail.Nodup
  indexed : ∀ i e, es[i + 1]? = some e → seatToken H k s e = i + 1
  fresh : ∀ e, e ∉ es.tail → seatToken H k s e = 0

theorem mem_tail_iff {es : List U} {e : U} : e ∈ es.tail ↔ ∃ i, es[i + 1]? = some e := by
  cases es with
  | nil => simp
  | cons x es => simp [List.mem_iff_getElem?]

theorem tail_concat {es : List U} {e x : U} (h : x ∉ (es ++ [e]).tail) :
    x ∉ es.tail ∧ (x = e → es = []) := by
  cases es with
  | nil => simp
  | cons y es => simpa [not_or] using h

variable {H k} {caller : Address} {es : List U} {s : TicketNft K}

theorem Issued.deployed : Issued H k caller [] (.deployed caller) where
  owner := rfl
  entered := rfl
  counter := rfl
  live t := by simp [TicketNft.exists_, TicketNft.deployed]
  nodup := List.nodup_nil
  indexed i e h := by simp at h
  fresh _ _ := rfl

theorem Issued.free_iff (h : Issued H k caller es s) (e : U) :
    seatToken H k s e = 0 ↔ e ∉ es.tail := by
  refine ⟨fun hz hm => ?_, h.fresh e⟩
  obtain ⟨i, hi⟩ := mem_tail_iff.mp hm
  have hn := h.indexed i e hi
  omega

theorem Issued.length_lt (h : Issued H k caller es s) : es.length < maxUint256 := by
  have hinj : Function.Injective fun e => (H.bytes e).toFin := fun e e' he =>
    H.bytes_inj (BitVec.eq_of_toFin_eq he)
  have hl : (es.tail.map fun e => (H.bytes e).toFin).length ≤ Fintype.card (Fin (2 ^ 128)) :=
    (h.nodup.map hinj).length_le_card
  rw [List.length_map, List.length_tail, Fintype.card_fin] at hl
  have hmax : 2 ^ 128 + 1 < maxUint256 := by decide
  omega

/-- The tokens are as many as the calls, and the index tells apart only the events. -/
theorem Issued.nodup_of_surjOn (h : Issued H k caller es s) {seats : List (U × U)}
    (hes : seats.map Prod.fst = es)
    (hsurj : Set.SurjOn (fun seat => seatToken H k s seat.1) {seat | seat ∈ seats}
      {t | s.exists_ t}) : es.Nodup := by
  classical
  have hsub : Finset.range es.length ⊆ es.toFinset.image (seatToken H k s) := by
    intro t ht
    obtain ⟨seat, hseat, rfl⟩ := hsurj ((h.live t).mpr (Finset.mem_range.mp ht))
    have hmem : seat.1 ∈ es := hes ▸ List.mem_map_of_mem hseat
    exact Finset.mem_image_of_mem _ (List.mem_toFinset.mpr hmem)
  have hcard : es.length ≤ es.toFinset.card := by
    simpa using (Finset.card_le_card hsub).trans Finset.card_image_le
  have hle := es.toFinset_card_le
  exact Multiset.toFinset_card_eq_card_iff_nodup.mp (Nat.le_antisymm hle hcard)

theorem Issued.seatToken_of_nodup (h : Issued H k caller es s) (hes : es.Nodup) {i : Nat} {e : U}
    (hi : es[i]? = some e) : seatToken H k s e = i := by
  cases i with
  | zero =>
    cases es with
    | nil => simp at hi
    | cons x es =>
      obtain rfl : x = e := by simpa using hi
      exact h.fresh x (List.nodup_cons.mp hes).1
  | succ i => exact h.indexed i e hi

theorem Issued.bijOn (h : Issued H k caller es s) {seats : List (U × U)}
    (hes : seats.map Prod.fst = es) (hn : es.Nodup) :
    Set.BijOn (fun seat => seatToken H k s seat.1) {seat | seat ∈ seats} {t | s.exists_ t} := by
  have hat : ∀ seat ∈ seats, ∃ i, i < es.length ∧ es[i]? = some seat.1 ∧
      seatToken H k s seat.1 = i := by
    intro seat hseat
    have hmem : seat.1 ∈ es := hes ▸ List.mem_map_of_mem hseat
    obtain ⟨i, hi⟩ := List.mem_iff_getElem?.mp hmem
    exact ⟨i, (List.getElem?_eq_some_iff.mp hi).1, hi, h.seatToken_of_nodup hn hi⟩
  refine ⟨fun seat hseat => ?_, fun seat hseat seat' hseat' heq => ?_, fun t ht => ?_⟩
  · obtain ⟨i, hlt, -, htoken⟩ := hat seat hseat
    refine (h.live _).mpr ?_
    simpa only [htoken] using hlt
  · obtain ⟨i, -, hi, htoken⟩ := hat seat hseat
    obtain ⟨i', -, hi', htoken'⟩ := hat seat' hseat'
    have hii : i = i' := htoken.symm.trans (heq.trans htoken')
    have hevent : seat.1 = seat'.1 := by
      rw [hii, hi'] at hi
      exact (Option.some.inj hi).symm
    exact List.inj_on_of_nodup_map (hes ▸ hn) hseat hseat' hevent
  · have hlt := (h.live t).mp ht
    have hlen : t < seats.length := by
      rw [← hes, List.length_map] at hlt
      exact hlt
    refine ⟨seats[t], List.getElem_mem hlen, h.seatToken_of_nodup hn ?_⟩
    rw [← hes, List.getElem?_map, List.getElem?_eq_getElem hlen, Option.map_some]

variable [DecidableEq K]

theorem seatToken_recorded {r : Address} {ticket : Ticket} {e : U}
    (he : ticket.eventId = H.eventIDToBytes32 (L.str e)) (hn : ticket.seatNumber = 0) (t : Nat) :
    seatToken H k ((s.minting r).recordTicket k t ticket) e = t := by
  simp [seatToken, TicketNft.getSeatToken, TicketNft.recordTicket, he, hn]

theorem seatToken_recorded_of_ne {r : Address} {ticket : Ticket} {e e' : U}
    (he : ticket.eventId = H.eventIDToBytes32 (L.str e)) (t : Nat) (hne : e' ≠ e) :
    seatToken H k ((s.minting r).recordTicket k t ticket) e' = seatToken H k s e' := by
  have hkey : k.seat (H.eventIDToBytes32 (L.str e')) 0 ≠ k.seat ticket.eventId ticket.seatNumber := by
    intro heq
    rw [he] at heq
    exact hne (H.eventIDToBytes32_inj e' e (k.seat_inj _ _ _ _ heq).1)
  simp [seatToken, TicketNft.getSeatToken, TicketNft.recordTicket, TicketNft.minting,
    TicketNft.setOwnerOf, hkey]

theorem Issued.recorded (h : Issued H k caller es s) {r : Address} (hr : r ≠ 0) {ticket : Ticket}
    {e : U} (he : ticket.eventId = H.eventIDToBytes32 (L.str e)) (hn : ticket.seatNumber = 0)
    (hfree : e ∉ es.tail) :
    Issued H k caller (es ++ [e]) ((s.minting r).recordTicket k s.tokenIdCounter ticket) := by
  obtain ⟨hcounter, hlive, -, -⟩ := recorded_seats k ticket hr (.refl (s.minting r))
  have hlen : (es ++ [e]).length = es.length + 1 := by simp
  refine ⟨h.owner, rfl, ?_, fun t => ?_, ?_, fun i x hi => ?_, fun x hx => ?_⟩
  · rw [hlen, ← h.counter]
    exact hcounter
  · have hl := h.live t
    have hc := h.counter
    rw [hlive t, hl, hlen]
    omega
  · cases es with
    | nil => exact List.nodup_nil
    | cons y es =>
      have hes : es.Nodup := h.nodup
      have hne : ∀ x ∈ es, x ≠ e := by
        rintro x hx rfl
        exact hfree hx
      simpa [List.nodup_append, hes] using hne
  · have hb := (List.getElem?_eq_some_iff.mp hi).1
    rw [hlen] at hb
    by_cases hlt : i + 1 < es.length
    · rw [List.getElem?_append_left hlt] at hi
      have hne : x ≠ e := by
        rintro rfl
        exact hfree (mem_tail_iff.mpr ⟨i, hi⟩)
      rw [seatToken_recorded_of_ne he _ hne]
      exact h.indexed i x hi
    · have hlast : i + 1 = es.length := by omega
      have hx : x = e := by simpa [hlast] using hi.symm
      rw [hx, seatToken_recorded he hn, h.counter, hlast]
  · obtain ⟨hold, hfirst⟩ := tail_concat hx
    by_cases hxe : x = e
    · have hzero : s.tokenIdCounter = 0 := by rw [h.counter, hfirst hxe, List.length_nil]
      rw [hxe, seatToken_recorded he hn, hzero]
    · rw [seatToken_recorded_of_ne he _ hxe]
      exact h.fresh x hold

theorem Issued.refused (h : Issued H k caller es s) {x : AcceptedCommit U × U}
    (hx : x.1.eventID ∈ es.tail) :
    (mintItem H caller x).exec k s =
      .error (.seatAlreadyMinted (H.eventIDToBytes32 (L.str x.1.eventID)) 0) := by
  have hne : s.seatToToken (k.seat (H.eventIDToBytes32 (L.str x.1.eventID)) 0) ≠ 0 := fun hz =>
    (h.free_iff x.1.eventID).mp hz hx
  simp [NftTx.exec, mintItem, mintSeat, NftCall.exec, TicketNft.mintTicket, require, h.owner,
    h.entered, hne, bind, Except.bind, Except.map]

theorem idrToWei_le (c : AcceptedCommit U) : idrToWei c.unitPrice * 120 ≤ maxUint256 := by
  have hb : Nat.pow 2 63 * 120000000000000 ≤ maxUint256 := by decide
  have hp := c.unitPrice_lt
  rw [idrToWei, weiPerIdrUnit]
  omega

theorem Issued.minted (h : Issued H k caller es s) {x : AcceptedCommit U × U}
    (hx : x.1.eventID ∉ es.tail) :
    ∃ s', (mintItem H caller x).exec k s = .ok s' ∧
      Issued H k caller (es ++ [x.1.eventID]) s' := by
  have hlt : s.tokenIdCounter < maxUint256 := by
    rw [h.counter]
    exact h.length_lt
  have hnew : ¬ s.exists_ s.tokenIdCounter := by
    rw [h.live, h.counter]
    omega
  have hnext : Issued H k caller (es ++ [x.1.eventID])
      ((s.minting x.1.userID).recordTicket k s.tokenIdCounter (seatTicket H x)) :=
    h.recorded x.1.userID_ne rfl rfl hx
  exact ⟨_, exec_mint_iff.mpr ⟨h.owner.symm, h.entered, h.fresh _ hx, hlt, x.1.userID_ne, hnew,
    idrToWei_le x.1, _, rfl, rfl⟩, hnext⟩

theorem Issued.run (h : Issued H k caller es s) (xs : List (AcceptedCommit U × U)) :
    let txs := xs.map (mintItem H caller)
    (NoSeatAlreadyMinted k s txs ↔ (es ++ xs.map (·.1.eventID)).tail.Nodup) ∧
      (NoSeatAlreadyMinted k s txs →
        Issued H k caller (es ++ xs.map (·.1.eventID)) (txs.foldl (fun s tx => tx.apply k s) s)) := by
  induction xs generalizing es s with
  | nil => simpa [NoSeatAlreadyMinted, Run.record] using ⟨h.nodup, h⟩
  | cons x xs ih =>
    simp only [List.map_cons, List.foldl_cons]
    have hcons : NoSeatAlreadyMinted k s (mintItem H caller x :: xs.map (mintItem H caller)) ↔
        (∀ e n, (mintItem H caller x).exec k s ≠ .error (.seatAlreadyMinted e n)) ∧
          NoSeatAlreadyMinted k ((mintItem H caller x).apply k s) (xs.map (mintItem H caller)) := by
      simp only [NoSeatAlreadyMinted, Run.record, List.forall_mem_cons]
    by_cases hx : x.1.eventID ∈ es.tail
    · have hbad : ¬ NoSeatAlreadyMinted k s
          (mintItem H caller x :: xs.map (mintItem H caller)) := fun hno =>
        (hcons.mp hno).1 _ _ (h.refused hx)
      refine ⟨iff_of_false hbad fun hn => ?_, fun hno => absurd hno hbad⟩
      have hes : es ≠ [] := by
        rintro rfl
        exact absurd hx List.not_mem_nil
      rw [List.tail_append_of_ne_nil hes] at hn
      exact (List.nodup_append.mp hn).2.2 _ hx _ List.mem_cons_self rfl
    · obtain ⟨s', hs', hi⟩ := h.minted hx
      have happly : (mintItem H caller x).apply k s = s' := NftTx.apply_of_ok hs'
      have hno : ∀ e n, (mintItem H caller x).exec k s ≠ .error (.seatAlreadyMinted e n) := by
        simp [hs']
      have hrest := ih hi
      simp only [List.append_assoc, List.singleton_append] at hrest
      rw [hcons, happly]
      exact ⟨(and_iff_right hno).trans hrest.1, fun hh => hrest.2 hh.2⟩

end Issued

variable {U : Type} {L : UuidLib U}

/-- Every committed seat has a token of its own exactly when no two of the seats belong to one
event. -/
theorem own_nft_each_iff (H : EventHash L) {K : Type} [DecidableEq K] (k : Keccak K)
    (caller : Address) (commits : List (AcceptedCommit U)) :
    OwnNftEach H k caller commits ↔ ((committedSeats commits).map Prod.fst).Nodup := by
  have hevents : (committedSeats commits).map Prod.fst =
      (mintItems commits).map fun x => x.1.eventID := by
    simp [committedSeats_eq, Function.comp_def]
  have hstart : Issued H k caller [] (.deployed caller) := .deployed
  obtain ⟨hno, hissued⟩ := hstart.run (mintItems commits)
  rw [← mintTxs_eq, List.nil_append, ← hevents] at hno hissued
  constructor
  · rintro ⟨haccepted, hbij⟩
    exact (hissued haccepted).nodup_of_surjOn rfl hbij.surjOn
  · intro hn
    have haccepted := hno.mpr (hn.sublist (List.tail_sublist _))
    exact ⟨haccepted, (hissued haccepted).bijOn rfl hn⟩

section Demo

def demoHash : EventHash DemoId.lib where
  bytes u := BitVec.ofNat 128 (DemoId.all.idxOf u)
  bytes_inj := by
    intro u v
    cases u <;> cases v <;> decide
  eventIDToBytes32 s := BitVec.ofNat 256 (DemoId.all.idxOf (DemoId.lib.value s))
  eventIDToBytes32_inj := by
    intro u v
    rw [UuidLib.value_str, UuidLib.value_str]
    cases u <;> cases v <;> decide

theorem demoWallet_ne_zero : (2 : Address) ≠ 0 := by decide

def demoCommit : AcceptedCommit DemoId where
  userID := 2
  userID_ne := demoWallet_ne_zero
  eventID := .event
  seats := [.seat, .seat']
  unitPrice := 1500000
  unitPrice_lt := by decide

theorem two_seats_of_one_event_share :
    ¬ ∀ (U : Type) (L : UuidLib U) (H : EventHash L) (K : Type) (_ : DecidableEq K) (k : Keccak K)
      (caller : Address) (commits : List (AcceptedCommit U)), OwnNftEach H k caller commits := by
  intro h
  have hinj := (h _ _ demoHash _ _ demoKeccak 1 [demoCommit]).bijOn.injOn
  have heq : (DemoId.event, DemoId.seat) = (DemoId.event, DemoId.seat') :=
    hinj (by decide) (by decide) rfl
  exact absurd heq (by decide)

end Demo

end CrowdTic
