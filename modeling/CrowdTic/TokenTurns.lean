import CrowdTic.NftTurns

/-! What the calls of the ticket contract do to one token, and what holds of
all tokens whenever an account can act. -/

namespace CrowdTic

section Tokens

variable {K : Type}

/-- What a call other than a mint does to the token `t`. -/
inductive TokenChange (s s' : TicketNft K) (a : Address) (t : Nat) : NftCall → Prop
  | moved {source recipient : Address} (hr : recipient ≠ 0) (hlive : s.exists_ t)
    (ha : s.authorized a t) (ho : s.owners t = source) (hlock : (s.tickets t).transferred = false)
    (hkyc : (s.tickets t).kycRequired = true → s.isKYCVerified recipient = true)
    (ho' : s'.owners t = recipient) (ht' : s'.tickets t = { s.tickets t with
      transferred := decide (source ≠ (s.tickets t).originalOwner) }) :
    TokenChange s s' a t (.transferFrom source recipient t)
  | burned (he : s.entered = false) (hlive : s.exists_ t) (ho' : s'.owners t = 0)
    (ht' : s'.tickets t = .empty) : TokenChange s s' a t (.cancelTicket t)
  | kept {c : NftCall} (hc : ∀ source recipient, c ≠ .transferFrom source recipient t)
    (ho' : s'.owners t = s.owners t) (price : Nat)
    (ht' : s'.tickets t = { s.tickets t with maxResalePrice := price }) : TokenChange s s' a t c

theorem Executed.token {s s' : TicketNft K} {a : Address} {c : NftCall} (h : Executed s a c s')
    (t : Nat) : TokenChange s s' a t c := by
  cases h with
  | @cancelTicket v _ he hlive =>
    by_cases ht : t = v
    · subst ht
      refine .burned he hlive ?_ ?_ <;> simp [TicketNft.burned, TicketNft.setOwnerOf]
    · refine .kept (by simp) ?_ (s.tickets t).maxResalePrice ?_ <;>
        simp [TicketNft.burned, TicketNft.setOwnerOf, ht]
  | @transferFrom source recipient v hr hlive ha ho hlock hkyc =>
    by_cases ht : t = v
    · subst ht
      refine .moved hr hlive ha ho hlock hkyc ?_ ?_ <;>
        simp [TicketNft.handed, TicketNft.setOwnerOf]
    · refine .kept (by simp [Ne.symm ht]) ?_ (s.tickets t).maxResalePrice ?_ <;>
        simp [TicketNft.handed, TicketNft.setOwnerOf, ht]
  | @setMaxResalePrice v ceiling =>
    by_cases ht : t = v
    · subst ht
      exact .kept (by simp) rfl ceiling (by simp)
    · exact .kept (by simp) rfl (s.tickets t).maxResalePrice (by simp [ht])
  | _ => exact .kept (by simp) rfl _ rfl

theorem Executed.counter {s s' : TicketNft K} {a : Address} {c : NftCall} (h : Executed s a c s') :
    s'.tokenIdCounter = s.tokenIdCounter := by
  cases h <;> rfl

theorem Executed.entered {s s' : TicketNft K} {a : Address} {c : NftCall} (h : Executed s a c s') :
    s'.entered = s.entered := by
  cases h <;> rfl

end Tokens

section Fields

variable {K : Type} {s : TicketNft K} {t t' : Nat} {r : Address}

theorem owners_minting_self : (s.minting r).owners s.tokenIdCounter = r := Function.update_self ..

theorem owners_minting_of_ne (h : t ≠ s.tokenIdCounter) : (s.minting r).owners t = s.owners t :=
  Function.update_of_ne h _ _

variable [DecidableEq K] {k : Keccak K} {ticket : Ticket}

theorem tickets_recordTicket_self : (s.recordTicket k t ticket).tickets t = ticket :=
  Function.update_self ..

theorem tickets_recordTicket_of_ne (h : t' ≠ t) :
    (s.recordTicket k t ticket).tickets t' = s.tickets t' := Function.update_of_ne h _ _

end Fields

section Steady

variable {K : Type}

/-- Whether a mint is under way, as the guard has it. -/
inductive MintPhase : NftConfig K → Prop
  | rest {s : TicketNft K} (he : s.entered = false) : MintPhase ⟨s, []⟩
  | minting {s s₀ : TicketNft K} {a r : Address} {e : Bytes32} {n f : Nat} {q : Bool} {u : String}
    (he : s.entered = true) (hc : s.tokenIdCounter = s₀.tokenIdCounter + 1) (hr : r ≠ 0) :
    MintPhase ⟨s, [(s₀, (a, .mintTicket r e n f q u))]⟩

structure Steady (c : NftConfig K) : Prop where
  phase : MintPhase c
  unminted : ∀ t, c.state.tokenIdCounter ≤ t → c.state.owners t = 0 ∧
    (c.state.tickets t).originalOwner = 0 ∧ (c.state.tickets t).transferred = false

theorem Steady.deployed (deployer : Address) : Steady (K := K) (.start (.deployed deployer)) where
  phase := .rest rfl
  unminted _ _ := ⟨rfl, rfl, rfl⟩

theorem Steady.lt_of_exists {c : NftConfig K} (h : Steady c) {t : Nat} (ht : c.state.exists_ t) :
    t < c.state.tokenIdCounter := by
  by_contra hge
  exact ht (h.unminted t (by omega)).1

variable [DecidableEq K]

theorem Steady.turn {k : Keccak K} {c c' : NftConfig K} {l : Option (Address × NftCall)}
    (h : Steady c) (hs : Turn (nftCalls k) c l c') : Steady c' := by
  obtain ⟨hphase, hunminted⟩ := h
  cases nftTurn_cases hs with
  | executed hx =>
    have hcounter := hx.counter
    refine ⟨?_, fun t ht => ?_⟩
    · cases hphase with
      | rest he => exact .rest (hx.entered.trans he)
      | minting he hc hr => exact .minting (hx.entered.trans he) (hcounter.trans hc) hr
    · have hold := hunminted t (by simpa only [hcounter] using ht)
      cases hx.token t with
      | moved _ hlive => exact absurd hold.1 hlive
      | burned _ hlive => exact absurd hold.1 hlive
      | kept _ ho' price ht' => exact ⟨ho'.trans hold.1, by rw [ht']; exact hold.2⟩
  | @minting s p a r e n f q u he hr =>
    refine ⟨?_, fun t ht => ?_⟩
    · cases hphase with
      | rest _ => exact .minting rfl rfl hr
      | minting he' => exact absurd (he.symm.trans he') (by simp)
    · have ht : s.tokenIdCounter + 1 ≤ t := ht
      have hold := hunminted t (by show s.tokenIdCounter ≤ t; omega)
      have hne : t ≠ s.tokenIdCounter := by omega
      simpa [TicketNft.minting, TicketNft.setOwnerOf, hne] using hold
  | @minted s t =>
    cases hphase with
    | minting _ hcounter _ =>
      refine ⟨.rest rfl, fun v hv => ?_⟩
      have hv : t.tokenIdCounter ≤ v := hv
      have hne : v ≠ s.tokenIdCounter := by omega
      simpa [TicketNft.recordTicket, hne] using hunminted v hv

theorem Steady.of_run {k : Keccak K} {deployer : Address}
    {tr : List (NftConfig K × Option (Address × NftCall))} {c : NftConfig K}
    (h : Run (Turn (nftCalls k)) (.start (.deployed deployer)) tr c) : Steady c :=
  h.invariant Steady (fun _ _ => True) (fun _ _ _ hi _ hs => hi.turn hs) (.deployed deployer)
    fun _ _ => trivial

end Steady

end CrowdTic
