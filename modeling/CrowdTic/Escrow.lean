import CrowdTic.Resale

/-! The tables of listings against the tickets that the marketplace holds. Only
a cancellation takes a ticket from under its listing. -/

namespace CrowdTic

section Held

variable {K : Type}

/-- Nobody but the account `m` itself can move the tokens of `m`. -/
structure OwnHands (m : Address) (s : TicketNft K) : Prop where
  unapproved : ∀ t, s.owners t = m → s.tokenApprovals t = 0
  noOperator : ∀ x, s.operatorApprovals m x = false

theorem OwnHands.not_authorized {m a : Address} {s : TicketNft K} {t : Nat} (h : OwnHands m s)
    (ha : a ≠ 0) (hm : a ≠ m) (ho : s.owners t = m) : ¬ s.authorized a t := by
  rintro (hown | hop | happ)
  · exact hm (hown.symm.trans ho)
  · rw [ho, h.noOperator a] at hop
    cases hop
  · exact ha (happ.symm.trans (h.unapproved t ho))

theorem OwnHands.untouched {m : Address} {s s' : TicketNft K} (h : OwnHands m s)
    (ho : s'.owners = s.owners) (ht : s'.tokenApprovals = s.tokenApprovals)
    (hop : s'.operatorApprovals m = s.operatorApprovals m) : OwnHands m s' where
  unapproved t hm := by
    rw [ho] at hm
    rw [ht]
    exact h.unapproved t hm
  noOperator x := by
    rw [hop]
    exact h.noOperator x

theorem OwnHands.setOwnerOf {m : Address} {s : TicketNft K} (h : OwnHands m s) (t : Nat) (a : Address) :
    OwnHands m (s.setOwnerOf t a) where
  unapproved u hm := by
    by_cases hu : u = t
    · subst hu
      exact Function.update_self ..
    · have howner : (s.setOwnerOf t a).owners u = s.owners u := Function.update_of_ne hu _ _
      have happroval : (s.setOwnerOf t a).tokenApprovals u = s.tokenApprovals u :=
        Function.update_of_ne hu _ _
      exact happroval.trans (h.unapproved u (howner.symm.trans hm))
  noOperator := h.noOperator

theorem OwnHands.handed {m : Address} {s : TicketNft K} (h : OwnHands m s)
    (source recipient : Address) (t : Nat) : OwnHands m (s.handed source recipient t) := by
  have hticket : OwnHands m { s with tickets := Function.update s.tickets t { s.tickets t with
      transferred := decide (source ≠ (s.tickets t).originalOwner) } } := h.untouched rfl rfl rfl
  exact hticket.setOwnerOf t recipient

theorem OwnHands.transferFrom {m source recipient : Address} {s s' : TicketNft K} {a : Address}
    {t : Nat} (h : OwnHands m s) (hs : s.transferFrom a source recipient t = .ok s') :
    OwnHands m s' := by
  obtain ⟨-, -, -, -, -, -, rfl⟩ := transferFrom_iff.mp hs
  exact h.handed source recipient t

theorem owners_of_transferFrom {s s' : TicketNft K} {a source recipient : Address} {t : Nat}
    (hs : s.transferFrom a source recipient t = .ok s') (u : Nat) :
    s'.owners u = if u = t then recipient else s.owners u := by
  obtain ⟨-, -, -, -, -, -, rfl⟩ := transferFrom_iff.mp hs
  by_cases hu : u = t
  · subst hu
    simp [TicketNft.handed, TicketNft.setOwnerOf]
  · simp [TicketNft.handed, TicketNft.setOwnerOf, hu]

theorem OwnHands.executed {m a : Address} {s s' : TicketNft K} {c : NftCall} (h : OwnHands m s)
    (ha : a ≠ m) (hx : Executed s a c s') : OwnHands m s' := by
  cases hx with
  | @cancelTicket t => exact (h.setOwnerOf t 0).untouched rfl rfl rfl
  | @transferFrom source recipient t => exact h.handed source recipient t
  | @approve r t _ hmay =>
    refine ⟨fun u hu => ?_, h.noOperator⟩
    have hne : u ≠ t := by
      rintro rfl
      rcases hmay with hown | hop
      · exact ha (hown.symm.trans hu)
      · rw [hu, h.noOperator a] at hop
        cases hop
    exact (Function.update_of_ne hne _ _).trans (h.unapproved u hu)
  | setApprovalForAll => exact h.untouched rfl rfl (Function.update_of_ne (Ne.symm ha) _ _)
  | _ => exact h.untouched rfl rfl rfl

end Held

section Property

variable {K : Type} {D : Deployment}

/-- The owners that a token has had in the states of a run, the newest first. -/
def ownersOf (tr : List (ChainConfig K D × Option (D.Account × ChainCall))) (c : ChainConfig K D)
    (t : Nat) : List Address :=
  c.state.nft.owners t :: (tr.map fun p => p.1.state.nft.owners t).reverse

structure EscrowMatches (tr : List (ChainConfig K D × Option (D.Account × ChainCall)))
    (c : ChainConfig K D) (t : Nat) : Prop where
  live : c.state.nft.exists_ t
  held : c.state.nft.owners t = D.marketplace
  tokenId : (c.state.market.listings t).tokenId = t
  price : 0 < (c.state.market.listings t).price
  seller : (ownersOf tr c t).find? (· ≠ D.marketplace) = some (c.state.market.listings t).seller

/-- No ticket is cancelled that is listed. -/
def CancelsUnlisted (c : ChainConfig K D) (l : Option (D.Account × ChainCall)) : Prop :=
  ∀ a t, l = some (a, .nft (.cancelTicket t)) → c.state.market.hasListing t = false

end Property

section Turns

variable {K : Type} {D : Deployment}

structure Escrowed (D : Deployment) (s : Chain K) : Prop where
  hands : OwnHands D.marketplace s.nft
  held : ∀ t, s.market.hasListing t = true → s.nft.owners t = D.marketplace

inductive ListingStep (D : Deployment) (s s' : Chain K) (t : Nat) : Prop
  | kept (hl : s.market.hasListing t = true) (hsame : s'.market.listings t = s.market.listings t)
  | created (a : D.Account) (price : Nat) (hp : price ≠ 0) (ho : s.nft.owners t = a.address)
    (hnew : s'.market.listings t = ⟨a.address, price, t⟩)

theorem Escrowed.deployed (D : Deployment) (wei : Address → Nat) :
    Escrowed (K := K) D (.deployed D wei) where
  hands := ⟨fun _ _ => rfl, fun _ => rfl⟩
  held _ ht := absurd ht (by simp [Chain.deployed, TicketMarketplace.deployed])

theorem Escrowed.sameTickets {s s' : Chain K} (h : Escrowed D s) (hs : SameTickets s s') :
    Escrowed D s' where
  hands := hs.nft ▸ h.hands
  held t ht := by
    rw [hs.hasListing] at ht
    rw [hs.nft]
    exact h.held t ht

theorem SameTickets.listingStep {s s' : Chain K} (hs : SameTickets s s') {t : Nat}
    (ht : s'.market.hasListing t = true) : ListingStep D s s' t :=
  .kept (hs.hasListing ▸ ht) (by rw [hs.listings])

theorem Escrowed.listed {s : Chain K} {a : D.Account} {t price : Nat} {n : TicketNft K}
    (h : Escrowed D s) (hp : price ≠ 0) (ho : s.nft.owners t = a.address)
    (hn : s.nft.transferFrom D.marketplace a.address D.marketplace t = .ok n) :
    let s' := { s with nft := n, market := s.market.listed t ⟨a.address, price, t⟩ }
    Escrowed D s' ∧ ∀ u, s'.market.hasListing u = true → ListingStep D s s' u := by
  refine ⟨⟨h.hands.transferFrom hn, fun u hu => ?_⟩, fun u hu => ?_⟩
  · show n.owners u = D.marketplace
    rw [owners_of_transferFrom hn]
    by_cases hut : u = t
    · rw [if_pos hut]
    · rw [if_neg hut]
      exact h.held u (by simpa [TicketMarketplace.listed, hut] using hu)
  · by_cases hut : u = t
    · subst hut
      exact .created a price hp ho (Function.update_self ..)
    · exact .kept (by simpa [TicketMarketplace.listed, hut] using hu) (Function.update_of_ne hut _ _)

theorem Escrowed.delisted {s : Chain K} {x : Address} {t : Nat} {n : TicketNft K} (h : Escrowed D s)
    (hn : s.nft.transferFrom D.marketplace D.marketplace x t = .ok n) :
    let s' := { s with nft := n, market := s.market.delisted t }
    Escrowed D s' ∧ ∀ u, s'.market.hasListing u = true → ListingStep D s s' u := by
  have hother : ∀ u, (s.market.delisted t).hasListing u = true →
      u ≠ t ∧ s.market.hasListing u = true := by
    intro u hu
    by_cases hut : u = t
    · simp [TicketMarketplace.delisted, hut] at hu
    · exact ⟨hut, by simpa [TicketMarketplace.delisted, hut] using hu⟩
  refine ⟨⟨h.hands.transferFrom hn, fun u hu => ?_⟩, fun u hu => ?_⟩
  · obtain ⟨hut, hlisted⟩ := hother u hu
    show n.owners u = D.marketplace
    rw [owners_of_transferFrom hn, if_neg hut]
    exact h.held u hlisted
  · obtain ⟨hut, hlisted⟩ := hother u hu
    exact .kept hlisted (Function.update_of_ne hut _ _)

theorem Escrowed.executed {s : Chain K} {a : D.Account} {i : NftCall} {n : TicketNft K}
    (h : Escrowed D s) (hx : Executed s.nft a.address i n)
    (hc : ∀ t, i = .cancelTicket t → s.market.hasListing t = false) :
    Escrowed D { s with nft := n } where
  hands := h.hands.executed a.ne_marketplace hx
  held t ht := by
    have howned := h.held t ht
    cases hx.token t with
    | moved _ _ hauth =>
      exact absurd hauth (h.hands.not_authorized a.ne_zero a.ne_marketplace howned)
    | burned => exact absurd ((hc t rfl).symm.trans ht) (by simp)
    | kept _ ho' => exact ho'.trans howned

theorem Escrowed.minting {s : Chain K} (h : Escrowed D s) (r : Address)
    (hnew : ¬ s.nft.exists_ s.nft.tokenIdCounter) : Escrowed D { s with nft := s.nft.minting r } where
  hands := by
    have hcounted : OwnHands D.marketplace
        { s.nft with entered := true, tokenIdCounter := s.nft.tokenIdCounter + 1 } :=
      h.hands.untouched rfl rfl rfl
    exact hcounted.setOwnerOf _ _
  held t ht := by
    have howned := h.held t ht
    have hne : t ≠ s.nft.tokenIdCounter := by
      rintro rfl
      have hlive : s.nft.owners s.nft.tokenIdCounter ≠ 0 := howned ▸ D.marketplace_ne_zero
      exact hnew hlive
    exact (owners_minting_of_ne hne).trans howned

variable [DecidableEq K] {k : Keccak K}

theorem Escrowed.turn {c c' : ChainConfig K D} {l : Option (D.Account × ChainCall)}
    (h : Escrowed D c.state) (hc : CancelsUnlisted c l) (hs : Turn (chainCalls k D) c l c') :
    Escrowed D c'.state ∧
      ∀ t, c'.state.market.hasListing t = true → ListingStep D c.state c'.state t := by
  cases hs.cases with
  | @done s s' p i hx =>
    obtain ⟨a, i⟩ := i
    cases chainCalls_ok hx with
    | @nft i n hn =>
      cases nftCalls_ok hn with
      | done hm hx =>
        have hfree : ∀ t, i = .cancelTicket t → s.market.hasListing t = false := by
          rintro t rfl
          exact hc a t rfl
        exact ⟨h.executed (exec_cases hx hm) hfree, fun t ht => .kept ht rfl⟩
    | list hp ho hn => exact h.listed hp ho hn
    | delist hn => exact h.delisted hn
    | aside _ hside =>
      cases hside with
      | done hsame => exact ⟨h.sameTickets hsame, fun t ht => hsame.listingStep ht⟩
  | @asks s mid p i resume hx =>
    obtain ⟨a, i⟩ := i
    cases chainCalls_ok hx with
    | mint hn =>
      cases nftCalls_ok hn with
      | asks ha he hi hlt hr hnew => exact ⟨h.minting _ hnew, fun t ht => .kept ht rfl⟩
    | aside _ hside =>
      cases hside with
      | asks hsame _ => exact ⟨h.sameTickets hsame, fun t ht => hsame.listingStep ht⟩
  | @resumes s t u mid p i resume hx hr =>
    obtain ⟨a, i⟩ := i
    cases chainCalls_ok hx with
    | mint hn _ hres =>
      obtain ⟨n, hrest, rfl⟩ := hres t u hr
      cases nftCalls_ok hn with
      | asks =>
        obtain ⟨_, rfl⟩ := mintRest_ok.mp hrest
        exact ⟨⟨h.hands.untouched rfl rfl rfl, h.held⟩, fun v hv => .kept hv rfl⟩
    | aside _ hside =>
      cases hside with
      | asks _ hres =>
        have hsame := hres t u hr
        exact ⟨h.sameTickets hsame, fun v hv => hsame.listingStep hv⟩

/-- As long as no listed ticket is cancelled, every listing is of a ticket in escrow, for its last
owner. -/
theorem escrow_matches (k : Keccak K) (wei : Address → Nat)
    {tr : List (ChainConfig K D × Option (D.Account × ChainCall))} {c : ChainConfig K D}
    (h : Run (Turn (chainCalls k D)) (.start (.deployed D wei)) tr c)
    (hg : ∀ p ∈ tr, CancelsUnlisted p.1 p.2) {t : Nat} (ht : c.state.market.hasListing t = true) :
    EscrowMatches tr c t := by
  induction h with
  | nil => exact absurd ht (by simp [Config.start, Chain.deployed, TicketMarketplace.deployed])
  | @snoc tr d c l hr hs ih =>
    obtain ⟨hold, hlast⟩ := List.forall_mem_append.mp hg
    have hd : Escrowed D d.state := hr.invariant (fun d => Escrowed D d.state)
      (fun d l => CancelsUnlisted d l) (fun _ _ _ hi hc ha => (hi.turn hc ha).1) (.deployed D wei) hold
    obtain ⟨hc, hstep⟩ := hd.turn (hlast (d, l) (List.mem_singleton_self _)) hs
    have howned := hc.held t ht
    have howners : ownersOf (tr ++ [(d, l)]) c t = c.state.nft.owners t :: ownersOf tr d t := by
      simp [ownersOf]
    have hskip : (ownersOf (tr ++ [(d, l)]) c t).find? (· ≠ D.marketplace) =
        (ownersOf tr d t).find? (· ≠ D.marketplace) := by
      rw [howners, List.find?_cons_of_neg (by simpa using howned)]
    have hlive : c.state.nft.owners t ≠ 0 := howned ▸ D.marketplace_ne_zero
    cases hstep t ht with
    | kept hl hsame =>
      obtain ⟨-, -, htoken, hprice, hseller⟩ := ih hold hl
      rw [← hsame] at htoken hprice hseller
      exact ⟨hlive, howned, htoken, hprice, hskip.trans hseller⟩
    | created a price hp ho hnew =>
      have hfirst : (ownersOf tr d t).find? (· ≠ D.marketplace) = some a.address := by
        rw [ownersOf, ho, List.find?_cons_of_pos (by simpa using a.ne_marketplace)]
      refine ⟨hlive, howned, ?_, ?_, ?_⟩
      · rw [hnew]
      · rw [hnew]
        exact Nat.pos_of_ne_zero hp
      · rw [hnew]
        exact hskip.trans hfirst

end Turns

section Demo

/-- The organizer cancels a listed ticket. -/
theorem cancelled_ticket_stays_listed :
    ¬ ∀ (K : Type) (_ : DecidableEq K) (k : Keccak K) (D : Deployment) (wei : Address → Nat)
      (tr : List (ChainConfig K D × Option (D.Account × ChainCall))) (c : ChainConfig K D) (t : Nat),
      Run (Turn (chainCalls k D)) (.start (.deployed D wei)) tr c →
        c.state.market.hasListing t = true → EscrowMatches tr c t := by
  intro h
  have hrun := Config.run_played (chainCalls demoKeccak demoDeployment) demoDeployed
    (demoListing ++ [some (demoOrganizer, .nft (.cancelTicket 0))]) (by decide)
  exact absurd (h _ _ _ _ _ _ _ 0 hrun (by decide)).live (by decide)

theorem demo_escrow_matches :
    EscrowMatches (Run.record (Config.played (chainCalls demoKeccak demoDeployment)) demoDeployed demoListing)
      (demoPlayed demoListing) 0 := by
  refine escrow_matches demoKeccak demoWei (Config.run_played _ demoDeployed demoListing (by decide))
    (fun p hp a t hl => ?_) (by decide)
  simp only [demoListing, demoIssue, List.cons_append, List.nil_append, Run.record, List.mem_cons,
    List.not_mem_nil, or_false] at hp
  rcases hp with rfl | rfl | rfl | rfl <;> simp at hl

end Demo

end CrowdTic
