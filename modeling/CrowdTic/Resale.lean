import CrowdTic.ChainTurns

/-! Listing, taking back and buying a ticket. No purchase goes through, and no
listing can be taken back as if it had never been. -/

namespace CrowdTic

section Property

variable {K : Type}

/-- What the sale of a listed ticket comes to, for the state before and after it. -/
structure Sold (D : Deployment) (s s' : Chain K) (buyer : Address) (t : Nat) : Prop where
  owner : s'.nft.owners t = buyer
  gone : s'.market.hasListing t = false ∧ s'.market.listings t = .empty
  others : ∀ u, u ≠ t → s'.market.hasListing u = s.market.hasListing u ∧
    s'.market.listings u = s.market.listings u
  royalty_le : (s.market.listings t).price * s.market.organizerRoyaltyBps / BPS ≤
    (s.market.listings t).price
  credits : ∀ x, s'.market.payments x = s.market.payments x +
    (if x = (s.market.listings t).seller then (s.market.listings t).price -
      (s.market.listings t).price * s.market.organizerRoyaltyBps / BPS else 0) +
    (if x = s.market.owner then
      (s.market.listings t).price * s.market.organizerRoyaltyBps / BPS else 0)
  refund : s'.wei buyer + (s.market.listings t).price = s.wei buyer
  balance : s'.wei D.marketplace = s.wei D.marketplace

def BuyWorks (D : Deployment) (s : Chain K) (buyer : Address) (t value : Nat) : Prop :=
  ∃ s', s.buy D buyer t value = .ok s' ∧ Sold D s s' buyer t

/-- The seller takes the ticket back from `s₁`, and it is as it was in `s`. -/
def DelistUndoes (D : Deployment) (s s₁ : Chain K) (seller : Address) (t : Nat) : Prop :=
  ∃ s₂, s₁.delist D seller t = .ok s₂ ∧ s₂.nft.owners t = s.nft.owners t ∧
    (s₂.nft.tickets t).transferred = (s.nft.tickets t).transferred ∧
    s₂.market.listings t = s.market.listings t ∧ s₂.market.hasListing t = s.market.hasListing t

variable {D : Deployment}

/-- Every sale of a run is at a price under the ceiling of its moment and under 120 % of the face
value. -/
def SalesCapped (tr : List (ChainConfig K D × Option (D.Account × ChainCall))) : Prop :=
  ∀ p ∈ tr, ∀ a t value, p.2 = some (a, .market (.buy t value)) →
    (p.1.state.market.listings t).price ≤ (p.1.state.nft.tickets t).maxResalePrice ∧
      (p.1.state.market.listings t).price ≤ (p.1.state.nft.tickets t).faceValue * 120 / 100

end Property

section Results

variable {K : Type} {D : Deployment}

theorem buy_never_works (D : Deployment) (s : Chain K) (buyer : Address) (t value : Nat) :
    ¬ BuyWorks D s buyer t value := by
  rintro ⟨s', hbuy, -⟩
  exact buy_reverts buyer t value ⟨s', hbuy⟩

/-- A transfer out of escrow locks the ticket, unless the one into escrow has locked it already. -/
theorem escrow_locks {s s₁ s₂ : TicketNft K} {m x a : Address} {t : Nat} (ha : a ≠ m)
    (hin : s.transferFrom x a m t = .ok s₁) (hout : s₁.transferFrom m m a t = .ok s₂) :
    (s.tickets t).transferred = false ∧ (s₂.tickets t).transferred = true := by
  obtain ⟨-, -, -, -, hflag, -, rfl⟩ := transferFrom_iff.mp hin
  obtain ⟨-, -, -, -, hopen, -, rfl⟩ := transferFrom_iff.mp hout
  refine ⟨hflag, ?_⟩
  have horig : a = (s.tickets t).originalOwner := by
    simpa [TicketNft.handed, TicketNft.setOwnerOf] using hopen
  have hne : m ≠ (s.tickets t).originalOwner := fun heq => ha (horig.trans heq.symm)
  simpa [TicketNft.handed, TicketNft.setOwnerOf] using hne

/-- Whoever the seller is, a listing is never undone. -/
theorem delist_never_undoes {s s₁ : Chain K} {a : D.Account} {t price : Nat}
    (h : s.list D a.address t price = .ok s₁) : ¬ DelistUndoes D s s₁ a.address t := by
  rintro ⟨s₂, hdelist, -, hsame, -, -⟩
  obtain ⟨-, -, -, -, n, hin, rfl⟩ := list_ok_iff.mp h
  obtain ⟨-, -, -, n', hout, rfl⟩ := delist_ok_iff.mp hdelist
  have hseller : ((s.market.listed t ⟨a.address, price, t⟩).listings t).seller = a.address := by
    simp [TicketMarketplace.listed]
  rw [hseller] at hout
  obtain ⟨hflag, hflag'⟩ := escrow_locks a.ne_marketplace hin hout
  exact absurd (hflag'.symm.trans (hsame.trans hflag)) (by simp)

variable [DecidableEq K]

theorem no_purchase {k : Keccak K} {c c' : ChainConfig K D} {a : D.Account} {t value : Nat} :
    ¬ Turn (chainCalls k D) c (some (a, .market (.buy t value))) c' := by
  intro hs
  cases hs.cases with
  | done hx =>
    cases chainCalls_ok hx with
    | aside hc => exact hc.elim
  | asks hx =>
    cases chainCalls_ok hx with
    | aside hc => exact hc.elim

theorem sales_capped (k : Keccak K) (wei : Address → Nat)
    {tr : List (ChainConfig K D × Option (D.Account × ChainCall))} {c : ChainConfig K D}
    (h : Run (Turn (chainCalls k D)) (.start (.deployed D wei)) tr c) : SalesCapped tr := by
  rintro ⟨d, l⟩ hp a t value hl
  obtain ⟨pre, post, u, rfl, -, hs, -⟩ := h.split hp
  obtain rfl : l = _ := hl
  exact absurd hs no_purchase

end Results

section Demo

def demoDeployment : Deployment := ⟨101, 102, 103, 104, 1, by decide⟩

def demoOrganizer : demoDeployment.Account := ⟨1, by decide, by decide⟩

def demoSeller : demoDeployment.Account := ⟨2, by decide, by decide⟩

def demoBuyer : demoDeployment.Account := ⟨3, by decide, by decide⟩

def demoIssue : List (Option (demoDeployment.Account × ChainCall)) :=
  [some (demoOrganizer, .nft (.mintTicket 2 7 1 100 false "ipfs://QmTest")), none,
    some (demoSeller, .nft (.approve 103 0))]

def demoListing : List (Option (demoDeployment.Account × ChainCall)) :=
  demoIssue ++ [some (demoSeller, .market (.list 0 110))]

def demoWei : Address → Nat := fun _ => 1000

def demoDeployed : ChainConfig (Bytes32 × Nat) demoDeployment := .start (.deployed demoDeployment demoWei)

def demoPlayed (ls : List (Option (demoDeployment.Account × ChainCall))) :
    ChainConfig (Bytes32 × Nat) demoDeployment :=
  ls.foldl (Config.played (chainCalls demoKeccak demoDeployment)) demoDeployed

theorem listed_ticket_not_bought :
    ¬ ∀ (K : Type) (_ : DecidableEq K) (k : Keccak K) (D : Deployment) (wei : Address → Nat)
      (tr : List (ChainConfig K D × Option (D.Account × ChainCall))) (c : ChainConfig K D)
      (buyer : D.Account) (t value : Nat),
      Run (Turn (chainCalls k D)) (.start (.deployed D wei)) tr c →
        c.state.market.hasListing t = true →
        ((c.state.nft.tickets t).kycRequired = true →
          c.state.nft.isKYCVerified buyer.address = true) →
        (c.state.market.listings t).price ≤ value → value ≤ c.state.wei buyer.address →
        (c.state.market.listings t).price * c.state.market.organizerRoyaltyBps ≤ maxUint256 →
        BuyWorks D c.state buyer.address t value := by
  intro h
  have hrun := Config.run_played (chainCalls demoKeccak demoDeployment) demoDeployed demoListing
    (by decide)
  obtain ⟨s', hbuy, -⟩ := h _ _ _ _ _ _ _ demoBuyer 0 110 hrun (by decide) (by decide) (by decide)
    (by decide) (by decide)
  exact buy_reverts _ _ _ ⟨s', hbuy⟩

/-- The original owner of a ticket lists it and takes it back. -/
theorem original_owner_locked_out :
    ¬ ∀ (K : Type) (_ : DecidableEq K) (k : Keccak K) (D : Deployment) (wei : Address → Nat)
      (tr : List (ChainConfig K D × Option (D.Account × ChainCall))) (c : ChainConfig K D)
      (a : D.Account) (t price : Nat) (s₁ : Chain K),
      Run (Turn (chainCalls k D)) (.start (.deployed D wei)) tr c →
        c.state.list D a.address t price = .ok s₁ → DelistUndoes D c.state s₁ a.address t := by
  intro h
  have hrun := Config.run_played (chainCalls demoKeccak demoDeployment) demoDeployed demoIssue
    (by decide)
  obtain ⟨s₂, hdelist, -, hflag, -⟩ := h _ _ _ _ _ _ _ demoSeller 0 110 _ hrun rfl
  obtain ⟨-, -, -, n, hout, rfl⟩ := delist_ok_iff.mp hdelist
  obtain ⟨-, -, -, -, -, -, rfl⟩ := transferFrom_iff.mp hout
  exact absurd hflag (by decide)

theorem demo_listing_not_undone :
    ∃ s₁, (demoPlayed demoIssue).state.list demoDeployment 2 0 110 = .ok s₁ ∧
      ¬ DelistUndoes demoDeployment (demoPlayed demoIssue).state s₁ 2 0 := by
  have hlist : (demoPlayed demoIssue).state.list demoDeployment demoSeller.address 0 110 = .ok _ := rfl
  exact ⟨_, hlist, delist_never_undoes hlist⟩

theorem demo_sales_capped : SalesCapped (Run.record (Config.played (chainCalls demoKeccak demoDeployment))
    demoDeployed demoListing) :=
  sales_capped demoKeccak demoWei
    (Config.run_played (chainCalls demoKeccak demoDeployment) demoDeployed demoListing (by decide))

end Demo

end CrowdTic
