import CrowdTic.TicketMarketplace

/-! What a turn of the deployed contracts can be, and what the ticket contract
sees of it. A run of the deployment is a run of the ticket contract. -/

namespace CrowdTic

open Reverts

section Market

variable {K : Type} {D : Deployment} {s s' : Chain K}

theorem ownerOf_ok {nft : TicketNft K} {t : Nat} {owner : Address} :
    nft.ownerOf t = .ok owner ↔ nft.exists_ t ∧ nft.owners t = owner := by
  rw [TicketNft.ownerOf, require_bind_eq_ok, return_ok_iff]

theorem getMaxResalePrice_ok {nft : TicketNft K} {t ceiling : Nat} :
    nft.getMaxResalePrice t = .ok ceiling ↔ nft.exists_ t ∧ (nft.tickets t).maxResalePrice = ceiling := by
  rw [TicketNft.getMaxResalePrice, require_bind_eq_ok, return_ok_iff]

theorem transferTicket_ok {source recipient : Address} {t : Nat} :
    s.transferTicket D source recipient t = .ok s' ↔ ∃ nft,
      s.nft.transferFrom D.marketplace source recipient t = .ok nft ∧ { s with nft := nft } = s' := by
  rw [Chain.transferTicket, bind_ok_iff]
  simp only [mapError_ok_iff, return_ok_iff]

theorem guarded_market_ok {body : Chain K → Except ChainRevert (Chain K)} :
    Chain.guarded body s = .ok s' ↔ s.market.entered = false ∧
      ∃ t, body { s with market := { s.market with entered := true } } = .ok t ∧
        { t with market := { t.market with entered := false } } = s' :=
  nonReentrant_ok_iff

theorem list_ok_iff {a : Address} {t price : Nat} : s.list D a t price = .ok s' ↔
    s.market.entered = false ∧ price ≠ 0 ∧ s.nft.owners t = a ∧
      price ≤ (s.nft.tickets t).maxResalePrice ∧
      ∃ nft, s.nft.transferFrom D.marketplace a D.marketplace t = .ok nft ∧
        { s with nft := nft, market := s.market.listed t ⟨a, price, t⟩ } = s' := by
  rw [Chain.list, guarded_market_ok]
  refine and_congr_right fun he => ?_
  have hflag : { s.market.listed t ⟨a, price, t⟩ with entered := false } =
      s.market.listed t ⟨a, price, t⟩ := by
    rw [← he]
    rfl
  simp only [bind_ok_iff, ensure_ok_iff, exists_const, mapError_ok_iff, return_ok_iff, ownerOf_ok,
    getMaxResalePrice_ok, transferTicket_ok]
  constructor
  · rintro ⟨u, ⟨hprice, owner, ⟨_, hown⟩, rfl, ceiling, ⟨_, rfl⟩, hle, v, ⟨nft, hn, rfl⟩, rfl⟩, rfl⟩
    exact ⟨hprice, hown, hle, nft, hn, by rw [← hflag]; rfl⟩
  · rintro ⟨hprice, rfl, hle, nft, hn, rfl⟩
    have hlive : s.nft.exists_ t := (transferFrom_iff.mp hn).2.1
    exact ⟨_, ⟨hprice, _, ⟨hlive, rfl⟩, rfl, _, ⟨hlive, rfl⟩, hle, _, ⟨nft, hn, rfl⟩, rfl⟩, by
      rw [← hflag]; rfl⟩

theorem delist_ok_iff {a : Address} {t : Nat} : s.delist D a t = .ok s' ↔
    s.market.entered = false ∧ s.market.hasListing t = true ∧
      ((s.market.listings t).seller = a ∨ a = s.market.owner) ∧
      ∃ nft, s.nft.transferFrom D.marketplace D.marketplace (s.market.listings t).seller t = .ok nft ∧
        { s with nft := nft, market := s.market.delisted t } = s' := by
  rw [Chain.delist, guarded_market_ok]
  refine and_congr_right fun he => ?_
  have hflag : { s.market.delisted t with entered := false } = s.market.delisted t := by
    rw [← he]
    rfl
  simp only [bind_ok_iff, ensure_ok_iff, exists_const, transferTicket_ok]
  constructor
  · rintro ⟨u, ⟨hlisted, hseller, nft, hn, rfl⟩, rfl⟩
    exact ⟨hlisted, hseller, nft, hn, by rw [← hflag]; rfl⟩
  · rintro ⟨hlisted, hseller, nft, hn, rfl⟩
    exact ⟨_, ⟨hlisted, hseller, nft, hn, rfl⟩, by rw [← hflag]; rfl⟩

/-- The first guard shuts the second one. -/
theorem buy_reverts (a : Address) (t value : Nat) : ¬ ∃ s', s.buy D a t value = .ok s' := by
  rintro ⟨s', h⟩
  rw [Chain.buy, bind_ok_iff] at h
  obtain ⟨s₁, -, h⟩ := h
  have htwice : Chain.guarded (Chain.guarded (Chain.buyBody D a t value)) s₁ = .error .reentrantCall := by
    unfold Chain.guarded
    exact nonReentrant_twice _ (fun _ => rfl) _ s₁
  exact absurd (htwice.symm.trans h) (by simp)

end Market

section Outcomes

variable {K : Type}

/-- Neither the ticket contract nor the tables of listings have changed. -/
structure SameTickets (s s' : Chain K) : Prop where
  nft : s'.nft = s.nft
  listings : s'.market.listings = s.market.listings
  hasListing : s'.market.hasListing = s.market.hasListing

theorem SameTickets.refl (s : Chain K) : SameTickets s s := ⟨rfl, rfl, rfl⟩

/-- A call that leaves the tickets alone, before and after it asks anyone. -/
inductive Aside (s : Chain K) : Outcome ChainRevert (Chain K) → Prop
  | done {s' : Chain K} (h : SameTickets s s') : Aside s (.done s')
  | asks {mid : Chain K} {resume : Chain K → Except ChainRevert (Chain K)} (h : SameTickets s mid)
    (hres : ∀ t t', resume t = .ok t' → SameTickets t t') : Aside s (.asks mid resume)

/-- The calls that reach neither the ticket contract nor the tables of listings. -/
def ChainCall.IsAside : ChainCall → Prop
  | .nft _ => False
  | .registry _ => True
  | .market (.list _ _) => False
  | .market (.delist _) => False
  | .market (.buy _ _) => False
  | .market _ => True

theorem registry_aside (s : Chain K) (o : Outcome RegistryRevert IdentityRegistry) :
    Aside s (o.embed Chain.registry (fun s registry => { s with registry := registry })
      ChainRevert.identityRegistry s) := by
  cases o with
  | done r => exact .done ⟨rfl, rfl, rfl⟩
  | asks mid resume =>
    refine .asks ⟨rfl, rfl, rfl⟩ fun t t' ht => ?_
    obtain ⟨r, -, rfl⟩ := map_ok_iff.mp ht
    exact ⟨rfl, rfl, rfl⟩

theorem marketCalls_aside {D : Deployment} {s : Chain K} {a : Address} {i : MarketCall}
    {o : Outcome ChainRevert (Chain K)} (hi : (ChainCall.market i).IsAside)
    (h : marketCalls D a s i = .ok o) : Aside s o := by
  cases i with
  | list t price => exact hi.elim
  | delist t => exact hi.elim
  | buy t value => exact hi.elim
  | withdrawPayments payee =>
    rw [marketCalls, Chain.withdrawPayments, Chain.pay, bind_ok_iff] at h
    obtain ⟨s₁, hpay, ho⟩ := h
    rw [ensure_bind_ok_iff, return_ok_iff] at hpay
    obtain ⟨-, rfl⟩ := hpay
    obtain rfl := Except.ok.inj ho
    refine .asks ⟨rfl, rfl, rfl⟩ fun t t' ht => ?_
    obtain rfl := Except.ok.inj ht
    exact .refl t
  | setOrganizerRoyaltyBps bps =>
    rw [marketCalls, map_ok_iff] at h
    obtain ⟨s₁, hs, rfl⟩ := h
    rw [Chain.setOrganizerRoyaltyBps, ensure_bind_ok_iff, ensure_bind_ok_iff, return_ok_iff] at hs
    obtain ⟨-, -, rfl⟩ := hs
    exact .done ⟨rfl, rfl, rfl⟩
  | transferOwnership newOwner =>
    rw [marketCalls, ensure_bind_ok_iff, ensure_bind_ok_iff, return_ok_iff] at h
    obtain ⟨-, -, rfl⟩ := h
    exact .done ⟨rfl, rfl, rfl⟩
  | renounceOwnership =>
    rw [marketCalls, ensure_bind_ok_iff, return_ok_iff] at h
    obtain ⟨-, rfl⟩ := h
    exact .done ⟨rfl, rfl, rfl⟩

variable [DecidableEq K]

/-- Everything a call can do to the deployment. -/
inductive ChainOutcome (k : Keccak K) (D : Deployment) (s : Chain K) (a : D.Account) :
    ChainCall → Outcome ChainRevert (Chain K) → Prop
  | nft {i : NftCall} {n : TicketNft K} (h : nftCalls k (a.address, i) s.nft = .ok (.done n)) :
    ChainOutcome k D s a (.nft i) (.done { s with nft := n })
  | mint {i : NftCall} {mid : TicketNft K} {rest : TicketNft K → Except Revert (TicketNft K)}
    {resume : Chain K → Except ChainRevert (Chain K)}
    (h : nftCalls k (a.address, i) s.nft = .ok (.asks mid rest))
    (hout : (ChainCall.nft i).asked.all (· ∉ D.contracts) = true)
    (hres : ∀ t t', resume t = .ok t' → ∃ n, rest t.nft = .ok n ∧ { t with nft := n } = t') :
    ChainOutcome k D s a (.nft i) (.asks { s with nft := mid } resume)
  | list {t price : Nat} {n : TicketNft K} (hp : price ≠ 0) (ho : s.nft.owners t = a.address)
    (h : s.nft.transferFrom D.marketplace a.address D.marketplace t = .ok n) :
    ChainOutcome k D s a (.market (.list t price))
      (.done { s with nft := n, market := s.market.listed t ⟨a.address, price, t⟩ })
  | delist {t : Nat} {n : TicketNft K}
    (h : s.nft.transferFrom D.marketplace D.marketplace (s.market.listings t).seller t = .ok n) :
    ChainOutcome k D s a (.market (.delist t)) (.done { s with nft := n, market := s.market.delisted t })
  | aside {c : ChainCall} {o : Outcome ChainRevert (Chain K)} (hc : c.IsAside) (h : Aside s o) :
    ChainOutcome k D s a c o

theorem chainCalls_ok {k : Keccak K} {D : Deployment} {s : Chain K} {a : D.Account} {c : ChainCall}
    {o : Outcome ChainRevert (Chain K)} (h : chainCalls k D (a, c) s = .ok o) :
    ChainOutcome k D s a c o := by
  rw [chainCalls, bind_ok_iff] at h
  obtain ⟨o', h, hout⟩ := h
  rw [ensure_bind_ok_iff, return_ok_iff] at hout
  obtain ⟨hout, rfl⟩ := hout
  cases c with
  | nft i =>
    rw [ChainCall.exec, map_ok_iff] at h
    obtain ⟨n, hn, rfl⟩ := h
    rw [mapError_ok_iff] at hn
    cases n with
    | done n => exact .nft hn
    | asks mid rest =>
      refine .mint hn (hout rfl) fun t t' ht => ?_
      obtain ⟨n, hrest, rfl⟩ := map_ok_iff.mp ht
      exact ⟨n, mapError_ok_iff.mp hrest, rfl⟩
  | registry i =>
    rw [ChainCall.exec, map_ok_iff] at h
    obtain ⟨o, -, rfl⟩ := h
    exact .aside trivial (registry_aside s o)
  | market i =>
    have haside (i : MarketCall) (hi : (ChainCall.market i).IsAside)
        (h : marketCalls D a.address s i = .ok o') : ChainOutcome k D s a (.market i) o' :=
      .aside hi (marketCalls_aside hi h)
    cases i with
    | list t price =>
      obtain ⟨s', hs, rfl⟩ := map_ok_iff.mp h
      obtain ⟨-, hp, ho, -, n, hn, rfl⟩ := list_ok_iff.mp hs
      exact .list hp ho hn
    | delist t =>
      obtain ⟨s', hs, rfl⟩ := map_ok_iff.mp h
      obtain ⟨-, -, -, n, hn, rfl⟩ := delist_ok_iff.mp hs
      exact .delist hn
    | buy t value =>
      obtain ⟨s', hs, -⟩ := map_ok_iff.mp h
      exact absurd ⟨s', hs⟩ (buy_reverts a.address t value)
    | withdrawPayments payee => exact haside (.withdrawPayments payee) trivial h
    | setOrganizerRoyaltyBps bps => exact haside (.setOrganizerRoyaltyBps bps) trivial h
    | transferOwnership newOwner => exact haside (.transferOwnership newOwner) trivial h
    | renounceOwnership => exact haside .renounceOwnership trivial h

end Outcomes

section View

variable {K : Type}

abbrev ChainConfig (K : Type) (D : Deployment) := Config (Chain K) (D.Account × ChainCall)

variable {D : Deployment}

/-- The label that a turn has for the ticket contract, if it reaches it at all. The marketplace
moves tickets in its own name. -/
def nftLabel (c : ChainConfig K D) : Option (D.Account × ChainCall) → Option (Option (Address × NftCall))
  | some (a, .nft i) => some (some (a.address, i))
  | some (a, .market (.list t _)) =>
    some (some (D.marketplace, .transferFrom a.address D.marketplace t))
  | some (_, .market (.delist t)) =>
    some (some (D.marketplace, .transferFrom D.marketplace (c.state.market.listings t).seller t))
  | some (a, .market (.buy t _)) =>
    some (some (D.marketplace, .transferFrom D.marketplace a.address t))
  | some _ => none
  | none =>
    match c.pending with
    | (_, (_, .nft _)) :: _ => some none
    | _ => none

def nftFrame : Chain K × (D.Account × ChainCall) → Option (TicketNft K × (Address × NftCall))
  | (s, (a, .nft i)) => some (s.nft, (a.address, i))
  | _ => none

def nftView (c : ChainConfig K D) : NftConfig K := ⟨c.state.nft, c.pending.filterMap nftFrame⟩

theorem ChainCall.IsAside.label {c : ChainConfig K D} {a : D.Account} {i : ChainCall} (h : i.IsAside) :
    nftLabel c (some (a, i)) = none := by
  cases i with
  | nft i => exact h.elim
  | registry i => rfl
  | market i =>
    cases i with
    | list t price => exact h.elim
    | delist t => exact h.elim
    | buy t value => exact h.elim
    | _ => rfl

theorem ChainCall.IsAside.frame {s : Chain K} {a : D.Account} {i : ChainCall} (h : i.IsAside) :
    nftFrame (s, (a, i)) = none := by
  cases i with
  | nft i => exact h.elim
  | _ => rfl

variable [DecidableEq K] {k : Keccak K}

/-- A turn of the deployment is a turn of the ticket contract, or one that it does not notice. -/
theorem nft_turn {c c' : ChainConfig K D} {l : Option (D.Account × ChainCall)}
    (hs : Turn (chainCalls k D) c l c') :
    (nftLabel c l = none ∧ nftView c' = nftView c) ∨
      ∃ m, nftLabel c l = some m ∧ Turn (nftCalls k) (nftView c) m (nftView c') := by
  have hmoves {s : TicketNft K} {source recipient : Address} {t : Nat} {n : TicketNft K}
      {p : List (TicketNft K × (Address × NftCall))}
      (h : s.transferFrom D.marketplace source recipient t = .ok n) :
      Turn (nftCalls k) (⟨s, p⟩ : NftConfig K)
        (some (D.marketplace, .transferFrom source recipient t)) ⟨n, p⟩ :=
    .of_done (nftCalls_done (by simp) h)
  cases hs.cases with
  | @done s s' p i hx =>
    obtain ⟨a, i⟩ := i
    cases chainCalls_ok hx with
    | nft h => exact .inr ⟨_, rfl, .of_done h⟩
    | list _ _ h => exact .inr ⟨_, rfl, hmoves h⟩
    | delist h => exact .inr ⟨_, rfl, hmoves h⟩
    | aside hc h =>
      cases h with
      | done h => exact .inl ⟨hc.label, by simp only [nftView, h.nft]⟩
  | @asks s mid p i resume hx =>
    obtain ⟨a, i⟩ := i
    cases chainCalls_ok hx with
    | mint h => exact .inr ⟨_, rfl, .of_asks h⟩
    | aside hc h =>
      cases h with
      | asks h _ =>
        refine .inl ⟨hc.label, ?_⟩
        rw [nftView, nftView, List.filterMap_cons_none hc.frame, h.nft]
  | @resumes s t u mid p i resume hx hr =>
    obtain ⟨a, i⟩ := i
    cases chainCalls_ok hx with
    | mint h _ hres =>
      obtain ⟨n, hn, rfl⟩ := hres t u hr
      exact .inr ⟨_, rfl, .of_resumes h hn⟩
    | aside hc h =>
      cases h with
      | asks _ hres =>
        refine .inl ⟨?_, ?_⟩
        · cases i with
          | nft i => exact hc.elim
          | _ => rfl
        · rw [nftView, nftView, List.filterMap_cons_none hc.frame, (hres t u hr).nft]

theorem nft_run {wei : Address → Nat} {tr : List (ChainConfig K D × Option (D.Account × ChainCall))}
    {c : ChainConfig K D} (h : Run (Turn (chainCalls k D)) (.start (.deployed D wei)) tr c) :
    ∃ tr', Run (Turn (nftCalls k)) (.start (.deployed D.deployer) : NftConfig K) tr' (nftView c) := by
  have hwired : Run (Turn (nftCalls k)) (.start (.deployed D.deployer) : NftConfig K) _
      (nftView (.start (.deployed D wei) : ChainConfig K D)) :=
    (Run.single (.of_done (nftCalls_done (a := D.deployer)
      (c := .setIdentityRegistry D.identityRegistry) (by simp)
      (require_bind_eq_ok.mpr ⟨rfl, rfl⟩)))).snoc
        (.of_done (nftCalls_done (a := D.deployer) (c := .setMarketplace D.marketplace) (by simp)
          (require_bind_eq_ok.mpr ⟨rfl, rfl⟩)))
  have hnone : ∀ t l u, Turn (chainCalls k D) t l u → nftLabel t l = none → nftView u = nftView t := by
    intro t l u hs hl
    rcases nft_turn hs with ⟨_, hv⟩ | ⟨m, hm, _⟩
    · exact hv
    · rw [hl] at hm
      cases hm
  have hsome : ∀ t l u m, Turn (chainCalls k D) t l u → nftLabel t l = some m →
      Turn (nftCalls k) (nftView t) m (nftView u) := by
    intro t l u m hs hl
    rcases nft_turn hs with ⟨hnone, _⟩ | ⟨m', hm, hturn⟩
    · rw [hl] at hnone
      cases hnone
    · rw [hl] at hm
      obtain rfl := Option.some.inj hm
      exact hturn
  exact ⟨_, hwired.append (h.simulate nftView nftLabel hnone hsome)⟩

end View

end CrowdTic
