import CrowdTic.TokenTurns

/-! The transfer lock of tickets, over runs in which recipients call back. A
token changes hands at most twice, and never after it is locked. -/

namespace CrowdTic

section Property

variable {K : Type}

def MintWaits (c : NftConfig K) (t : Nat) : Prop := ∃ w ∈ c.pending, w.1.tokenIdCounter = t

variable [DecidableEq K]

def ownerAfter (k : Keccak K) (p : NftConfig K × Option (Address × NftCall)) (t : Nat) : Address :=
  (p.1.played (nftCalls k) p.2).state.owners t

/-- The turn moves the token from one account to another. -/
def changesOwner (k : Keccak K) (t : Nat) (p : NftConfig K × Option (Address × NftCall)) : Bool :=
  p.1.state.owners t ≠ 0 ∧ ownerAfter k p t ≠ 0 ∧ ownerAfter k p t ≠ p.1.state.owners t

structure ResaleBounded (k : Keccak K) (tr : List (NftConfig K × Option (Address × NftCall)))
    (t : Nat) : Prop where
  twice : tr.countP (changesOwner k t) ≤ 2
  locked : ∀ pre p post, tr = pre ++ p :: post → ¬ MintWaits p.1 t →
    (p.1.state.tickets t).transferred = true →
    ∀ q ∈ p :: post, ownerAfter k q t = q.1.state.owners t ∨ ownerAfter k q t = 0

end Property

section Count

variable {K : Type}

inductive Resold (c : NftConfig K) (t : Nat) : Nat → Prop
  | unminted (ht : c.state.tokenIdCounter ≤ t) : Resold c t 0
  | burned {m : Nat} (ht : t < c.state.tokenIdCounter) (ho : c.state.owners t = 0) (hm : m ≤ 2) :
    Resold c t m
  | waiting {m : Nat} {s₀ : TicketNft K} {a r : Address} {e : Bytes32} {n f : Nat} {q : Bool} {u : String}
    (hp : c.pending = [(s₀, (a, .mintTicket r e n f q u))]) (ht : s₀.tokenIdCounter = t)
    (horig : (c.state.tickets t).originalOwner = 0)
    (h : (c.state.owners t = r ∧ m = 0) ∨
      (c.state.owners t ≠ r ∧ m ≤ 1 ∧ (c.state.tickets t).transferred = true)) : Resold c t m
  | owned {m : Nat} (ht : t < c.state.tokenIdCounter) (hw : ¬ MintWaits c t)
    (hlocked : (c.state.tickets t).transferred = true → m ≤ 2)
    (h : (c.state.tickets t).transferred = false →
      (c.state.owners t = (c.state.tickets t).originalOwner ∧ m = 0) ∨
        (c.state.owners t ≠ (c.state.tickets t).originalOwner ∧ m ≤ 1)) : Resold c t m

theorem Resold.le_two {c : NftConfig K} {t m : Nat} (h : Resold c t m) : m ≤ 2 := by
  cases h with
  | unminted => omega
  | burned _ _ hm => exact hm
  | waiting _ _ _ h => rcases h with ⟨-, rfl⟩ | ⟨-, hm, -⟩ <;> omega
  | owned _ _ hlocked h =>
    cases hflag : (c.state.tickets t).transferred with
    | true => exact hlocked hflag
    | false => rcases h hflag with ⟨-, rfl⟩ | ⟨-, hm⟩ <;> omega

theorem Resold.kept {c c' : NftConfig K} {t m : Nat} (h : Resold c t m)
    (hcounter : c'.state.tokenIdCounter = c.state.tokenIdCounter) (hp : c'.pending = c.pending)
    (ho : c'.state.owners t = c.state.owners t)
    (horig : (c'.state.tickets t).originalOwner = (c.state.tickets t).originalOwner)
    (hflag : (c'.state.tickets t).transferred = (c.state.tickets t).transferred) :
    Resold c' t m := by
  cases h with
  | unminted ht => exact .unminted (hcounter ▸ ht)
  | burned ht ho' hm => exact .burned (hcounter ▸ ht) (ho.trans ho') hm
  | waiting hp' ht horig' h =>
    rw [← ho, ← hflag] at h
    exact .waiting (hp.trans hp') ht (horig.trans horig') h
  | owned ht hw hlocked h =>
    rw [← hflag] at hlocked
    rw [← hflag, ← ho, ← horig] at h
    refine .owned (hcounter ▸ ht) ?_ hlocked h
    rwa [MintWaits, hp]

theorem Resold.moved {c c' : NftConfig K} {t m : Nat} {source recipient : Address} (h : Resold c t m)
    (hc : Steady c) (hlive : c.state.exists_ t) (ho : c.state.owners t = source)
    (hlock : (c.state.tickets t).transferred = false)
    (hcounter : c'.state.tokenIdCounter = c.state.tokenIdCounter) (hp : c'.pending = c.pending)
    (ho' : c'.state.owners t = recipient) (ht' : c'.state.tickets t = { c.state.tickets t with
      transferred := decide (source ≠ (c.state.tickets t).originalOwner) }) :
    Resold c' t (m + if recipient ≠ source then 1 else 0) := by
  have hne : source ≠ 0 := ho ▸ hlive
  cases h with
  | unminted ht => exact absurd (hc.unminted t ht).1 hlive
  | burned _ hzero => exact absurd hzero hlive
  | waiting hp' ht horig h =>
    rcases h with ⟨hown, rfl⟩ | ⟨-, -, hflag⟩
    · have hflag : (c'.state.tickets t).transferred = true := by
        rw [ht', horig]
        exact decide_eq_true hne
      have horig' : (c'.state.tickets t).originalOwner = 0 := by simp [ht', horig]
      have hsource := ho.symm.trans hown
      refine .waiting (hp.trans hp') ht horig' ?_
      by_cases hr : recipient = source
      · exact .inl ⟨by rw [ho', hr, hsource], by simp [hr]⟩
      · exact .inr ⟨by rw [ho', ← hsource]; exact hr, by simp [hr], hflag⟩
    · simp [hlock] at hflag
  | owned ht hw hlocked h =>
    have hw' : ¬ MintWaits c' t := by rwa [MintWaits, hp]
    rcases h hlock with ⟨hown, rfl⟩ | ⟨hown, hm⟩
    · have hsource := ho.symm.trans hown
      have horig' : (c'.state.tickets t).originalOwner = source := by rw [ht', hsource]
      refine .owned (hcounter ▸ ht) hw' (fun _ => by split_ifs <;> omega) fun _ => ?_
      by_cases hr : recipient = source
      · exact .inl ⟨by rw [ho', horig', hr], by simp [hr]⟩
      · exact .inr ⟨by rw [ho', horig']; exact hr, by simp [hr]⟩
    · have hsource : source ≠ (c.state.tickets t).originalOwner := ho ▸ hown
      have hflag : (c'.state.tickets t).transferred = true := by simp [ht', hsource]
      refine .owned (hcounter ▸ ht) hw' (fun _ => by split_ifs <;> omega) fun hflag' => ?_
      exact absurd (hflag.symm.trans hflag') (by simp)

theorem Resold.minting {s : TicketNft K} {a r : Address} {e : Bytes32} {n f : Nat} {q : Bool}
    {u : String} {t m : Nat} (h : Resold ⟨s, []⟩ t m) (hc : Steady ⟨s, []⟩) :
    Resold ⟨s.minting r, [(s, (a, .mintTicket r e n f q u))]⟩ t m := by
  by_cases hnew : t = s.tokenIdCounter
  · subst hnew
    obtain ⟨-, horig, -⟩ := hc.unminted s.tokenIdCounter (Nat.le_refl _)
    have hm : m = 0 := by
      cases h with
      | unminted => rfl
      | burned ht => exact absurd ht (Nat.lt_irrefl _)
      | waiting hp => cases hp
      | owned ht => exact absurd ht (Nat.lt_irrefl _)
    exact .waiting rfl rfl horig (.inl ⟨owners_minting_self, hm⟩)
  · have ho : (s.minting r).owners t = s.owners t := owners_minting_of_ne hnew
    cases h with
    | unminted ht =>
      have ht : s.tokenIdCounter ≤ t := ht
      exact .unminted (Nat.lt_of_le_of_ne ht (Ne.symm hnew))
    | burned ht ho' hm => exact .burned (Nat.lt_succ_of_lt ht) (ho.trans ho') hm
    | waiting hp => cases hp
    | owned ht hw hlocked h =>
      refine .owned (Nat.lt_succ_of_lt ht) ?_ hlocked (fun hflag => ?_)
      · rintro ⟨w, hw', hwt⟩
        obtain rfl := List.mem_singleton.mp hw'
        exact hnew hwt.symm
      · rw [ho]
        exact h hflag

end Count

section Turns

variable {K : Type} [DecidableEq K] {k : Keccak K}

theorem changesOwner_eq {c c' : NftConfig K} {l : Option (Address × NftCall)} {t : Nat}
    (hs : Turn (nftCalls k) c l c') : changesOwner k t (c, l) =
      decide (c.state.owners t ≠ 0 ∧ c'.state.owners t ≠ 0 ∧ c'.state.owners t ≠ c.state.owners t) := by
  simp [changesOwner, ownerAfter, hs.played_eq]

theorem changesOwner_of_same {c c' : NftConfig K} {l : Option (Address × NftCall)} {t : Nat}
    (hs : Turn (nftCalls k) c l c')
    (h : c.state.owners t = 0 ∨ c'.state.owners t = 0 ∨ c'.state.owners t = c.state.owners t) :
    changesOwner k t (c, l) = false := by
  rw [changesOwner_eq hs, decide_eq_false_iff_not]
  rintro ⟨h₁, h₂, h₃⟩
  rcases h with h | h | h
  · exact h₁ h
  · exact h₂ h
  · exact h₃ h

theorem Resold.executed {s s' : TicketNft K} {p : List (TicketNft K × (Address × NftCall))}
    {a : Address} {i : NftCall} {t m : Nat} (h : Resold ⟨s, p⟩ t m) (hc : Steady ⟨s, p⟩)
    (hx : Executed s a i s') (hs : Turn (nftCalls k) (⟨s, p⟩ : NftConfig K) (some (a, i)) ⟨s', p⟩) :
    Resold ⟨s', p⟩ t (m + if changesOwner k t (⟨s, p⟩, some (a, i)) = true then 1 else 0) := by
  cases hx.token t with
  | @moved source recipient hr hlive ha ho hlock hkyc ho' ht' =>
    have hmoved : Resold ⟨s', p⟩ t (m + if recipient ≠ source then 1 else 0) :=
      h.moved hc hlive ho hlock hx.counter rfl ho' ht'
    have hchange : changesOwner k t (⟨s, p⟩, some (a, .transferFrom source recipient t)) =
        decide (recipient ≠ source) := by
      rw [changesOwner_eq hs]
      have hboth : s.owners t ≠ 0 ∧ s'.owners t ≠ 0 := ⟨hlive, ho'.symm ▸ hr⟩
      refine decide_eq_decide.mpr ⟨fun hh => ?_, fun hne => ⟨hboth.1, hboth.2, ?_⟩⟩
      · rw [← ho, ← ho']
        exact hh.2.2
      · rw [← ho, ← ho'] at hne
        exact hne
    rw [hchange]
    simpa only [decide_eq_true_eq] using hmoved
  | burned he hlive ho' ht' =>
    rw [changesOwner_of_same hs (.inr (.inl ho'))]
    have hlt : t < s'.tokenIdCounter := hx.counter ▸ hc.lt_of_exists hlive
    exact .burned hlt ho' h.le_two
  | kept hi ho' price ht' =>
    rw [changesOwner_of_same hs (.inr (.inr ho'))]
    exact h.kept hx.counter rfl ho' (by rw [ht']) (by rw [ht'])

theorem Resold.minted {s s₀ : TicketNft K} {a r : Address} {e : Bytes32} {n f : Nat} {q : Bool}
    {u : String} {t m : Nat} (h : Resold ⟨s, [(s₀, (a, .mintTicket r e n f q u))]⟩ t m)
    (hcounter : s.tokenIdCounter = s₀.tokenIdCounter + 1) :
    Resold ⟨s.recordTicket k s₀.tokenIdCounter (newTicket r e n f q u), []⟩ t m := by
  have hrest : ¬ MintWaits (⟨s.recordTicket k s₀.tokenIdCounter (newTicket r e n f q u), []⟩ :
      NftConfig K) t := by
    rintro ⟨w, hw, -⟩
    exact absurd hw List.not_mem_nil
  cases h with
  | unminted ht => exact .unminted ht
  | burned ht ho hm => exact .burned ht ho hm
  | waiting hp ht horig h =>
    simp only [List.cons.injEq, Prod.mk.injEq, NftCall.mintTicket.injEq, and_true] at hp
    obtain ⟨rfl, rfl, rfl, rfl, rfl, rfl, rfl, rfl⟩ := hp
    subst ht
    refine .owned ?_ hrest (fun hflag => ?_) (fun _ => ?_)
    · show s₀.tokenIdCounter < s.tokenIdCounter
      omega
    · rw [tickets_recordTicket_self] at hflag
      exact absurd hflag (by simp [newTicket])
    · rw [tickets_recordTicket_self]
      exact h.imp_right fun hh => ⟨hh.1, hh.2.1⟩
  | owned ht hw hlocked h =>
    have hne : t ≠ s₀.tokenIdCounter := by
      rintro rfl
      exact hw ⟨_, List.mem_singleton_self _, rfl⟩
    have hsame : (s.recordTicket k s₀.tokenIdCounter (newTicket r e n f q u)).tickets t =
        s.tickets t := tickets_recordTicket_of_ne hne
    rw [← hsame] at hlocked h
    exact .owned ht hrest hlocked h

theorem Resold.turn {c c' : NftConfig K} {l : Option (Address × NftCall)} {t m : Nat}
    (h : Resold c t m) (hc : Steady c) (hs : Turn (nftCalls k) c l c') :
    Resold c' t (m + if changesOwner k t (c, l) = true then 1 else 0) := by
  cases nftTurn_cases hs with
  | executed hx => exact h.executed hc hx hs
  | @minting s p a r e n f q u he hr hnew =>
    have ho : s.owners t = 0 ∨ (s.minting r).owners t = s.owners t := by
      by_cases ht : t = s.tokenIdCounter
      · exact .inl (ht ▸ not_not.mp hnew)
      · exact .inr (owners_minting_of_ne ht)
    rw [changesOwner_of_same hs (ho.imp_right .inr)]
    cases hc.phase with
    | minting he' => exact absurd (he.symm.trans he') (by simp)
    | rest _ => exact h.minting hc
  | minted =>
    rw [changesOwner_of_same hs (.inr (.inr rfl))]
    cases hc.phase with
    | minting _ hcounter _ => exact h.minted hcounter

theorem Resold.of_run {deployer : Address}
    {tr : List (NftConfig K × Option (Address × NftCall))} {c : NftConfig K}
    (h : Run (Turn (nftCalls k)) (.start (.deployed deployer)) tr c) (t : Nat) :
    Resold c t (tr.countP (changesOwner k t)) := by
  induction h with
  | nil => exact .unminted (Nat.zero_le t)
  | snoc hr hs ih =>
    have hd : Steady _ := .of_run hr
    rw [List.countP_append, List.countP_singleton]
    exact ih.turn hd hs

structure Settled (c : NftConfig K) (t : Nat) : Prop where
  minted : t < c.state.tokenIdCounter
  returned : ¬ MintWaits c t
  stuck : c.state.owners t = 0 ∨ (c.state.tickets t).transferred = true

theorem Settled.turn {c c' : NftConfig K} {l : Option (Address × NftCall)} {t : Nat}
    (h : Settled c t) (hc : Steady c) (hs : Turn (nftCalls k) c l c') :
    Settled c' t ∧ (c'.state.owners t = c.state.owners t ∨ c'.state.owners t = 0) := by
  obtain ⟨hlt, hw, hstuck⟩ := h
  cases nftTurn_cases hs with
  | @executed s s' p a i hx =>
    have hlt' : t < s'.tokenIdCounter := hx.counter ▸ hlt
    cases hx.token t with
    | moved _ hlive _ _ hlock =>
      rcases hstuck with hzero | hflag
      · exact absurd hzero hlive
      · exact absurd (hlock.symm.trans hflag) (by simp)
    | burned _ _ ho' => exact ⟨⟨hlt', hw, .inl ho'⟩, .inr ho'⟩
    | kept _ ho' price ht' =>
      refine ⟨⟨hlt', hw, hstuck.imp ho'.trans fun hflag => ?_⟩, .inl ho'⟩
      rw [ht']
      exact hflag
  | @minting s p a r =>
    have hne : t ≠ s.tokenIdCounter := Nat.ne_of_lt hlt
    have ho : (s.minting r).owners t = s.owners t := owners_minting_of_ne hne
    refine ⟨⟨Nat.lt_succ_of_lt hlt, ?_, hstuck.imp ho.trans id⟩, .inl ho⟩
    rintro ⟨w, hw', hwt⟩
    rcases List.mem_cons.mp hw' with rfl | hw'
    · exact hne hwt.symm
    · exact hw ⟨w, hw', hwt⟩
  | @minted s =>
    have hne : t ≠ s.tokenIdCounter := by
      rintro rfl
      exact hw ⟨_, List.mem_cons_self, rfl⟩
    refine ⟨⟨hlt, ?_, hstuck.imp_right fun hflag => ?_⟩, .inl rfl⟩
    · rintro ⟨w, hw', hwt⟩
      exact hw ⟨w, List.mem_cons_of_mem _ hw', hwt⟩
    · rw [tickets_recordTicket_of_ne hne]
      exact hflag

theorem Settled.run {c c' : NftConfig K} {t : Nat}
    {tr : List (NftConfig K × Option (Address × NftCall))} (h : Settled c t) (hc : Steady c)
    (hr : Run (Turn (nftCalls k)) c tr c') :
    ∀ q ∈ tr, ownerAfter k q t = q.1.state.owners t ∨ ownerAfter k q t = 0 := by
  intro q hq
  obtain ⟨pre, post, d, rfl, hpre, hs, -⟩ := hr.split hq
  have hinv : Settled q.1 t ∧ Steady q.1 :=
    hpre.invariant (fun d => Settled d t ∧ Steady d) (fun _ _ => True)
      (fun _ _ _ hi _ ha => ⟨(hi.1.turn hi.2 ha).1, hi.2.turn ha⟩) ⟨h, hc⟩ fun _ _ => trivial
  have howner := (hinv.1.turn hinv.2 hs).2
  rwa [← hs.played_eq] at howner

/-- In every run a token changes hands at most twice, and a locked one stays with its owner until
it is burned. -/
theorem resale_bounded (k : Keccak K) (deployer : Address)
    {tr : List (NftConfig K × Option (Address × NftCall))} {c : NftConfig K}
    (h : Run (Turn (nftCalls k)) (.start (.deployed deployer)) tr c) (t : Nat) :
    ResaleBounded k tr t where
  twice := (Resold.of_run h t).le_two
  locked := by
    rintro pre p post rfl hw hflag
    obtain ⟨d, hpre, hs, hpost⟩ := h.cut
    have hp : Steady p.1 := .of_run hpre
    have hminted : t < p.1.state.tokenIdCounter := by
      by_contra hge
      have hblank := (hp.unminted t (by omega)).2.2
      exact absurd (hblank.symm.trans hflag) (by simp)
    have hsettled : Settled p.1 t := ⟨hminted, hw, .inr hflag⟩
    exact hsettled.run hp ((Run.single hs).append hpost)

end Turns

section Demo

def demoMintTo (recipient : Address) : Option (Address × NftCall) :=
  some (1, .mintTicket recipient 7 1 100 false "ipfs://QmTest")

def demoHand (source recipient : Address) : Option (Address × NftCall) :=
  some (source, .transferFrom source recipient 0)

def demoResales : List (NftConfig (Bytes32 × Nat) × Option (Address × NftCall)) :=
  Run.record (Config.played (nftCalls demoKeccak)) (.start (.deployed 1))
    [demoMintTo 2, demoHand 2 3, none, demoHand 3 4]

theorem resold_twice : ResaleBounded demoKeccak demoResales 0 :=
  resale_bounded demoKeccak 1 (Config.run_played (nftCalls demoKeccak) _ _ (by decide)) 0

end Demo

end CrowdTic
