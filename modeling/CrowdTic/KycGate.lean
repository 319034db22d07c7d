import CrowdTic.TokenTurns

/-! The KYC gate of tickets. A token can be passed on before its ticket is
written, when there is no gate yet. -/

namespace CrowdTic

section Property

variable {K : Type}

def MintedWithKyc (tr : List (NftConfig K × Option (Address × NftCall))) (t : Nat) : Prop :=
  ∃ p ∈ tr, ∃ a r e n f u, p.2 = some (a, .mintTicket r e n f true u) ∧ p.1.state.tokenIdCounter = t

/-- Every transfer of a token that was minted with `kycRequired` goes to a verified account. -/
def KycGated (tr : List (NftConfig K × Option (Address × NftCall))) : Prop :=
  ∀ p ∈ tr, ∀ a source recipient t, p.2 = some (a, .transferFrom source recipient t) →
    MintedWithKyc tr t → p.1.state.isKYCVerified recipient = true

/-- A token whose mint asks for KYC and still waits for its recipient is handed to nobody but a
verified account. -/
def CallbackGated (c : NftConfig K) (l : Option (Address × NftCall)) : Prop :=
  ∀ w ∈ c.pending, ∀ a r e n f u, w.2 = (a, .mintTicket r e n f true u) →
    ∀ b source recipient, l = some (b, .transferFrom source recipient w.1.tokenIdCounter) →
      c.state.isKYCVerified recipient = true

def asksKyc (c : NftConfig K) (t : Nat) : Bool :=
  match c.pending with
  | (s, (_, .mintTicket _ _ _ _ q _)) :: _ =>
    if s.tokenIdCounter = t then q else (c.state.tickets t).kycRequired
  | _ => (c.state.tickets t).kycRequired

end Property

section Turns

variable {K : Type} [DecidableEq K] {k : Keccak K}

theorem counter_le_turn {c c' : NftConfig K} {l : Option (Address × NftCall)}
    (hs : Turn (nftCalls k) c l c') : c.state.tokenIdCounter ≤ c'.state.tokenIdCounter := by
  cases nftTurn_cases hs with
  | executed h => exact Nat.le_of_eq h.counter.symm
  | minting => exact Nat.le_succ _
  | minted => exact Nat.le_refl _

theorem counter_le_run {c c' : NftConfig K} {tr : List (NftConfig K × Option (Address × NftCall))}
    (h : Run (Turn (nftCalls k)) c tr c') : c.state.tokenIdCounter ≤ c'.state.tokenIdCounter :=
  h.invariant (fun d => c.state.tokenIdCounter ≤ d.state.tokenIdCounter) (fun _ _ => True)
    (fun _ _ _ hle _ hs => Nat.le_trans hle (counter_le_turn hs)) (Nat.le_refl _) fun _ _ => trivial

theorem asksKyc_turn {c c' : NftConfig K} {l : Option (Address × NftCall)} (hc : Steady c)
    (hs : Turn (nftCalls k) c l c') {t : Nat} (ht : t < c.state.tokenIdCounter)
    (hlive : c'.state.exists_ t) : c.state.exists_ t ∧ asksKyc c' t = asksKyc c t := by
  cases nftTurn_cases hs with
  | @executed s s' p a i h =>
    have hsame : s.exists_ t ∧ (s'.tickets t).kycRequired = (s.tickets t).kycRequired := by
      cases h.token t with
      | moved _ hlive' _ _ _ _ _ ht' => exact ⟨hlive', by rw [ht']⟩
      | burned _ _ ho' => exact absurd ho' hlive
      | kept _ ho' price ht' => exact ⟨by rwa [TicketNft.exists_, ← ho'], by rw [ht']⟩
    refine ⟨hsame.1, ?_⟩
    simp only [asksKyc, hsame.2]
  | @minting s p a r e n f q u he hr =>
    cases hc.phase with
    | minting he' => exact absurd (he.symm.trans he') (by simp)
    | rest _ =>
      have hne : t ≠ s.tokenIdCounter := Nat.ne_of_lt ht
      have hold := ((exists_minting hr t).mp hlive).resolve_left hne
      refine ⟨hold, ?_⟩
      simp [asksKyc, Ne.symm hne, TicketNft.minting, TicketNft.setOwnerOf]
  | @minted s =>
    cases hc.phase with
    | minting =>
      refine ⟨hlive, ?_⟩
      by_cases hnew : s.tokenIdCounter = t
      · subst hnew
        simp [asksKyc, TicketNft.recordTicket, newTicket]
      · simp [asksKyc, TicketNft.recordTicket, hnew, Ne.symm hnew]

theorem minting_turn {c c' : NftConfig K} {a r : Address} {e : Bytes32} {n f : Nat} {q : Bool}
    {u : String} (hs : Turn (nftCalls k) c (some (a, .mintTicket r e n f q u)) c') :
    c'.state.tokenIdCounter = c.state.tokenIdCounter + 1 ∧
      asksKyc c' c.state.tokenIdCounter = q := by
  cases nftTurn_cases hs with
  | executed h => cases h
  | minting => exact ⟨rfl, by simp [asksKyc]⟩

theorem asksKyc_of_minted {deployer : Address}
    {tr : List (NftConfig K × Option (Address × NftCall))} {c : NftConfig K}
    (h : Run (Turn (nftCalls k)) (.start (.deployed deployer)) tr c) {t : Nat}
    (hm : MintedWithKyc tr t) (hlive : c.state.exists_ t) : asksKyc c t = true := by
  induction h with
  | nil =>
    obtain ⟨p, hp, -⟩ := hm
    exact absurd hp List.not_mem_nil
  | @snoc tr d c l hr hs ih =>
    have hd : Steady d := .of_run hr
    obtain ⟨p, hp, a, r, e, n, f, u, hlabel, ht⟩ := hm
    rcases List.mem_append.mp hp with hp | hp
    · obtain ⟨pre, post, v, rfl, -, hmint, hrest⟩ := hr.split hp
      have hlt : t < d.state.tokenIdCounter := by
        rw [hlabel] at hmint
        have hstep := (minting_turn hmint).1
        have hle := counter_le_run hrest
        omega
      obtain ⟨hold, heq⟩ := asksKyc_turn hd hs hlt hlive
      rw [heq]
      exact ih ⟨p, hp, a, r, e, n, f, u, hlabel, ht⟩ hold
    · obtain rfl := List.mem_singleton.mp hp
      obtain rfl : l = _ := hlabel
      subst ht
      exact (minting_turn hs).2

theorem transfer_gate {c c' : NftConfig K} {a source recipient : Address} {t : Nat}
    (hs : Turn (nftCalls k) c (some (a, .transferFrom source recipient t)) c') :
    c.state.exists_ t ∧
      ((c.state.tickets t).kycRequired = true → c.state.isKYCVerified recipient = true) := by
  cases nftTurn_cases hs with
  | executed h =>
    cases h with
    | transferFrom _ hlive _ _ _ hkyc => exact ⟨hlive, hkyc⟩

/-- The tokens minted with `kycRequired` go to verified accounts alone exactly when they do so
before their mints return. -/
theorem kyc_gated_iff (deployer : Address) {tr : List (NftConfig K × Option (Address × NftCall))}
    {c : NftConfig K} (h : Run (Turn (nftCalls k)) (.start (.deployed deployer)) tr c) :
    KycGated tr ↔ ∀ p ∈ tr, CallbackGated p.1 p.2 := by
  constructor
  · intro hg p hp w hw a r e n f u hcall b source recipient hlabel
    obtain ⟨pre, post, _, rfl, hpre, -⟩ := h.split hp
    obtain ⟨q, hq⟩ := Turn.mem_of_pending hpre hw
    have hminted : MintedWithKyc (pre ++ p :: post) w.1.tokenIdCounter :=
      ⟨_, List.mem_append_left _ hq, a, r, e, n, f, u, congrArg some hcall, rfl⟩
    exact hg p hp b source recipient _ hlabel hminted
  · intro hg p hp a source recipient t hlabel hm
    have hcallback := hg p hp
    obtain ⟨pre, post, v, rfl, hpre, hstep, hpost⟩ := h.split hp
    obtain ⟨d, l⟩ := p
    obtain rfl : l = _ := hlabel
    obtain ⟨hlive, hgate⟩ := transfer_gate hstep
    have hd : Steady d := .of_run hpre
    have hlt := hd.lt_of_exists hlive
    have hminted : MintedWithKyc pre t := by
      obtain ⟨q, hq, b, r, e, n, f, u, hmint, ht⟩ := hm
      rcases List.mem_append.mp hq with hq | hq
      · exact ⟨q, hq, b, r, e, n, f, u, hmint, ht⟩
      · rcases List.mem_cons.mp hq with rfl | hq
        · simp at hmint
        · obtain ⟨_, _, _, rfl, hbetween, -⟩ := hpost.split hq
          have hle : d.state.tokenIdCounter ≤ v.state.tokenIdCounter := counter_le_turn hstep
          have hle' := counter_le_run hbetween
          omega
    have hasks := asksKyc_of_minted hpre hminted hlive
    cases hd.phase with
    | rest _ => exact hgate hasks
    | @minting s s₀ b r e n f q u he hc hr =>
      by_cases hnew : s₀.tokenIdCounter = t
      · subst hnew
        obtain rfl : q = true := by simpa [asksKyc] using hasks
        exact hcallback _ (List.mem_singleton_self _) b r e n f u rfl a source recipient rfl
      · have hticket : (s.tickets t).kycRequired = true := by simpa [asksKyc, hnew] using hasks
        exact hgate hticket

end Turns

section Demo

def demoKycMint (recipient : Address) : Option (Address × NftCall) :=
  some (1, .mintTicket recipient 7 1 100 true "ipfs://QmTest")

def demoPass (source recipient : Address) : Option (Address × NftCall) :=
  some (source, .transferFrom source recipient 0)

def demoVerify (user : Address) : Option (Address × NftCall) := some (1, .setKYCVerified user true)

def demoStart : NftConfig (Bytes32 × Nat) := .start (.deployed 1)

/-- The recipient of a mint passes the token on at once. -/
theorem callback_passes_gate :
    ¬ ∀ (K : Type) (_ : DecidableEq K) (k : Keccak K) (deployer : Address)
      (tr : List (NftConfig K × Option (Address × NftCall))) (c : NftConfig K),
      Run (Turn (nftCalls k)) (.start (.deployed deployer)) tr c → KycGated tr := by
  intro h
  have hrun := Config.run_played (nftCalls demoKeccak) demoStart
    [demoKycMint 2, demoPass 2 3, none] (by decide)
  have hgate := h _ _ _ _ _ _ hrun _ (List.mem_cons_of_mem _ List.mem_cons_self) 2 2 3 0 rfl
    ⟨_, List.mem_cons_self, 1, 2, 7, 1, 100, _, rfl, rfl⟩
  exact absurd hgate (by decide)

theorem verified_buyer_gated :
    KycGated (Run.record (Config.played (nftCalls demoKeccak)) demoStart
      [demoKycMint 2, none, demoVerify 3, demoPass 2 3]) := by
  refine (kyc_gated_iff 1 (Config.run_played (nftCalls demoKeccak) demoStart _ (by decide))).mpr ?_
  intro p hp
  simp only [Run.record, List.mem_cons, List.not_mem_nil, or_false] at hp
  intro w hw a r e n f u hcall b source recipient hlabel
  rcases hp with rfl | rfl | rfl | rfl
  · cases hlabel
  · cases hlabel
  · cases hlabel
  · cases hw

end Demo

end CrowdTic
