import CrowdTic.KycGate
import CrowdTic.Resale

/-! Who decides about KYC. A transfer asks the ticket contract alone, which
knows an account as verified when its owner, or the account it takes for the
identity registry, has said so last. -/

namespace CrowdTic

section Property

variable {K : Type} {D : Deployment}

/-- What a call says about `u`, if it says anything. -/
def NftCall.kycVerdict (u : Address) : NftCall → Option Bool
  | .setKYCVerified user status => if user = u then some status else none
  | _ => none

def ChainCall.kycVerdict (u : Address) : ChainCall → Option Bool
  | .nft i => i.kycVerdict u
  | _ => none

def lastVerdict (tr : List (ChainConfig K D × Option (D.Account × ChainCall))) (u : Address) :
    Option Bool :=
  tr.reverse.findSome? fun p => p.2.bind fun l => l.2.kycVerdict u

/-- A step that hands a ticket that asks for KYC to `recipient`. -/
def KycTransfer (c : ChainConfig K D) (l : Option (D.Account × ChainCall)) (recipient : Address) : Prop :=
  ∃ a source t, nftLabel c l = some (some (a, .transferFrom source recipient t)) ∧
    source ≠ 0 ∧ recipient ≠ 0 ∧ (c.state.nft.tickets t).kycRequired = true

/-- Whoever gets a ticket that asks for KYC is verified in the identity registry. -/
def RegistryGated (tr : List (ChainConfig K D × Option (D.Account × ChainCall))) : Prop :=
  ∀ p ∈ tr, ∀ recipient, KycTransfer p.1 p.2 recipient →
    p.1.state.registry.kycVerified recipient = true

/-- Whoever gets a ticket that asks for KYC is verified in the ticket contract, by the last verdict
of those who may give one. -/
structure VerdictGated (tr : List (ChainConfig K D × Option (D.Account × ChainCall))) : Prop where
  marked : ∀ p ∈ tr, ∀ recipient, KycTransfer p.1 p.2 recipient →
    p.1.state.nft.isKYCVerified recipient = true
  verdict : ∀ pre p post, tr = pre ++ p :: post → ∀ recipient, KycTransfer p.1 p.2 recipient →
    lastVerdict pre recipient = some true
  authority : ∀ p ∈ tr, ∀ a u status, p.2 = some (a, .nft (.setKYCVerified u status)) →
    a.address = p.1.state.nft.identityRegistry ∨ a.address = p.1.state.nft.owner

end Property

section Turns

variable {K : Type}

theorem kycVerdict_label {D : Deployment} (c : ChainConfig K D) (l : Option (D.Account × ChainCall))
    (u : Address) : ((nftLabel c l).bind fun m => m.bind fun i => i.2.kycVerdict u) =
      l.bind fun i => i.2.kycVerdict u := by
  cases l with
  | none =>
    rw [nftLabel]
    split <;> rfl
  | some i =>
    obtain ⟨a, i⟩ := i
    cases i with
    | nft i => rfl
    | registry i => rfl
    | market i => cases i <;> rfl

theorem Executed.kyc {s s' : TicketNft K} {a : Address} {c : NftCall} (h : Executed s a c s')
    (u : Address) : s'.isKYCVerified u = (c.kycVerdict u).getD (s.isKYCVerified u) := by
  cases h with
  | @setKYCVerified v status =>
    by_cases hv : v = u
    · subst hv
      simp [NftCall.kycVerdict]
    · simp [NftCall.kycVerdict, hv, Ne.symm hv]
  | _ => rfl

variable [DecidableEq K] {k : Keccak K}

theorem kyc_nftTurn {c c' : NftConfig K} {l : Option (Address × NftCall)}
    (hs : Turn (nftCalls k) c l c') (u : Address) :
    c'.state.isKYCVerified u = (l.bind fun i => i.2.kycVerdict u).getD (c.state.isKYCVerified u) := by
  cases nftTurn_cases hs with
  | executed h => exact h.kyc u
  | minting => rfl
  | minted => rfl

theorem verdict_nftTurn {c c' : NftConfig K} {a u : Address} {status : Bool}
    (hs : Turn (nftCalls k) c (some (a, .setKYCVerified u status)) c') :
    a = c.state.identityRegistry ∨ a = c.state.owner := by
  cases nftTurn_cases hs with
  | executed h =>
    cases h with
    | setKYCVerified ha => exact ha

variable {D : Deployment}

theorem kyc_turn {c c' : ChainConfig K D} {l : Option (D.Account × ChainCall)}
    (hs : Turn (chainCalls k D) c l c') (u : Address) : c'.state.nft.isKYCVerified u =
      (l.bind fun i => i.2.kycVerdict u).getD (c.state.nft.isKYCVerified u) := by
  rw [← kycVerdict_label c l u]
  rcases nft_turn hs with ⟨hnone, hview⟩ | ⟨m, hm, hturn⟩
  · have hsame : c'.state.nft = c.state.nft := congrArg Config.state hview
    rw [hnone, hsame]
    rfl
  · rw [hm]
    exact kyc_nftTurn hturn u

/-- The marks of the ticket contract are the last verdicts. -/
theorem marked_iff_verdict {wei : Address → Nat}
    {tr : List (ChainConfig K D × Option (D.Account × ChainCall))} {c : ChainConfig K D}
    (h : Run (Turn (chainCalls k D)) (.start (.deployed D wei)) tr c) (u : Address) :
    c.state.nft.isKYCVerified u = true ↔ lastVerdict tr u = some true := by
  induction h with
  | nil => simp [Config.start, Chain.deployed, TicketNft.deployed, lastVerdict]
  | @snoc tr d c l _ hs ih =>
    have hlast : lastVerdict (tr ++ [(d, l)]) u =
        (l.bind fun i => i.2.kycVerdict u).or (lastVerdict tr u) := by
      rw [lastVerdict, List.reverse_concat, List.findSome?_cons]
      cases l.bind fun i => i.2.kycVerdict u <;> rfl
    rw [kyc_turn hs u, hlast]
    cases l.bind fun i => i.2.kycVerdict u with
    | none => simpa using ih
    | some status => simp

theorem kyc_transfer_marked {c c' : ChainConfig K D} {l : Option (D.Account × ChainCall)}
    {recipient : Address} (hs : Turn (chainCalls k D) c l c') (ht : KycTransfer c l recipient) :
    c.state.nft.isKYCVerified recipient = true := by
  obtain ⟨a, source, t, hl, -, -, hkyc⟩ := ht
  rcases nft_turn hs with ⟨hnone, -⟩ | ⟨m, hm, hturn⟩
  · rw [hnone] at hl
    cases hl
  · obtain rfl := Option.some.inj (hm.symm.trans hl)
    exact (transfer_gate hturn).2 hkyc

theorem verdict_authority {c c' : ChainConfig K D} {a : D.Account} {u : Address} {status : Bool}
    (hs : Turn (chainCalls k D) c (some (a, .nft (.setKYCVerified u status))) c') :
    a.address = c.state.nft.identityRegistry ∨ a.address = c.state.nft.owner := by
  rcases nft_turn hs with ⟨hnone, -⟩ | ⟨m, hm, hturn⟩
  · cases hnone
  · obtain rfl := Option.some.inj hm
    exact verdict_nftTurn hturn

/-- In every run, a ticket that asks for KYC goes only where the last verdict is in favour. -/
theorem verdict_gated (k : Keccak K) (wei : Address → Nat)
    {tr : List (ChainConfig K D × Option (D.Account × ChainCall))} {c : ChainConfig K D}
    (h : Run (Turn (chainCalls k D)) (.start (.deployed D wei)) tr c) : VerdictGated tr where
  marked p hp recipient ht := by
    obtain ⟨_, _, _, _, -, hs, -⟩ := h.split hp
    exact kyc_transfer_marked hs ht
  verdict pre p post htr recipient ht := by
    subst htr
    obtain ⟨_, hpre, hs, -⟩ := h.cut
    exact (marked_iff_verdict hpre recipient).mp (kyc_transfer_marked hs ht)
  authority p hp a u status hl := by
    obtain ⟨_, _, _, _, -, hs, -⟩ := h.split hp
    rw [hl] at hs
    exact verdict_authority hs

end Turns

section Demo

def demoManualKyc : List (Option (demoDeployment.Account × ChainCall)) :=
  [some (demoOrganizer, .nft (.mintTicket 2 7 1 100 true "ipfs://QmTest")), none,
    some (demoOrganizer, .nft (.setKYCVerified 3 true)),
    some (demoSeller, .nft (.transferFrom 2 3 0))]

theorem manual_kyc_not_registered :
    ¬ ∀ (K : Type) (_ : DecidableEq K) (k : Keccak K) (D : Deployment) (wei : Address → Nat)
      (tr : List (ChainConfig K D × Option (D.Account × ChainCall))) (c : ChainConfig K D),
      Run (Turn (chainCalls k D)) (.start (.deployed D wei)) tr c → RegistryGated tr := by
  intro h
  have hrun := Config.run_played (chainCalls demoKeccak demoDeployment) demoDeployed demoManualKyc
    (by decide)
  have hgated := h _ _ _ _ _ _ _ hrun _
    (List.mem_cons_of_mem _ (List.mem_cons_of_mem _ (List.mem_cons_of_mem _ List.mem_cons_self)))
    3 ⟨2, 2, 0, rfl, by decide, by decide, by decide⟩
  exact absurd hgated (by decide)

theorem demo_verdict_gated :
    VerdictGated (Run.record (Config.played (chainCalls demoKeccak demoDeployment)) demoDeployed
      demoManualKyc) :=
  verdict_gated demoKeccak demoWei (Config.run_played _ demoDeployed demoManualKyc (by decide))

end Demo

end CrowdTic
