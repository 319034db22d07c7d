import CrowdTic.IdentityRegistry

/-! Who holds the tokens of the identity registry. A token stays with the
account that it was minted for, and every verified account has its own. -/

namespace CrowdTic

open Reverts

namespace IdentityRegistry

/-- `_beforeTokenTransfer` -/
def beforeTokenTransfer (source recipient : Address) : Except RegistryRevert Unit :=
  ensure (¬ (source ≠ 0 ∧ recipient ≠ 0)) .soulbound

/-- The transfer of ERC-721, which asks the hook before the token changes hands. -/
def hookedTransfer (s : IdentityRegistry) (msgSender source recipient : Address) (tokenId : Nat) :
    Except RegistryRevert IdentityRegistry := do
  ensure (recipient ≠ 0) .erc721InvalidReceiver
  ensure (s.owners tokenId ≠ 0) .invalidTokenId
  ensure (s.owners tokenId = msgSender ∨ s.operatorApprovals (s.owners tokenId) msgSender = true ∨
    s.tokenApprovals tokenId = msgSender) .erc721InsufficientApproval
  ensure (s.owners tokenId = source) .erc721IncorrectOwner
  beforeTokenTransfer source recipient
  return s.setOwnerOf tokenId recipient

theorem hookedTransfer_eq (s : IdentityRegistry) (msgSender source recipient : Address) (tokenId : Nat) :
    s.hookedTransfer msgSender source recipient tokenId = s.transferFrom msgSender source recipient tokenId := by
  rw [hookedTransfer, transferFrom]
  by_cases hr : recipient ≠ 0
  · by_cases hx : s.owners tokenId ≠ 0
    · by_cases ho : s.owners tokenId = source
      · have hhook : beforeTokenTransfer source recipient = .error .soulbound := by
          rw [beforeTokenTransfer, ensure, if_neg (not_not.mpr ⟨ho ▸ hx, hr⟩)]
        rw [hhook]
        rfl
      · simp only [ensure, if_neg ho]
        rfl
    · simp only [ensure, if_neg hx]
      rfl
  · simp only [ensure, if_neg hr]
    rfl

theorem beforeTokenTransfer_mint (recipient : Address) : beforeTokenTransfer 0 recipient = .ok () := by
  simp [beforeTokenTransfer]

def verified (s : IdentityRegistry) (user : Address) (commitment : Bytes32) : IdentityRegistry :=
  { s with
    commitments := Function.update s.commitments user commitment
    kycVerified := Function.update s.kycVerified user true }

def issued (s : IdentityRegistry) (user : Address) : IdentityRegistry :=
  { s with hasSBT := Function.update s.hasSBT user true }

def revoked (s : IdentityRegistry) (user : Address) : IdentityRegistry :=
  { s with
    kycVerified := Function.update s.kycVerified user false
    commitments := Function.update s.commitments user 0 }

def minting (s : IdentityRegistry) (user : Address) (commitment : Bytes32) : IdentityRegistry :=
  (s.verified user commitment).setOwnerOf user.toNat user

inductive Verification (s : IdentityRegistry) (user : Address) (commitment : Bytes32) :
    Outcome RegistryRevert IdentityRegistry → Prop
  | again (hsbt : s.hasSBT user = true) : Verification s user commitment (.done (s.verified user commitment))
  | first (hsbt : s.hasSBT user = false) (hu : user ≠ 0) (hx : s.owners user.toNat = 0) :
    Verification s user commitment (.asks (s.minting user commitment) fun t => .ok (t.issued user))

theorem verifyZKKYC_ok_iff {s : IdentityRegistry} {a u : Address} {k : Bytes32}
    {o : Outcome RegistryRevert IdentityRegistry} : s.verifyZKKYC a u k = .ok o ↔
      a = s.owner ∧ s.kycVerified u = false ∧ k ≠ 0 ∧ Verification s u k o := by
  rw [verifyZKKYC, ensure_bind_ok_iff, ensure_bind_ok_iff, ensure_bind_ok_iff]
  refine and_congr_right fun _ => and_congr_right fun _ => and_congr_right fun _ => ?_
  dsimp only
  by_cases hsbt : s.hasSBT u = true
  · rw [if_pos hsbt, return_ok_iff]
    constructor
    · rintro rfl
      exact .again hsbt
    · intro h
      cases h with
      | again _ => rfl
      | first hnone _ _ => exact absurd (hsbt.symm.trans hnone) (by simp)
  · rw [if_neg hsbt, ensure_bind_ok_iff, ensure_bind_ok_iff, return_ok_iff]
    constructor
    · rintro ⟨hu, hx, rfl⟩
      exact .first (by simpa using hsbt) hu hx
    · intro h
      cases h with
      | again htrue => exact absurd htrue hsbt
      | first _ hu hx => exact ⟨hu, hx, rfl⟩

theorem transferFrom_reverts (s s' : IdentityRegistry) (msgSender source recipient : Address)
    (tokenId : Nat) : s.transferFrom msgSender source recipient tokenId ≠ .ok s' := by
  intro h
  rw [transferFrom, ensure_bind_ok_iff, ensure_bind_ok_iff, ensure_bind_ok_iff, ensure_bind_ok_iff] at h
  cases h.2.2.2.2

end IdentityRegistry

abbrev RegistryConfig := Config IdentityRegistry (Address × RegistryCall)

/-- Everything a turn of the registry can be. -/
inductive RegistryTurn : RegistryConfig → Option (Address × RegistryCall) → RegistryConfig → Prop
  | again {s : IdentityRegistry} {p : List (IdentityRegistry × Address × RegistryCall)} {a u : Address}
    {k : Bytes32} (hk : k ≠ 0) (hsbt : s.hasSBT u = true) :
    RegistryTurn ⟨s, p⟩ (some (a, .verifyZKKYC u k)) ⟨s.verified u k, p⟩
  | minting {s : IdentityRegistry} {p : List (IdentityRegistry × Address × RegistryCall)} {a u : Address}
    {k : Bytes32} (hk : k ≠ 0) (hu : u ≠ 0) :
    RegistryTurn ⟨s, p⟩ (some (a, .verifyZKKYC u k)) ⟨s.minting u k, (s, a, .verifyZKKYC u k) :: p⟩
  | minted {s t : IdentityRegistry} {p : List (IdentityRegistry × Address × RegistryCall)} {a u : Address}
    {k : Bytes32} : RegistryTurn ⟨t, (s, a, .verifyZKKYC u k) :: p⟩ none ⟨t.issued u, p⟩
  | revoked {s : IdentityRegistry} {p : List (IdentityRegistry × Address × RegistryCall)} {a u : Address} :
    RegistryTurn ⟨s, p⟩ (some (a, .revokeKYC u)) ⟨s.revoked u, p⟩
  | kept {s s' : IdentityRegistry} {p : List (IdentityRegistry × Address × RegistryCall)} {a : Address}
    {i : RegistryCall} (hi : ∀ u k, i ≠ .verifyZKKYC u k) (howners : s'.owners = s.owners)
    (hkyc : s'.kycVerified = s.kycVerified) (hcommitments : s'.commitments = s.commitments)
    (hsbt : s'.hasSBT = s.hasSBT) : RegistryTurn ⟨s, p⟩ (some (a, i)) ⟨s', p⟩

theorem registryCalls_asks {s mid : IdentityRegistry} {a : Address} {i : RegistryCall}
    {resume : IdentityRegistry → Except RegistryRevert IdentityRegistry}
    (h : registryCalls (a, i) s = .ok (.asks mid resume)) : ∃ u k, i = .verifyZKKYC u k ∧ k ≠ 0 ∧ u ≠ 0 ∧
      mid = s.minting u k ∧ resume = fun t => .ok (t.issued u) := by
  cases i with
  | verifyZKKYC u k =>
    obtain ⟨-, -, hk, hv⟩ := IdentityRegistry.verifyZKKYC_ok_iff.mp h
    cases hv with
    | first _ hu _ => exact ⟨u, k, rfl, hk, hu, rfl, rfl⟩
  | transferOwnership newOwner =>
    obtain ⟨-, -, hrest⟩ := (ensure_bind_ok_iff.mp h).imp_right ensure_bind_ok_iff.mp
    cases return_ok_iff.mp hrest
  | renounceOwnership =>
    obtain ⟨-, hrest⟩ := ensure_bind_ok_iff.mp h
    cases return_ok_iff.mp hrest
  | setApprovalForAll operator approved => cases return_ok_iff.mp h
  | _ =>
    obtain ⟨t, -, hdone⟩ := map_ok_iff.mp h
    cases hdone

theorem registryTurn_cases {c c' : RegistryConfig} {l : Option (Address × RegistryCall)}
    (h : Turn registryCalls c l c') : RegistryTurn c l c' := by
  cases h.cases with
  | @done s s' p i hx =>
    obtain ⟨a, i⟩ := i
    cases i with
    | verifyZKKYC u k =>
      obtain ⟨-, -, hk, hv⟩ := IdentityRegistry.verifyZKKYC_ok_iff.mp hx
      cases hv with
      | again hsbt => exact .again hk hsbt
    | revokeKYC u =>
      obtain ⟨t, ht, hdone⟩ := map_ok_iff.mp hx
      obtain ⟨-, hrevoked⟩ := ensure_bind_ok_iff.mp ht
      obtain rfl := return_ok_iff.mp hrevoked
      obtain rfl := Outcome.done.inj hdone
      exact .revoked
    | approve recipient tokenId =>
      obtain ⟨t, ht, hdone⟩ := map_ok_iff.mp hx
      obtain ⟨-, -, hrest⟩ := (ensure_bind_ok_iff.mp ht).imp_right ensure_bind_ok_iff.mp
      obtain rfl := return_ok_iff.mp hrest
      obtain rfl := Outcome.done.inj hdone
      exact .kept (by simp) rfl rfl rfl rfl
    | setApprovalForAll operator approved =>
      obtain rfl := Outcome.done.inj (return_ok_iff.mp hx)
      exact .kept (by simp) rfl rfl rfl rfl
    | transferFrom source recipient tokenId =>
      obtain ⟨t, ht, -⟩ := map_ok_iff.mp hx
      exact absurd ht (s.transferFrom_reverts t a source recipient tokenId)
    | transferOwnership newOwner =>
      obtain ⟨-, -, hrest⟩ := (ensure_bind_ok_iff.mp hx).imp_right ensure_bind_ok_iff.mp
      obtain rfl := Outcome.done.inj (return_ok_iff.mp hrest)
      exact .kept (by simp) rfl rfl rfl rfl
    | renounceOwnership =>
      obtain ⟨-, hrest⟩ := ensure_bind_ok_iff.mp hx
      obtain rfl := Outcome.done.inj (return_ok_iff.mp hrest)
      exact .kept (by simp) rfl rfl rfl rfl
  | @asks s mid p i resume hx =>
    obtain ⟨a, i⟩ := i
    obtain ⟨u, k, rfl, hk, hu, rfl, rfl⟩ := registryCalls_asks hx
    exact .minting hk hu
  | @resumes s t t' mid p i resume hx hr =>
    obtain ⟨a, i⟩ := i
    obtain ⟨u, k, rfl, hk, hu, rfl, rfl⟩ := registryCalls_asks hx
    obtain rfl := Except.ok.inj hr
    exact .minted

/-- A verification of the user waits for the user to accept the token. -/
def Waits (p : List (IdentityRegistry × Address × RegistryCall)) (u : Address) : Prop :=
  ∃ f ∈ p, ∃ k, f.2.2 = .verifyZKKYC u k

theorem waits_cons {s : IdentityRegistry} {p : List (IdentityRegistry × Address × RegistryCall)}
    {a u v : Address} {k : Bytes32} : Waits ((s, a, .verifyZKKYC u k) :: p) v ↔ v = u ∨ Waits p v := by
  constructor
  · rintro ⟨f, hf, k', hk'⟩
    rcases List.mem_cons.mp hf with rfl | hf
    · exact .inl (RegistryCall.verifyZKKYC.inj hk').1.symm
    · exact .inr ⟨f, hf, k', hk'⟩
  · rintro (rfl | ⟨f, hf, hk⟩)
    · exact ⟨_, List.mem_cons_self, k, rfl⟩
    · exact ⟨f, List.mem_cons_of_mem _ hf, hk⟩

/-- The three tables of the registry and the owners of the tokens, while some users may still have to
accept theirs. -/
structure Consistent (c : RegistryConfig) : Prop where
  committed : ∀ u, c.state.kycVerified u = true ↔ c.state.commitments u ≠ 0
  held : ∀ t, c.state.owners t ≠ 0 → (c.state.owners t).toNat = t
  minted : ∀ u, c.state.owners u.toNat ≠ 0 ↔ c.state.hasSBT u = true ∨ Waits c.pending u
  verified : ∀ u, c.state.kycVerified u = true → c.state.owners u.toNat ≠ 0

theorem Consistent.deployed (deployer : Address) : Consistent (.start (.deployed deployer)) where
  committed u := by simp [Config.start, IdentityRegistry.deployed]
  held t ht := absurd rfl ht
  minted u := by simp [Config.start, IdentityRegistry.deployed, Waits]
  verified u hu := by simp [Config.start, IdentityRegistry.deployed] at hu

section Tables

variable {s : IdentityRegistry} {u v : Address} {k : Bytes32}

theorem committed_verified (hs : ∀ v, s.kycVerified v = true ↔ s.commitments v ≠ 0) (hk : k ≠ 0) :
    (s.verified u k).kycVerified v = true ↔ (s.verified u k).commitments v ≠ 0 := by
  by_cases hv : v = u
  · subst hv
    have hself : (s.verified v k).commitments v = k := Function.update_self ..
    rw [hself]
    exact ⟨fun _ => hk, fun _ => Function.update_self ..⟩
  · simpa [IdentityRegistry.verified, hv] using hs v

theorem committed_revoked (hs : ∀ v, s.kycVerified v = true ↔ s.commitments v ≠ 0) :
    (s.revoked u).kycVerified v = true ↔ (s.revoked u).commitments v ≠ 0 := by
  by_cases hv : v = u
  · subst hv
    simp [IdentityRegistry.revoked]
  · simpa [IdentityRegistry.revoked, hv] using hs v

theorem kycVerified_verified_of_ne (hv : v ≠ u) : (s.verified u k).kycVerified v = s.kycVerified v :=
  Function.update_of_ne hv _ _

theorem kycVerified_of_revoked (hv : (s.revoked u).kycVerified v = true) : s.kycVerified v = true := by
  by_cases h : v = u
  · subst h
    simp [IdentityRegistry.revoked] at hv
  · simpa [IdentityRegistry.revoked, h] using hv

theorem owners_minting_user : (s.minting u k).owners u.toNat = u := Function.update_self ..

theorem owners_minting_ne {t : Nat} (ht : t ≠ u.toNat) : (s.minting u k).owners t = s.owners t :=
  Function.update_of_ne ht _ _

end Tables

theorem owners_turn {c c' : RegistryConfig} {l : Option (Address × RegistryCall)}
    (h : Turn registryCalls c l c') {t : Nat} (ht : c.state.owners t ≠ 0) : c'.state.owners t ≠ 0 := by
  cases registryTurn_cases h with
  | again _ _ => exact ht
  | @minting s p a u k _ hu =>
    by_cases hx : t = u.toNat
    · rw [hx, owners_minting_user]
      exact hu
    · rw [owners_minting_ne hx]
      exact ht
  | minted => exact ht
  | revoked => exact ht
  | kept _ howners _ _ _ =>
    rw [howners]
    exact ht

theorem Consistent.turn {c c' : RegistryConfig} {l : Option (Address × RegistryCall)} (hc : Consistent c)
    (h : Turn registryCalls c l c') : Consistent c' := by
  cases registryTurn_cases h with
  | @again s p a u k hk hsbt =>
    refine ⟨fun v => committed_verified hc.committed hk, hc.held, hc.minted, fun v hv => ?_⟩
    by_cases hvu : v = u
    · subst hvu
      exact (hc.minted v).mpr (.inl hsbt)
    · exact hc.verified v ((kycVerified_verified_of_ne hvu).symm.trans hv)
  | @minting s p a u k hk hu =>
    refine ⟨fun v => committed_verified hc.committed hk, fun t ht => ?_, fun v => ?_, fun v hv => ?_⟩
    · by_cases hx : t = u.toNat
      · rw [hx, owners_minting_user]
      · rw [owners_minting_ne hx] at ht ⊢
        exact hc.held t ht
    · rw [waits_cons]
      by_cases hvu : v = u
      · subst hvu
        rw [owners_minting_user]
        exact ⟨fun _ => .inr (.inl rfl), fun _ => hu⟩
      · rw [owners_minting_ne (mt BitVec.eq_of_toNat_eq hvu), or_iff_right hvu]
        exact hc.minted v
    · by_cases hvu : v = u
      · subst hvu
        rw [owners_minting_user]
        exact hu
      · have hkyc : (s.verified u k).kycVerified v = true := hv
        rw [kycVerified_verified_of_ne hvu] at hkyc
        rw [owners_minting_ne (mt BitVec.eq_of_toNat_eq hvu)]
        exact hc.verified v hkyc
  | @minted s t p a u k =>
    refine ⟨hc.committed, hc.held, fun v => ?_, hc.verified⟩
    have hold := hc.minted v
    rw [waits_cons] at hold
    show t.owners v.toNat ≠ 0 ↔ Function.update t.hasSBT u true v = true ∨ Waits p v
    by_cases hvu : v = u
    · subst hvu
      rw [Function.update_self]
      exact ⟨fun _ => .inl rfl, fun _ => hold.mpr (.inr (.inl rfl))⟩
    · rw [Function.update_of_ne hvu, hold, or_iff_right hvu]
  | @revoked s p a u =>
    exact ⟨fun v => committed_revoked hc.committed, hc.held, hc.minted,
      fun v hv => hc.verified v (kycVerified_of_revoked hv)⟩
  | @kept s s' p a i hi howners hkyc hcommitments hsbt =>
    obtain ⟨hcommitted, hheld, hminted, hverified⟩ := hc
    constructor
    · simpa only [hkyc, hcommitments] using hcommitted
    · simpa only [howners] using hheld
    · simpa only [howners, hsbt] using hminted
    · simpa only [howners, hkyc] using hverified

theorem Consistent.of_run {deployer : Address}
    {tr : List (RegistryConfig × Option (Address × RegistryCall))} {c : RegistryConfig}
    (h : Run (Turn registryCalls) (.start (.deployed deployer)) tr c) : Consistent c :=
  h.invariant Consistent (fun _ _ => True) (fun _ _ _ hi _ hs => hi.turn hs) (.deployed deployer)
    fun _ _ => trivial

def WasVerified (tr : List (RegistryConfig × Option (Address × RegistryCall))) (u : Address) : Prop :=
  ∃ p ∈ tr, ∃ a k, p.2 = some (a, .verifyZKKYC u k)

theorem owners_of_wasVerified {deployer : Address}
    {tr : List (RegistryConfig × Option (Address × RegistryCall))} {c : RegistryConfig}
    (h : Run (Turn registryCalls) (.start (.deployed deployer)) tr c) {u : Address}
    (hu : WasVerified tr u) : c.state.owners u.toNat ≠ 0 := by
  obtain ⟨q, hq, a, k, hl⟩ := hu
  obtain ⟨pre, post, d, -, hpre, hturn, hpost⟩ := h.split hq
  have hc : Consistent q.1 := .of_run hpre
  have hd : d.state.owners u.toNat ≠ 0 := by
    rw [hl] at hturn
    generalize q.1 = e at hc hturn
    cases registryTurn_cases hturn with
    | again _ hsbt => exact (hc.minted u).mpr (.inl hsbt)
    | minting _ hu0 =>
      rw [owners_minting_user]
      exact hu0
    | kept hi _ _ _ _ => exact absurd rfl (hi u k)
  exact hpost.invariant (fun e => e.state.owners u.toNat ≠ 0) (fun _ _ => True)
    (fun _ _ _ hi _ hs => owners_turn hs hi) hd fun _ _ => trivial

/-- What holds of a user who has no verification waiting. -/
structure Soulbound (tr : List (RegistryConfig × Option (Address × RegistryCall))) (s : IdentityRegistry)
    (u : Address) : Prop where
  verified_iff : s.kycVerified u = true ↔ s.commitments u ≠ 0
  hasSBT_of_verified : s.kycVerified u = true → s.hasSBT u = true
  hasSBT_iff : s.hasSBT u = true ↔ s.owners u.toNat ≠ 0
  owner_eq : ∀ t, s.owners t ≠ 0 → (s.owners t).toNat = t
  at_most_one : ∀ t t', u ≠ 0 → s.owners t = u → s.owners t' = u → t = t'
  reverified : WasVerified tr u → s.kycVerified u = false → ∀ k, k ≠ 0 →
    s.verifyZKKYC s.owner u k = .ok (.done (s.verified u k))

theorem soulbound_of_run {deployer : Address}
    {tr : List (RegistryConfig × Option (Address × RegistryCall))} {c : RegistryConfig}
    (h : Run (Turn registryCalls) (.start (.deployed deployer)) tr c) {u : Address}
    (hu : ¬ Waits c.pending u) : Soulbound tr c.state u := by
  have hc : Consistent c := .of_run h
  have hminted := hc.minted u
  rw [or_iff_left hu] at hminted
  refine ⟨hc.committed u, fun hv => hminted.mp (hc.verified u hv), hminted.symm, hc.held,
    fun t t' hu0 ht ht' => ?_, fun hwas hkyc k hk => ?_⟩
  · have hheld := hc.held t (ht ▸ hu0)
    have hheld' := hc.held t' (ht' ▸ hu0)
    rw [← hheld, ← hheld', ht, ht']
  · have hsbt := hminted.mp (owners_of_wasVerified h hwas)
    exact IdentityRegistry.verifyZKKYC_ok_iff.mpr ⟨rfl, hkyc, hk, .again hsbt⟩

def demoRevocation : List (Option (Address × RegistryCall)) :=
  [some (1, .verifyZKKYC 2 7), none, some (1, .revokeKYC 2)]

def demoRegistry : RegistryConfig := .start (.deployed 1)

theorem demo_reverified :
    let s := (demoRevocation.foldl (Config.played registryCalls) demoRegistry).state
    s.verifyZKKYC 1 2 9 = .ok (.done (s.verified 2 9)) := by
  have hrun := Config.run_played registryCalls demoRegistry demoRevocation (by decide)
  have hrest : (demoRevocation.foldl (Config.played registryCalls) demoRegistry).pending = [] := rfl
  have hnot : ¬ Waits (demoRevocation.foldl (Config.played registryCalls) demoRegistry).pending 2 := by
    simp [Waits, hrest]
  exact (soulbound_of_run hrun hnot).reverified ⟨_, List.mem_cons_self, 1, 7, rfl⟩ rfl 9 (by decide)

end CrowdTic
