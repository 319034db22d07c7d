import CrowdTic.EdgeGate
import CrowdTic.ExpiringMap
import CrowdTic.RemoteCalls
import CrowdTic.Runs

/-! The allowlist of the `jti`s: the waiting room writes it behind every token
that it signs, and the edge asks it about every token that it sees. -/

namespace CrowdTic

structure IssuedToken where
  userId : String
  eventId : String
  jti : RandomUuid
  atMs : Nat

structure IssuerConfig where
  jwtTtlSec : Int
  jwtIssuer : Option String
  jwtAudience : Option String

namespace IssuedToken

variable (cfg : IssuerConfig) (i : IssuedToken)

def claims : SignClaims := ⟨i.userId, i.eventId, some cfg.jwtTtlSec, cfg.jwtIssuer, cfg.jwtAudience⟩

def payload : Payload := (i.claims cfg).payload i.atMs i.jti

def key : String := jtiKey i.eventId i.jti.str

end IssuedToken

structure GuardSys where
  now : Nat
  jtis : ExpMap String Unit
  issued : List IssuedToken
  verified : List IssuedToken

def GuardSys.start (now : Nat) : GuardSys := ⟨now, fun _ => none, [], []⟩

def GuardSys.lookup (s : GuardSys) (answered : Bool) (k : String) : RedisAnswer :=
  if answered then .result ((s.jtis.get k).map fun _ => "1") else .failed

inductive GuardMove
  | tick (ms : Nat)
  | sign (userId eventId : String) (jti : RandomUuid)
  | verify (i : IssuedToken)
  | register (i : IssuedToken) (fate : CallFate)

/-- `SET` with `EX`, ten seconds more than the lifetime of the token. -/
def GuardSys.register (cfg : IssuerConfig) (s : GuardSys) (i : IssuedToken) : GuardSys :=
  { s with jtis := s.jtis.put i.key () (some (s.now + 1000 * (cfg.jwtTtlSec + 10).toNat)) }

/-- Signing, the check of the signed token and the `SET` are steps of their own. -/
inductive GuardStep (cfg : IssuerConfig) : GuardSys → GuardMove → GuardSys → Prop
  | tick {s : GuardSys} (ms : Nat) :
      GuardStep cfg s (.tick ms) { s with now := s.now + ms, jtis := s.jtis.sweep (s.now + ms) }
  | sign {s : GuardSys} {userId eventId : String} (hu : userId ≠ "") (he : eventId ≠ "")
      (jti : RandomUuid) :
      GuardStep cfg s (.sign userId eventId jti)
        { s with issued := ⟨userId, eventId, jti, s.now⟩ :: s.issued }
  | verify {s : GuardSys} {i : IssuedToken} (hi : i ∈ s.issued)
      (h : (verifyPayload (i.payload cfg) ⟨none, none, none⟩ s.now).accepted = true) :
      GuardStep cfg s (.verify i) { s with verified := i :: s.verified }
  | register {s : GuardSys} {i : IssuedToken} (hi : i ∈ s.verified) (fate : CallFate) :
      GuardStep cfg s (.register i fate) (if fate = .failedBefore then s else s.register cfg i)

/-- The step writes the token into the allowlist. -/
def Registers (i : IssuedToken) (m : GuardMove) : Prop := ∃ fate, m = .register i fate ∧ fate ≠ .failedBefore

section Runs

/-- The keys stand for registered tokens, each of which is there until ten seconds after it expires. -/
structure Guarded (cfg : IssuerConfig) (tr : List (GuardSys × GuardMove)) (s : GuardSys) : Prop where
  verified : ∀ i ∈ s.verified, i ∈ s.issued
  begun : ∀ i ∈ s.issued, i.atMs ≤ s.now
  ids : ∀ i ∈ s.issued, i.userId ≠ "" ∧ i.eventId ≠ ""
  known : ∀ k, s.jtis.get k ≠ none → ∃ i ∈ s.issued, i.key = k ∧ ∃ p ∈ tr, Registers i p.2
  kept : ∀ i, (∃ p ∈ tr, Registers i p.2) → i ∈ s.issued ∧
    (s.jtis.get i.key ≠ none ∧
        (∀ d, s.jtis.ttl i.key = some d → i.atMs + 1000 * (cfg.jwtTtlSec + 10).toNat ≤ d) ∨
      i.atMs + 1000 * (cfg.jwtTtlSec + 10).toNat < s.now)

variable {cfg : IssuerConfig} {tr : List (GuardSys × GuardMove)} {s s' : GuardSys} {m : GuardMove}

theorem Guarded.start (cfg : IssuerConfig) (now : Nat) : Guarded cfg [] (.start now) := by
  constructor <;> simp [GuardSys.start, ExpMap.get]

theorem exists_registers_snoc {i : IssuedToken} (hm : ¬ Registers i m) :
    (∃ p ∈ tr ++ [(s, m)], Registers i p.2) ↔ ∃ p ∈ tr, Registers i p.2 := by
  simp [hm]

/-- A step that writes no token. -/
theorem Guarded.silent (h : Guarded cfg tr s) (hm : ∀ i, ¬ Registers i m) : Guarded cfg (tr ++ [(s, m)]) s where
  verified := h.verified
  begun := h.begun
  ids := h.ids
  known k hk := by
    obtain ⟨i, hi, hkey, hreg⟩ := h.known k hk
    exact ⟨i, hi, hkey, (exists_registers_snoc (hm i)).mpr hreg⟩
  kept i hi := h.kept i ((exists_registers_snoc (hm i)).mp hi)

theorem Guarded.advance (h : Guarded cfg tr s) (ms : Nat) :
    Guarded cfg tr { s with now := s.now + ms, jtis := s.jtis.sweep (s.now + ms) } where
  verified := h.verified
  begun i hi := (h.begun i hi).trans (Nat.le_add_right _ _)
  ids := h.ids
  known k hk := by
    refine h.known k fun hnone => hk ?_
    simp [hnone]
  kept i hi := by
    obtain ⟨hissued, hkept⟩ := h.kept i hi
    refine ⟨hissued, ?_⟩
    rcases hkept with ⟨hget, hlife⟩ | hpast
    · by_cases hl : s.jtis.lapsed (s.now + ms) i.key = true
      · obtain ⟨d, hd, hpast⟩ := (Option.any_eq_true _ _).mp hl
        have hd := hlife d hd
        have hpast : d < s.now + ms := by simpa using hpast
        exact .inr (by show _ < s.now + ms; omega)
      · exact .inl ⟨by simpa [hl] using hget, by simpa [hl] using hlife⟩
    · exact .inr (by show _ < s.now + ms; omega)

theorem Guarded.register (h : Guarded cfg tr s) {i : IssuedToken} (hi : i ∈ s.verified) {fate : CallFate}
    (hf : fate ≠ .failedBefore) :
    Guarded cfg (tr ++ [(s, .register i fate)]) (s.register cfg i) where
  verified := h.verified
  begun := h.begun
  ids := h.ids
  known k hk := by
    by_cases hkey : k = i.key
    · refine ⟨i, h.verified i hi, hkey.symm, (s, .register i fate), by simp, fate, rfl, hf⟩
    · obtain ⟨j, hj, hkey', p, hp, hreg⟩ := h.known k (by simpa [GuardSys.register, hkey] using hk)
      exact ⟨j, hj, hkey', p, List.mem_append_left _ hp, hreg⟩
  kept j hj := by
    have hissued : j ∈ s.issued := by
      obtain ⟨p, hp, fate', hreg, hf'⟩ := hj
      rcases List.mem_append.mp hp with hp | hp
      · exact (h.kept j ⟨p, hp, fate', hreg, hf'⟩).1
      · obtain rfl := List.mem_singleton.mp hp
        obtain ⟨rfl, -⟩ := GuardMove.register.inj hreg
        exact h.verified i hi
    refine ⟨hissued, ?_⟩
    by_cases hkey : j.key = i.key
    · refine .inl ⟨by simp [GuardSys.register, hkey], fun d hd => ?_⟩
      have hbegun := h.begun j hissued
      obtain rfl : s.now + 1000 * (cfg.jwtTtlSec + 10).toNat = d := by
        simpa [GuardSys.register, hkey] using hd
      omega
    · have hne : ¬ Registers j (.register i fate) := by
        rintro ⟨fate', he, -⟩
        obtain ⟨rfl, -⟩ := GuardMove.register.inj he
        exact hkey rfl
      have hkept := (h.kept j ((exists_registers_snoc hne).mp hj)).2
      simpa [GuardSys.register, hkey] using hkept

theorem Guarded.step (h : Guarded cfg tr s) (hs : GuardStep cfg s m s') : Guarded cfg (tr ++ [(s, m)]) s' := by
  cases hs with
  | tick ms =>
    have hsilent := h.silent (m := .tick ms) (by rintro i ⟨_, he, -⟩; cases he)
    exact hsilent.advance ms
  | @sign userId eventId hu he jti =>
    have hsilent := h.silent (m := .sign userId eventId jti) (by rintro i ⟨_, he, -⟩; cases he)
    refine ⟨fun i hi => ?_, fun i hi => ?_, fun i hi => ?_, fun k hk => ?_, fun i hi => ?_⟩
    · exact List.mem_cons_of_mem _ (hsilent.verified i hi)
    · rcases List.mem_cons.mp hi with rfl | hi
      · exact le_rfl
      · exact hsilent.begun i hi
    · rcases List.mem_cons.mp hi with rfl | hi
      · exact ⟨hu, he⟩
      · exact hsilent.ids i hi
    · obtain ⟨i, hi, hkey⟩ := hsilent.known k hk
      exact ⟨i, List.mem_cons_of_mem _ hi, hkey⟩
    · obtain ⟨hissued, hkept⟩ := hsilent.kept i hi
      exact ⟨List.mem_cons_of_mem _ hissued, hkept⟩
  | @verify i hi hv =>
    have hsilent := h.silent (m := .verify i) (by rintro i ⟨_, he, -⟩; cases he)
    refine ⟨fun j hj => ?_, hsilent.begun, hsilent.ids, hsilent.known, hsilent.kept⟩
    rcases List.mem_cons.mp hj with rfl | hj
    · exact hi
    · exact hsilent.verified j hj
  | @register i hi fate =>
    by_cases hf : fate = .failedBefore
    · rw [if_pos hf]
      refine h.silent fun j hj => ?_
      obtain ⟨fate', he, hf'⟩ := hj
      exact hf' ((GuardMove.register.inj he).2 ▸ hf)
    · rw [if_neg hf]
      exact h.register hi hf

theorem Guarded.run {now : Nat} (hr : Run (GuardStep cfg) (.start now) tr s) : Guarded cfg tr s := by
  induction hr with
  | nil => exact .start cfg now
  | snoc _ hs ih => exact ih.step hs

/-- While a token lives whose ids are header values, the edge lets it through to its event, however
often it has been used, exactly when its `jti` has reached the allowlist or the lookup fails. -/
theorem passes_iff_registered {R : EdgeRuntime} {env : EdgeEnv} {req : EdgeRequest} {now : Nat}
    (hissuer : cfg.jwtIssuer = env.jwtIssuer) (haudience : cfg.jwtAudience = env.jwtAudience)
    (hup : env.upstash = true) (hr : Run (GuardStep cfg) (.start now) tr s) {i : IssuedToken}
    (hi : i ∈ s.issued) (hfresh : ∀ j ∈ s.issued, j.key = i.key → j = i) {signed : Signed}
    (hs : signQueueToken R env.secret (i.claims cfg) i.atMs i.jti = some signed)
    (htoken : req.extractToken = some (String.ofList signed.token))
    (hroute : ∀ route ∈ req.extractEventId, route = i.eventId)
    (hlife : (s.now : Int) / 1000 ≤ i.atMs / 1000 + cfg.jwtTtlSec + 5) (answered : Bool) :
    (∃ headers, middleware R env (s.lookup answered) req s.now = .pass headers) ↔
      (headerValue i.userId = true ∧ headerValue i.eventId = true ∧ headerValue i.jti.str = true) ∧
        (answered = true → ∃ p ∈ tr, Registers i p.2) := by
  have hguarded := Guarded.run hr
  obtain ⟨hsecret, rfl⟩ := signQueueToken_some hs
  have hlookup : s.lookup answered i.key ≠ .result none ↔ (answered = true → s.jtis.get i.key ≠ none) := by
    cases answered <;> simp [GuardSys.lookup]
  rw [middleware_compact hsecret htoken]
  constructor
  · rintro ⟨headers, h⟩
    obtain ⟨-, -, -, -, -, hin, hvalues, -⟩ := (checkClaims_signed_iff hissuer haudience _ _ _ _).mp h
    refine ⟨hvalues, fun hanswered => ?_⟩
    obtain ⟨j, hj, hkey, hreg⟩ := hguarded.known i.key (hlookup.mp (hin hup) hanswered)
    exact hfresh j hj hkey ▸ hreg
  · rintro ⟨hvalues, hreg⟩
    have hbegun := hguarded.begun i hi
    have hids := hguarded.ids i hi
    have hget : answered = true → s.jtis.get i.key ≠ none := by
      intro hanswered
      exact ((hguarded.kept i (hreg hanswered)).2.resolve_right fun hpast => by omega).1
    exact ⟨_, (checkClaims_signed_iff hissuer haudience _ _ _ _).mpr
      ⟨hids.1, hids.2, hlife, by omega, hroute, fun _ => hlookup.mpr hget, hvalues, rfl⟩⟩

def demoIssuer : IssuerConfig := ⟨45, some demoSetup.issuer, some demoSetup.audience⟩

def demoIssued : IssuedToken where
  userId := "550e8400-e29b-41d4-a716-446655440030"
  eventId := "550e8400-e29b-41d4-a716-446655440010"
  jti := demoJti
  atMs := demoIssuedMs

theorem demoIssued_signed : signQueueToken demoToken.runtime demoEdgeEnv.secret
    (demoIssued.claims demoIssuer) demoIssued.atMs demoIssued.jti = some demoSigned := by
  have hpayload : (demoIssued.claims demoIssuer).payload demoIssued.atMs demoIssued.jti =
      demoToken.payload := by
    decide
  rw [signQueueToken, if_neg (by decide), hpayload]
  rfl

/-- A token used 44 s after it was signed. -/
theorem passes_iff_registered_late : ∃ tr s headers,
    Run (GuardStep demoIssuer) (.start demoIssuedMs) tr s ∧ s.now = 1790000044000 ∧
      middleware demoToken.runtime demoEdgeEnv (s.lookup true) (holdThrough demoSigned.token) s.now =
        .pass headers := by
  have hmem := List.mem_singleton_self demoIssued
  have hsign : Run (GuardStep demoIssuer) (.start demoIssuedMs) _
      ⟨demoIssuedMs, fun _ => none, [demoIssued], []⟩ := .single (.sign (by decide) (by decide) demoJti)
  have hverify := hsign.snoc (.verify hmem (by decide))
  have hregister := hverify.snoc (.register hmem .answered)
  have hlate := hregister.snoc (.tick 44000)
  have hreg : Registers demoIssued (.register demoIssued .answered) := ⟨.answered, rfl, by decide⟩
  obtain ⟨headers, hpass⟩ := (passes_iff_registered rfl rfl rfl hlate hmem
    (fun j hj _ => List.mem_singleton.mp hj) demoIssued_signed (holdThrough_extractToken _ _ _)
    (by decide) (by decide) true).mpr ⟨by decide, fun _ =>
      ⟨_, List.mem_append_left _ (List.mem_append_right _ (List.mem_singleton_self _)), hreg⟩⟩
  exact ⟨_, _, headers, hlate, rfl, hpass⟩

end Runs

end CrowdTic
