import CrowdTic.Calldata
import CrowdTic.Quantities
import CrowdTic.Runs
import CrowdTic.SignatureItems

/-! The nonces of the mints that follow the commits (`internal/blockchain/nft.go`).
Every commit starts a goroutine that mints its seats one after another, and all
of them send from one account. -/

namespace CrowdTic

/-- What the calls of `MintTicket` share -/
structure NFTClient (Key : Type) where
  signer : Signer Key
  addr : List UInt8
  keyBytes : List UInt8
  chainID : Int

structure MintArgs where
  recipient : List UInt8
  eventID : Vector UInt8 32
  seatNumber : UInt64
  faceValueWei : Option Int
  kycRequired : Bool
  metadataURI : List UInt8

/-- How far a call of `MintTicket` has come. -/
inductive MintStage
  | counting
  | signing (nonce : UInt64)
  | sent

/-- `mintNFTAsync` with the calls that it has not finished. The first of them is at `stage`. -/
structure MintLoop where
  calls : List MintArgs
  stage : MintStage

/-- The call that a goroutine is at, and those that come after it -/
def MintLoop.current (g : MintLoop) : Option (MintArgs × List MintArgs × MintStage) :=
  match g.calls with
  | [] => none
  | a :: rest => some (a, rest, g.stage)

/-- The transactions that the node has from the account, those that were handed to
`SendRawTransaction`, and the goroutines. -/
structure MintState where
  count : Nat
  sent : List Tx
  loops : List MintLoop

/-- `counted` is an answer of `GetTransactionCount`, `uncounted` a failure of it. A call is `finished`
with its receipt or without. -/
inductive MintEvent
  | commit (calls : List MintArgs)
  | counted (i : Nat)
  | uncounted (i : Nat)
  | broadcast (i : Nat)
  | finished (i : Nat)

section Steps

variable {Key : Type} (N : NFTClient Key)

def NFTClient.mintTx (a : MintArgs) (nonce : UInt64) : Tx :=
  mintTicketTx N.addr nonce (mintTicketSig N.signer.keccak256 a.recipient a.eventID a.seatNumber
    a.faceValueWei a.kycRequired a.metadataURI)

def NFTClient.sign (a : MintArgs) (nonce : UInt64) : Except SignFailure (List UInt8) :=
  signTx N.signer (N.mintTx a nonce) N.keyBytes N.chainID

namespace MintState

def start (base : Nat) : MintState := ⟨base, [], []⟩

def current (s : MintState) (i : Nat) : Option (MintArgs × List MintArgs × MintStage) :=
  s.loops[i]?.bind MintLoop.current

def setLoop (s : MintState) (i : Nat) (calls : List MintArgs) (stage : MintStage) : MintState :=
  { s with loops := s.loops.set i ⟨calls, stage⟩ }

/-- An error ends the call, and a panic ends all goroutines. -/
def step (s : MintState) : MintEvent → Option MintState
  | .commit calls => some { s with loops := s.loops ++ [⟨calls, .counting⟩] }
  | .counted i => match s.current i with
    | some (a, rest, .counting) => match parseHexUint64 (quantity s.count) with
      | .ok nonce => some (s.setLoop i (a :: rest) (.signing nonce))
      | .error _ => some (s.setLoop i rest .counting)
    | _ => none
  | .uncounted i => match s.current i with
    | some (_, rest, .counting) => some (s.setLoop i rest .counting)
    | _ => none
  | .broadcast i => match s.current i with
    | some (a, rest, .signing nonce) => match N.sign a nonce with
      | .ok _ => some { s.setLoop i (a :: rest) .sent with
          count := s.count + 1
          sent := s.sent ++ [N.mintTx a nonce] }
      | .error (.error _) => some (s.setLoop i rest .counting)
      | .error .panics => some { s with loops := [] }
    | _ => none
  | .finished i => match s.current i with
    | some (_, rest, .sent) => some (s.setLoop i rest .counting)
    | _ => none

end MintState

def MintStep (s : MintState) (e : MintEvent) (s' : MintState) : Prop := s.step N e = some s'

/-- Everything a step can be. A call that ends leaves the account as it is. -/
inductive MintCases (s : MintState) : MintEvent → MintState → Prop
  | commit {calls : List MintArgs} :
    MintCases s (.commit calls) { s with loops := s.loops ++ [⟨calls, .counting⟩] }
  | counted {i : Nat} {a : MintArgs} {rest : List MintArgs} {nonce : UInt64}
    (hc : s.current i = some (a, rest, .counting)) (hn : parseHexUint64 (quantity s.count) = .ok nonce) :
    MintCases s (.counted i) (s.setLoop i (a :: rest) (.signing nonce))
  | ended {e : MintEvent} {i : Nat} {rest : List MintArgs}
    (he : ∀ j a rest nonce out, e = .broadcast j → s.current j = some (a, rest, .signing nonce) →
      N.sign a nonce ≠ .ok out) : MintCases s e (s.setLoop i rest .counting)
  | broadcast {i : Nat} {a : MintArgs} {rest : List MintArgs} {nonce : UInt64} {out : List UInt8}
    (hc : s.current i = some (a, rest, .signing nonce)) (hs : N.sign a nonce = .ok out) :
    MintCases s (.broadcast i) { s.setLoop i (a :: rest) .sent with
      count := s.count + 1
      sent := s.sent ++ [N.mintTx a nonce] }
  | panicked {i : Nat} {a : MintArgs} {rest : List MintArgs} {nonce : UInt64}
    (hc : s.current i = some (a, rest, .signing nonce)) (hs : N.sign a nonce = .error .panics) :
    MintCases s (.broadcast i) { s with loops := [] }

variable {N}

theorem mintStep_cases {s s' : MintState} {e : MintEvent} (h : MintStep N s e s') : MintCases N s e s' := by
  rw [MintStep] at h
  cases e with
  | commit calls => exact Option.some.inj h ▸ .commit
  | counted i =>
    simp only [MintState.step] at h
    split at h
    · rename_i a rest hc
      cases hn : parseHexUint64 (quantity s.count) with
      | ok nonce =>
        rw [hn] at h
        exact Option.some.inj h ▸ .counted hc hn
      | error err =>
        rw [hn] at h
        exact Option.some.inj h ▸ .ended (by simp)
    · cases h
  | uncounted i =>
    simp only [MintState.step] at h
    split at h
    · exact Option.some.inj h ▸ .ended (by simp)
    · cases h
  | broadcast i =>
    simp only [MintState.step] at h
    split at h
    · rename_i a rest nonce hc
      cases hs : N.sign a nonce with
      | ok out =>
        rw [hs] at h
        exact Option.some.inj h ▸ .broadcast hc hs
      | error err =>
        cases err with
        | error message =>
          rw [hs] at h
          refine Option.some.inj h ▸ .ended ?_
          intro j a' rest' nonce' out he hc' hs'
          obtain rfl := MintEvent.broadcast.inj he
          simp only [hc, Option.some.injEq, Prod.mk.injEq, MintStage.signing.injEq] at hc'
          obtain ⟨rfl, -, rfl⟩ := hc'
          cases hs.symm.trans hs'
        | panics =>
          rw [hs] at h
          exact Option.some.inj h ▸ .panicked hc hs
    · cases h
  | finished i =>
    simp only [MintState.step] at h
    split at h
    · exact Option.some.inj h ▸ .ended (by simp)
    · cases h

theorem MintLoop.stage_of_current {g : MintLoop} {a : MintArgs} {rest : List MintArgs} {st : MintStage}
    (h : g.current = some (a, rest, st)) : st = g.stage := by
  rw [MintLoop.current] at h
  split at h
  · cases h
  · obtain ⟨-, -, hst⟩ : _ = a ∧ _ = rest ∧ g.stage = st := by simpa using h
    exact hst.symm

theorem current_setLoop {s : MintState} {i j : Nat} {calls : List MintArgs} {stage : MintStage}
    {a : MintArgs} {rest : List MintArgs} {st : MintStage}
    (h : (s.setLoop i calls stage).current j = some (a, rest, st)) :
    st = stage ∨ s.current j = some (a, rest, st) := by
  rw [MintState.current, MintState.setLoop, List.getElem?_set] at h
  split at h
  · split at h
    · exact .inl (MintLoop.stage_of_current h)
    · cases h
  · exact .inr h

theorem current_commit {s : MintState} {calls : List MintArgs} {j : Nat}
    {a : MintArgs} {rest : List MintArgs} {st : MintStage}
    (h : MintState.current { s with loops := s.loops ++ [⟨calls, .counting⟩] } j = some (a, rest, st)) :
    st = .counting ∨ s.current j = some (a, rest, st) := by
  rw [MintState.current, List.getElem?_append] at h
  split at h
  · exact .inr h
  · rw [List.getElem?_singleton] at h
    split at h
    · exact .inl (MintLoop.stage_of_current h)
    · cases h

end Steps

section Nonces

variable {Key : Type} (N : NFTClient Key)

/-- Nothing was sent since the call was told the nonce that it sends. -/
def InTurn (s : MintState) (e : MintEvent) : Prop :=
  ∀ i a rest nonce out, e = .broadcast i → s.current i = some (a, rest, .signing nonce) →
    N.sign a nonce = .ok out → nonce.toNat = s.count

/-- No two transactions carry one nonce. -/
def NoncesDistinct (s : MintState) : Prop := (s.sent.map fun tx => rlpEncodeItem tx.nonce).Nodup

instance (s : MintState) : Decidable (NoncesDistinct s) := inferInstanceAs (Decidable (List.Nodup _))

def nonceItem (n : Nat) : Interface := .string (formatHex n)

/-- What was sent carries the numbers from `base` on, each of which can be read, and a call that signs
was told one of those that the node has had. -/
structure Numbered (base : Nat) (s : MintState) : Prop where
  count_eq : s.count = base + s.sent.length
  carried : s.sent.map Tx.nonce = (List.range' base s.sent.length).map nonceItem
  readable : ∀ n ∈ List.range' base s.sent.length, Hex.Whole n ∧ n < Nat.pow 2 64
  told : ∀ i a rest nonce, s.current i = some (a, rest, .signing nonce) →
    ∃ c, base ≤ c ∧ c ≤ s.count ∧ Hex.Whole c ∧ nonce = .ofNat c

theorem Numbered.start (base : Nat) : Numbered base (.start base) where
  count_eq := rfl
  carried := rfl
  readable n hn := by simp [MintState.start] at hn
  told i a rest nonce h := by simp [MintState.start, MintState.current] at h

theorem nonceItem_inj {n m : Nat} (hn : Hex.Whole n ∧ n < Nat.pow 2 64) (hm : Hex.Whole m ∧ m < Nat.pow 2 64)
    (h : rlpEncodeItem (nonceItem n) = rlpEncodeItem (nonceItem m)) : n = m := by
  have hshort (k : Nat) (hk : k < Nat.pow 2 64) : (BigEndian.bytes k).length < 256 ^ 8 := by
    have hle := BigEndian.length_bytes_le_iff.mpr (show k < 256 ^ 8 from hk)
    omega
  rw [nonceItem, nonceItem, rlpEncodeItem_string, rlpEncodeItem_string, itemBytes_formatHex,
    itemBytes_formatHex, if_pos hn.1, if_pos hm.1] at h
  have hbytes := Rlp.encodeBytes_selfDelimiting.front _ _ [] [] (hshort n hn.2) (hshort m hm.2)
    (congrArg (· ++ []) h)
  rw [← BigEndian.toNat_bytes n, hbytes, BigEndian.toNat_bytes]

theorem Numbered.distinct {base : Nat} {s : MintState} (h : Numbered base s) : NoncesDistinct s := by
  have hsent : (s.sent.map fun tx => rlpEncodeItem tx.nonce) =
      (List.range' base s.sent.length).map fun n => rlpEncodeItem (nonceItem n) := by
    have hmap := congrArg (List.map rlpEncodeItem) h.carried
    rwa [List.map_map, List.map_map] at hmap
  rw [NoncesDistinct, hsent]
  apply List.Nodup.map_on _ (List.nodup_range' 1)
  intro n hn m hm heq
  exact nonceItem_inj (h.readable n hn) (h.readable m hm) heq

theorem whole_of_parseHexUint64 {n : Nat} {nonce : UInt64} (h : parseHexUint64 (quantity n) = .ok nonce) :
    Hex.Whole n ∧ nonce = .ofNat n := by
  rw [parseHexUint64, parseHex_quantity] at h
  by_cases hn : Hex.Whole n
  · rw [if_pos hn] at h
    exact ⟨hn, (Except.ok.inj h).symm⟩
  · rw [if_neg hn] at h
    cases h

variable {N} {base : Nat} {s s' : MintState} {e : MintEvent}

/-- What is known of the calls that sign is kept by a step that tells them nothing. -/
theorem Numbered.of_current (h : Numbered base s) (hcount : s'.count = s.count) (hsent : s'.sent = s.sent)
    (htold : ∀ i a rest nonce, s'.current i = some (a, rest, .signing nonce) →
      s.current i = some (a, rest, .signing nonce) ∨ Hex.Whole s.count ∧ nonce = .ofNat s.count) :
    Numbered base s' where
  count_eq := by rw [hcount, hsent, h.count_eq]
  carried := by rw [hsent, h.carried]
  readable := by simpa only [hsent] using h.readable
  told i a rest nonce hc := by
    rw [hcount]
    rcases htold i a rest nonce hc with hold | ⟨hwhole, hnonce⟩
    · exact h.told i a rest nonce hold
    · have hbase := h.count_eq
      exact ⟨s.count, by omega, le_refl _, hwhole, hnonce⟩

theorem Numbered.step (h : Numbered base s) (hturn : InTurn N s e) (hs : MintStep N s e s') :
    Numbered base s' := by
  cases mintStep_cases hs with
  | commit =>
    refine h.of_current rfl rfl ?_
    intro i a rest nonce hc
    rcases current_commit hc with hst | hold
    · cases hst
    · exact .inl hold
  | counted hc hn =>
    refine h.of_current rfl rfl ?_
    intro i a rest nonce hcur
    rcases current_setLoop hcur with hst | hold
    · obtain rfl := MintStage.signing.inj hst
      exact .inr (whole_of_parseHexUint64 hn)
    · exact .inl hold
  | ended he =>
    refine h.of_current rfl rfl ?_
    intro i a rest nonce hcur
    rcases current_setLoop hcur with hst | hold
    · cases hst
    · exact .inl hold
  | panicked hc hp =>
    refine h.of_current rfl rfl ?_
    intro i a rest nonce hcur
    simp [MintState.current] at hcur
  | @broadcast i a rest nonce out hc hsign =>
    have hcount := h.count_eq
    have hnonce := hturn i a rest nonce out rfl hc hsign
    obtain ⟨c, hbase, hle, hwhole, htold⟩ := h.told i a rest nonce hc
    have hmod : nonce.toNat = c % 2 ^ 64 := by rw [htold, UInt64.toNat_ofNat']
    have hmodle := Nat.mod_le c (2 ^ 64)
    have hcurrent : c = s.count := by omega
    have hword := nonce.toNat_lt
    have hconcat : List.range' base (s.sent ++ [N.mintTx a nonce]).length =
        List.range' base s.sent.length ++ [s.count] := by
      rw [List.length_append, List.length_singleton, List.range'_1_concat, ← hcount]
    refine ⟨?_, ?_, ?_, ?_⟩
    · show s.count + 1 = base + (s.sent ++ [N.mintTx a nonce]).length
      rw [List.length_append, List.length_singleton]
      omega
    · show (s.sent ++ [N.mintTx a nonce]).map Tx.nonce = _
      rw [hconcat, List.map_append, List.map_append, h.carried, ← hnonce]
      rfl
    · intro n hn
      rw [hconcat] at hn
      rcases List.mem_append.mp hn with hn | hn
      · exact h.readable n hn
      · obtain rfl := List.mem_singleton.mp hn
        refine ⟨hcurrent ▸ hwhole, ?_⟩
        rw [← hnonce]
        exact hword
    · intro j b rest' nonce' hcur
      rcases current_setLoop hcur with hst | hold
      · cases hst
      · obtain ⟨d, hd, hdle, hdwhole, hdtold⟩ := h.told j b rest' nonce' hold
        exact ⟨d, hd, Nat.le_succ_of_le hdle, hdwhole, hdtold⟩

theorem not_inTurn {N : NFTClient Key} (h : ¬ InTurn N s e) : ∃ i a rest nonce out, e = .broadcast i ∧
    s.current i = some (a, rest, .signing nonce) ∧ N.sign a nonce = .ok out ∧ nonce.toNat ≠ s.count := by
  simpa only [InTurn, not_forall, exists_prop] using h

/-- A call that comes too late repeats the nonce of one that was faster. -/
theorem Numbered.not_distinct (h : Numbered base s) (hturn : ¬ InTurn N s e) (hs : MintStep N s e s')
    (hword : s'.count ≤ 2 ^ 64) : ¬ NoncesDistinct s' := by
  obtain ⟨i, a, rest, nonce, out, rfl, hc, hsign, hne⟩ := not_inTurn hturn
  obtain ⟨c, hbase, hle, -, htold⟩ := h.told i a rest nonce hc
  have hs' : s' = { s.setLoop i (a :: rest) .sent with
      count := s.count + 1
      sent := s.sent ++ [N.mintTx a nonce] } := by
    simp only [MintStep, MintState.step, hc, hsign, Option.some.injEq] at hs
    exact hs.symm
  subst hs'
  have hcount := h.count_eq
  have hle' : s.count + 1 ≤ 2 ^ 64 := hword
  have hnonce : nonce.toNat = c := by
    rw [htold, UInt64.toNat_ofNat', Nat.mod_eq_of_lt (by omega)]
  -- the node had more than `c` transactions, and so it has the one with the nonce `c`
  have hold : nonceItem c ∈ s.sent.map Tx.nonce := by
    rw [h.carried]
    apply List.mem_map_of_mem
    rw [List.mem_range'_1]
    omega
  obtain ⟨tx, htx, htxnonce⟩ := List.mem_map.mp hold
  have hnew : (N.mintTx a nonce).nonce = nonceItem c := by
    rw [← hnonce]
    rfl
  intro hdistinct
  have hmap : ((s.sent ++ [N.mintTx a nonce]).map fun tx => rlpEncodeItem tx.nonce).Nodup := hdistinct
  rw [List.map_append] at hmap
  have hdisjoint := List.disjoint_of_nodup_append hmap
  apply hdisjoint (List.mem_map_of_mem htx)
  rw [htxnonce, ← hnew]
  exact List.mem_singleton_self _

theorem mintStep_mono (hs : MintStep N s e s') : s.sent <+: s'.sent ∧ s.count ≤ s'.count := by
  cases mintStep_cases hs with
  | broadcast _ _ => exact ⟨List.prefix_append _ _, Nat.le_succ _⟩
  | _ => exact ⟨List.prefix_rfl, le_refl _⟩

theorem NoncesDistinct.of_step (hs : MintStep N s e s') (h : NoncesDistinct s') : NoncesDistinct s :=
  h.sublist ((mintStep_mono hs).1.sublist.map _)

theorem Numbered.of_run {tr : List (MintState × MintEvent)} (h : Run (MintStep N) (.start base) tr s)
    (hturn : ∀ p ∈ tr, InTurn N p.1 p.2) : Numbered base s :=
  h.invariant (Numbered base) (InTurn N) (fun _ _ _ hi hg hs => hi.step hg hs) (.start base) hturn

end Nonces

section Demo

def demoClient : NFTClient Unit := ⟨demoSigner demoSignature, 48 :: 120 :: List.replicate 40 53, [], 1⟩

def demoMintArgs (seat : UInt8) : MintArgs := ⟨[], Vector.replicate 32 0, 0, some 0, false, [seat]⟩

/-- The node has 16 transactions, and both calls ask for the nonce before one of them sends. -/
def demoRace : List MintEvent :=
  [.commit [demoMintArgs 1], .commit [demoMintArgs 2], .counted 0, .counted 1, .broadcast 0, .broadcast 1]

def demoInTurn : List MintEvent :=
  [.commit [demoMintArgs 1], .commit [demoMintArgs 2], .counted 0, .broadcast 0, .counted 1, .broadcast 1]

end Demo

end CrowdTic
