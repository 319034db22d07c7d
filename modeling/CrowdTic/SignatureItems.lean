import CrowdTic.Der
import CrowdTic.TxHash

/-! What `signTx` writes for a signature. It cuts the serialized signature at
fixed places, as if it were `r` and `s` in 32 bytes each, but the signature is
serialized in DER. -/

namespace CrowdTic

/-- A list that goes on as `p` and itself repeats `p`. -/
theorem eq_take_replicate {α : Type*} {p xs : List α} {n k : Nat} (h : xs = (p ++ xs).take n)
    (hk : n ≤ k * p.length) : xs = (List.replicate k p).flatten.take n := by
  have hcut (ys : List α) : (p ++ ys.take n).take n = (p ++ ys).take n := by
    rw [List.take_append, List.take_append, List.take_take, Nat.min_eq_left (by omega)]
  have hrepeat (j : Nat) : xs = ((List.replicate j p).flatten ++ xs).take n := by
    induction j with
    | zero =>
      have hlen : xs.length ≤ n := by
        rw [h]
        exact List.length_take_le n _
      exact (List.take_of_length_le hlen).symm
    | succ j ih =>
      rw [List.replicate_succ, List.flatten_cons, List.append_assoc, ← hcut, ← ih]
      exact h
  have hlen : n ≤ (List.replicate k p).flatten.length := by
    simpa using hk
  have hwhole := hrepeat k
  rwa [List.take_append_of_le_length hlen] at hwhole

def groupOrder : Nat := 0xfffffffffffffffffffffffffffffffebaaedce6af48a03bbfd25e8cd0364141

@[ext] structure Signature where
  r : Nat
  s : Nat
  r_pos : 1 ≤ r
  r_lt : r < groupOrder
  s_pos : 1 ≤ s
  s_lt : s < groupOrder

/-- `Serialize` of the signature -/
def Signature.serialize (sig : Signature) : List UInt8 := Der.signature sig.r sig.s

/-- `r` and `s` stand where `signTx` looks for them. -/
structure Signature.Cut (sig : Signature) : Prop where
  long : 64 ≤ sig.serialize.length
  r_eq : sig.serialize.take 32 = BigEndian.bytes sig.r
  s_eq : (sig.serialize.drop 32).take 32 = BigEndian.bytes sig.s

/-- The signature that reads itself in its own encoding. -/
def loopSignature : Signature where
  r := 0x3044022030440220304402203044022030440220304402203044022030440220
  s := 0x3044022002203044022002203044022002203044022002203044022002203044
  r_pos := by decide
  r_lt := by decide
  s_pos := by decide
  s_lt := by decide

theorem loopSignature_cut : loopSignature.Cut where
  long := by decide +kernel
  r_eq := by decide +kernel
  s_eq := by decide +kernel

theorem integer_of_bytes {n : Nat} (hint : Der.intBytes n = BigEndian.bytes n)
    (hlen : (BigEndian.bytes n).length = 32) : Der.integer n = [2, 32] ++ BigEndian.bytes n := by
  rw [Der.integer, hint, hlen]
  rfl

/-- Where `r` and `s` are found in place, each of them repeats what stands in front of it. -/
theorem Signature.Cut.eq_loopSignature {sig : Signature} (h : sig.Cut) : sig = loopSignature := by
  obtain ⟨hlong, hr, hs⟩ := h
  have hR : (BigEndian.bytes sig.r).length = 32 := by
    rw [← hr, List.length_take]
    omega
  have hS : (BigEndian.bytes sig.s).length = 32 := by
    rw [← hs, List.length_take, List.length_drop]
    omega
  obtain ⟨l, hl⟩ : ∃ l, l = UInt8.ofNat (Der.integer sig.r ++ Der.integer sig.s).length := ⟨_, rfl⟩
  -- `r` begins with 0x30 like the encoding, and so it has no zero in front
  have hRder := integer_of_bytes (Der.intBytes_of_head hr.symm (by decide)) hR
  have hder : sig.serialize = [48, l, 2, 32] ++ (BigEndian.bytes sig.r ++ Der.integer sig.s) := by
    rw [Signature.serialize, Der.signature, ← hl, hRder]
    rfl
  rw [hder] at hr hs
  have hRloop : BigEndian.bytes sig.r = ([48, l, 2, 32] ++ BigEndian.bytes sig.r).take 32 := by
    rw [← List.append_assoc, List.take_append_of_le_length (by simp [hR])] at hr
    exact hr.symm
  have hRrep := eq_take_replicate hRloop (show 32 ≤ 8 * 4 by decide)
  -- `s` begins with the last four bytes of `r`
  have hdrop : ([48, l, 2, 32] ++ (BigEndian.bytes sig.r ++ Der.integer sig.s)).drop 32 =
      [48, l, 2, 32] ++ Der.integer sig.s := by
    rw [hRrep]
    rfl
  rw [hdrop] at hs
  have hSder := integer_of_bytes (Der.intBytes_of_head hs.symm (by decide)) hS
  have hSloop : BigEndian.bytes sig.s = ([48, l, 2, 32, 2, 32] ++ BigEndian.bytes sig.s).take 32 := by
    rw [hSder] at hs
    exact hs.symm
  have hSrep := eq_take_replicate hSloop (show 32 ≤ 6 * 6 by decide)
  have hlen : l = 68 := by
    rw [hl, hRder, hSder]
    simp [hR, hS]
  rw [hlen] at hRrep hSrep
  apply Signature.ext
  · rw [← BigEndian.toNat_bytes sig.r, hRrep]
    decide +kernel
  · rw [← BigEndian.toNat_bytes sig.s, hSrep]
    decide +kernel

section Signing

variable {Key : Type} {S : Signer Key} {tx : Tx} {keyBytes : List UInt8} {chainID : Int} {key : Key}

/-- The entries of the signed transaction but for the signature -/
def signedEntries (S : Signer Key) (tx : Tx) (key : Key) (chainID : Int) : List Interface :=
  [tx.nonce, tx.gasPrice, tx.gas, tx.recipient, tx.value, tx.data,
    .string (formatHex ((chainID * 2 + 35 + S.parity key).bmod (Nat.pow 2 64)))]

def hexEntry (bs : List UInt8) : Interface := .string (48 :: 120 :: Hex.encodeToString bs)

theorem signTx_eq (chainID : Int) (hkey : S.privKeyFromBytes keyBytes = some key) {sigBytes : List UInt8}
    (hsign : S.sign key (S.keccak256 (buildRLPUnsigned tx)) = sigBytes) :
    signTx S tx keyBytes chainID = if 64 ≤ sigBytes.length then
      .ok (48 :: 120 :: Hex.encodeToString (rlpEncodeList (signedEntries S tx key chainID ++
        [hexEntry (sigBytes.take 32), hexEntry ((sigBytes.drop 32).take 32)]))) else .error .panics := by
  simp only [signTx, hkey, hsign, slice]
  by_cases hlong : 64 ≤ sigBytes.length
  · rw [if_pos (show 32 ≤ sigBytes.length by omega), if_pos hlong, if_pos hlong]
    rfl
  · rw [if_neg hlong, if_neg hlong]
    split <;> rfl

/-- The items that follow the header of the signed transaction, of whatever kind the header is -/
def signedItems (out : List UInt8) : Option (List Rlp) :=
  match Hex.decodeString (Hex.trim0x out) with
  | (bs, none) => (Rlp.parse bs).bind fun p => if p.2.2 = [] then Rlp.decodeAll p.2.1.length p.2.1 else none
  | (_, some _) => none

theorem signedItems_rlpEncodeList {items : List Interface}
    (h : (48 :: 120 :: Hex.encodeToString (rlpEncodeList items)).length < Nat.pow 2 63) :
    signedItems (48 :: 120 :: Hex.encodeToString (rlpEncodeList items)) = some (items.flatMap itemRlp) := by
  have hword : Nat.pow 2 63 < 256 ^ 8 := by decide
  have hpayload : (items.flatMap rlpEncodeItem).length ≤ (rlpEncodeList items).length := by
    rw [rlpEncodeList]
    split <;> simp
  have hsize : (items.flatMap rlpEncodeItem).length < 256 ^ 8 := by
    rw [List.length_cons, List.length_cons, Hex.length_encodeToString] at h
    omega
  obtain ⟨isList, hparse⟩ := parse_rlpEncodeList hsize
  rw [signedItems, Hex.trim0x_cons, Hex.decodeString_encodeToString]
  show ((Rlp.parse (rlpEncodeList items)).bind fun p =>
    if p.2.2 = [] then Rlp.decodeAll p.2.1.length p.2.1 else none) = _
  rw [flatMap_rlpEncodeItem_eq] at hparse hsize
  rw [hparse, Option.bind_some, if_pos rfl]
  exact Rlp.decodeAll_encodeAll (le_refl _) hsize

/-- The call returns, and the last two items that it writes are the signature. -/
def EmitsSignature (S : Signer Key) (tx : Tx) (keyBytes : List UInt8) (chainID : Int) (sig : Signature) :
    Prop :=
  ∃ out items, signTx S tx keyBytes chainID = .ok out ∧ signedItems out =
    some (items ++ [.bytes (BigEndian.bytes sig.r), .bytes (BigEndian.bytes sig.s)])

theorem emitsSignature_iff_cut (hkey : S.privKeyFromBytes keyBytes = some key) {sig : Signature}
    (hsign : S.sign key (S.keccak256 (buildRLPUnsigned tx)) = sig.serialize)
    (hfits : ∀ out, signTx S tx keyBytes chainID = .ok out → out.length < Nat.pow 2 63) :
    EmitsSignature S tx keyBytes chainID sig ↔ sig.Cut := by
  have hsigned := signTx_eq chainID hkey hsign
  have hitems (a b : List UInt8) : (signedEntries S tx key chainID ++ [hexEntry a, hexEntry b]).flatMap itemRlp =
      (signedEntries S tx key chainID).flatMap itemRlp ++ [.bytes a, .bytes b] := by
    rw [List.flatMap_append]
    show _ ++ [Rlp.bytes (itemBytes (48 :: 120 :: Hex.encodeToString a)),
      Rlp.bytes (itemBytes (48 :: 120 :: Hex.encodeToString b))] = _
    rw [itemBytes_encodeToString, itemBytes_encodeToString]
  constructor
  · rintro ⟨out, items, hout, hread⟩
    by_cases hlong : 64 ≤ sig.serialize.length
    · rw [if_pos hlong] at hsigned
      obtain rfl := Except.ok.inj (hsigned.symm.trans hout)
      rw [signedItems_rlpEncodeList (hfits _ hout), hitems] at hread
      obtain ⟨-, hlast⟩ := List.append_inj' (Option.some.inj hread) rfl
      obtain ⟨hr, hlast⟩ := List.cons.inj hlast
      exact ⟨hlong, Rlp.bytes.inj hr, Rlp.bytes.inj (List.cons.inj hlast).1⟩
    · rw [if_neg hlong, hout] at hsigned
      cases hsigned
  · intro h
    rw [if_pos h.long] at hsigned
    refine ⟨_, (signedEntries S tx key chainID).flatMap itemRlp, hsigned, ?_⟩
    rw [signedItems_rlpEncodeList (hfits _ hsigned), hitems, h.r_eq, h.s_eq]

/-- There is one signature that is written as it is. -/
theorem signTx_emits_iff (hkey : S.privKeyFromBytes keyBytes = some key) {sig : Signature}
    (hsign : S.sign key (S.keccak256 (buildRLPUnsigned tx)) = sig.serialize)
    (hfits : ∀ out, signTx S tx keyBytes chainID = .ok out → out.length < Nat.pow 2 63) :
    EmitsSignature S tx keyBytes chainID sig ↔ sig = loopSignature := by
  rw [emitsSignature_iff_cut hkey hsign hfits]
  constructor
  · exact Signature.Cut.eq_loopSignature
  · rintro rfl
    exact loopSignature_cut

end Signing

section Demo

def demoSignature : Signature where
  r := 0x28ef61340bd939bc2195fe537567866003e1a15d3c71ff63e1590620aa636276
  s := 0x67cbe9d8997f761aecb703304b3800ccf555c9f3dc64214b297fb1966a3b6d83
  r_pos := by decide
  r_lt := by decide
  s_pos := by decide
  s_lt := by decide

def demoSigner (sig : Signature) : Signer Unit where
  privKeyFromBytes _ := some ()
  keccak256 _ := Vector.replicate 32 0
  sign _ _ := sig.serialize
  parity _ := 0

def demoMintTx : Tx := mintTicketTx (48 :: 120 :: Hex.encodeToString (List.replicate 20 0x35)) 9 []

theorem length_demoSigned {sig : Signature} (h : sig = demoSignature ∨ sig = loopSignature) :
    ∀ out, signTx (demoSigner sig) demoMintTx [] 1 = .ok out → out.length < Nat.pow 2 63 := by
  intro out hout
  have hlen : (signTx (demoSigner sig) demoMintTx [] 1).toOption.map List.length = some 192 := by
    rcases h with rfl | rfl <;> decide +kernel
  rw [hout] at hlen
  have hlength : out.length = 192 := Option.some.inj hlen
  rw [hlength]
  decide

theorem signature_lost :
    ¬ ∀ (Key : Type) (S : Signer Key) (tx : Tx) (keyBytes : List UInt8) (chainID : Int) (key : Key)
      (sig : Signature), S.privKeyFromBytes keyBytes = some key →
      S.sign key (S.keccak256 (buildRLPUnsigned tx)) = sig.serialize →
      (∀ out, signTx S tx keyBytes chainID = .ok out → out.length < Nat.pow 2 63) →
      EmitsSignature S tx keyBytes chainID sig := by
  intro h
  have hemits := h Unit (demoSigner demoSignature) demoMintTx [] 1 () demoSignature rfl rfl
    (length_demoSigned (.inl rfl))
  have hcut := (emitsSignature_iff_cut rfl rfl (length_demoSigned (.inl rfl))).mp hemits
  have hr : demoSignature.r = loopSignature.r := congrArg Signature.r hcut.eq_loopSignature
  exact absurd hr (by decide)

theorem demo_signature_kept : EmitsSignature (demoSigner loopSignature) demoMintTx [] 1 loopSignature :=
  (signTx_emits_iff rfl rfl (length_demoSigned (.inr rfl))).mpr rfl

end Demo

end CrowdTic
