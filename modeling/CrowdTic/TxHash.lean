import CrowdTic.SignTx

/-! What the signature of a transaction covers. The list that is hashed has
six entries, and the `v` of the signed transaction promises nine. -/

namespace CrowdTic

/-- The values of a transaction. The text of its data is no longer than a string can be. -/
structure TxValues where
  nonce : UInt64
  gasPrice : UInt64
  gas : UInt64
  recipient : Vector UInt8 20
  value : UInt64
  data : List UInt8
  chainID : UInt64
  short : 2 + 2 * data.length < Nat.pow 2 63

namespace TxValues

def tx (t : TxValues) : Tx where
  nonce := .string (formatHex t.nonce.toNat)
  gasPrice := .string (formatHex t.gasPrice.toNat)
  gas := .string (formatHex t.gas.toNat)
  recipient := .string (48 :: 120 :: Hex.encodeToString t.recipient.toList)
  value := .string (formatHex t.value.toNat)
  data := .string (48 :: 120 :: Hex.encodeToString t.data)

/-- The list of EIP-155. A number stands there as its bytes. -/
def promised (t : TxValues) : List UInt8 :=
  Rlp.encode (.list [.bytes (BigEndian.bytes t.nonce.toNat), .bytes (BigEndian.bytes t.gasPrice.toNat),
    .bytes (BigEndian.bytes t.gas.toNat), .bytes t.recipient.toList,
    .bytes (BigEndian.bytes t.value.toNat), .bytes t.data, .bytes (BigEndian.bytes t.chainID.toNat),
    .bytes [], .bytes []])

end TxValues

/-- The transaction of `MintTicket` -/
def mintTicketTx (addr : List UInt8) (nonce : UInt64) (calldata : List UInt8) : Tx where
  nonce := .string (formatHex nonce.toNat)
  gasPrice := .string [48, 120, 48]
  gas := .string [48, 120, 54, 48, 48, 48, 48]
  recipient := .string addr
  value := .string [48, 120, 48]
  data := .string (48 :: 120 :: Hex.encodeToString calldata)

theorem mintTicketTx_eq (recipient : Vector UInt8 20) (nonce chainID : UInt64) {calldata : List UInt8}
    (h : 2 + 2 * calldata.length < Nat.pow 2 63) :
    mintTicketTx (48 :: 120 :: Hex.encodeToString recipient.toList) nonce calldata =
      (TxValues.mk nonce 0 0x60000 recipient 0 calldata chainID h).tx := by
  have hzero : formatHex 0 = [48, 120, 48] := by decide +kernel
  have hgas : formatHex 0x60000 = [48, 120, 54, 48, 48, 48, 48] := by decide +kernel
  rw [mintTicketTx, ← hgas, ← hzero]
  rfl

/-- The signature covers the whole transaction, and nothing else. -/
structure Binds (t t' : TxValues) : Prop where
  differ : buildRLPUnsigned t.tx ≠ buildRLPUnsigned t'.tx
  left : buildRLPUnsigned t.tx = t.promised
  right : buildRLPUnsigned t'.tx = t'.promised

theorem length_itemBytes_formatHex (n : UInt64) : (itemBytes (formatHex n.toNat)).length ≤ 16 := by
  have hn : n.toNat < 16 ^ 16 := n.toNat_lt
  have htext := Hex.length_ofNat_le (show 0 < 16 by decide) hn
  have hdecode := Hex.length_decodeString_le (Hex.ofNat n.toNat)
  rw [formatHex_natCast, itemBytes, Hex.trim0x_cons]
  split
  · rename_i b hb
    rw [hb] at hdecode
    exact hdecode.trans htext
  · exact Nat.zero_le _

namespace TxValues

def texts (t : TxValues) : List (List UInt8) :=
  [formatHex t.nonce.toNat, formatHex t.gasPrice.toNat, formatHex t.gas.toNat,
    48 :: 120 :: Hex.encodeToString t.recipient.toList, formatHex t.value.toNat,
    48 :: 120 :: Hex.encodeToString t.data]

theorem buildRLPUnsigned_tx (t : TxValues) : buildRLPUnsigned t.tx = rlpEncodeList (t.texts.map .string) := rfl

theorem length_encodeBytes_recipient (t : TxValues) : (Rlp.encodeBytes t.recipient.toList).length ≤ 29 := by
  have hlen : t.recipient.toList.length = 20 := by simp
  have hle := Rlp.length_encodeBytes_le (show t.recipient.toList.length < 256 ^ 8 by omega)
  omega

theorem length_encodeBytes_data (t : TxValues) : (Rlp.encodeBytes t.data).length ≤ t.data.length + 9 := by
  have hword : Nat.pow 2 63 < 256 ^ 8 := by decide
  have hshort := t.short
  exact Rlp.length_encodeBytes_le (by omega)

theorem length_texts (t : TxValues) : (Rlp.encodeAll (listItems t.texts)).length < Nat.pow 2 63 := by
  have hword : Nat.pow 2 63 < 256 ^ 8 := by decide
  have hnumber (n : UInt64) : (Rlp.encodeBytes (itemBytes (formatHex n.toNat))).length ≤ 25 := by
    have hlen := length_itemBytes_formatHex n
    have hle := Rlp.length_encodeBytes_le (show (itemBytes (formatHex n.toNat)).length < 256 ^ 8 by omega)
    omega
  have hrecipient := t.length_encodeBytes_recipient
  have hdata := t.length_encodeBytes_data
  have hnonce := hnumber t.nonce
  have hgasPrice := hnumber t.gasPrice
  have hgas := hnumber t.gas
  have hvalue := hnumber t.value
  have hshort := t.short
  have hbig : 1000 < Nat.pow 2 62 ∧ Nat.pow 2 63 = 2 * Nat.pow 2 62 := by decide
  simp only [texts, listItems, List.map_cons, List.map_nil, itemBytes_encodeToString, Rlp.encodeAll,
    Rlp.encode, List.length_append, List.length_nil]
  omega

theorem length_promised (t : TxValues) : t.promised.length < 256 ^ 8 := by
  have hword : Nat.pow 2 63 + 9 < 256 ^ 8 := by decide
  have hnumber (n : UInt64) : (Rlp.encodeBytes (BigEndian.bytes n.toNat)).length ≤ 17 := by
    have hlen := BigEndian.length_bytes_le_iff.mpr (show n.toNat < 256 ^ 8 from n.toNat_lt)
    have hle := Rlp.length_encodeBytes_le (show (BigEndian.bytes n.toNat).length < 256 ^ 8 by omega)
    omega
  have hrecipient := t.length_encodeBytes_recipient
  have hdata := t.length_encodeBytes_data
  have hempty : (Rlp.encodeBytes []).length = 1 := rfl
  have hnonce := hnumber t.nonce
  have hgasPrice := hnumber t.gasPrice
  have hgas := hnumber t.gas
  have hvalue := hnumber t.value
  have hchain := hnumber t.chainID
  have hshort := t.short
  have hbig : 1000 < Nat.pow 2 62 ∧ Nat.pow 2 63 = 2 * Nat.pow 2 62 := by decide
  have hpayload : (Rlp.encodeAll [.bytes (BigEndian.bytes t.nonce.toNat),
      .bytes (BigEndian.bytes t.gasPrice.toNat), .bytes (BigEndian.bytes t.gas.toNat),
      .bytes t.recipient.toList, .bytes (BigEndian.bytes t.value.toNat), .bytes t.data,
      .bytes (BigEndian.bytes t.chainID.toNat), .bytes [], .bytes []]).length < Nat.pow 2 63 := by
    simp only [Rlp.encodeAll, Rlp.encode, List.length_append, List.length_nil]
    omega
  have hheader := Rlp.length_header_le 0xc0 (hpayload.trans (by omega))
  rw [promised, Rlp.encode, List.length_append]
  omega

theorem buildRLPUnsigned_ne_promised (t : TxValues) : buildRLPUnsigned t.tx ≠ t.promised := by
  intro h
  have hdecode := congrArg Rlp.decode h
  rw [buildRLPUnsigned_tx, decode_rlpEncodeList t.length_texts, promised, Rlp.decode_encode t.length_promised]
    at hdecode
  split at hdecode
  · have hitems := Rlp.list.inj (Option.some.inj hdecode)
    have hsix := congrArg List.length hitems
    simp [texts, listItems] at hsix
  · cases hdecode

/-- Two transactions have one hash when the texts of their fields decode to the same bytes. A text of
an odd number of digits decodes to none, and the chain plays no part. -/
theorem buildRLPUnsigned_eq_iff (t t' : TxValues) :
    buildRLPUnsigned t.tx = buildRLPUnsigned t'.tx ↔ listItems t.texts = listItems t'.texts := by
  rw [buildRLPUnsigned_tx, buildRLPUnsigned_tx]
  have hword : Nat.pow 2 63 < 256 ^ 8 := by decide
  have hparse (t : TxValues) : ∃ isList, Rlp.parse (rlpEncodeList (t.texts.map .string)) =
      some (isList, Rlp.encodeAll (listItems t.texts), []) := by
    rw [← flatMap_rlpEncodeItem]
    apply parse_rlpEncodeList
    rw [flatMap_rlpEncodeItem]
    exact t.length_texts.trans hword
  constructor
  · intro h
    obtain ⟨_, hread⟩ := hparse t
    obtain ⟨_, hread'⟩ := hparse t'
    rw [h, hread'] at hread
    have hpayload := (Prod.mk.inj (Prod.mk.inj (Option.some.inj hread)).2).1
    have hleft := Rlp.decodeAll_encodeAll (le_refl _) (t.length_texts.trans hword)
    have hright := Rlp.decodeAll_encodeAll (le_refl _) (t'.length_texts.trans hword)
    rw [← hpayload, hright] at hleft
    exact (Option.some.inj hleft).symm
  · intro h
    rw [rlpEncodeList, rlpEncodeList, flatMap_rlpEncodeItem, flatMap_rlpEncodeItem, h]

end TxValues

/-- No signature covers the whole transaction. -/
theorem signTx_never_binds (t t' : TxValues) : ¬ Binds t t' :=
  fun h => t.buildRLPUnsigned_ne_promised h.left

def demoTx (nonce : UInt64) : TxValues := ⟨nonce, 0, 0, Vector.replicate 20 0, 0, [], 1, by decide +kernel⟩

/-- The nonces 1 and 2 have an odd number of digits. -/
theorem nonces_collide : ¬ ∀ t t' : TxValues, t ≠ t' → Binds t t' := by
  intro h
  have hne : demoTx 1 ≠ demoTx 2 := fun hsame => by cases congrArg TxValues.nonce hsame
  exact (h (demoTx 1) (demoTx 2) hne).differ (by decide +kernel)

end CrowdTic
