import CrowdTic.Hex
import CrowdTic.Rlp

/-! Signing of a transaction (`internal/blockchain/sign.go`) with the list
encoding written for it. Lists of more than 55 bytes get the header of a
string. -/

namespace CrowdTic

/-- What a field of a transaction can hold. -/
inductive Interface
  | string (s : List UInt8)
  | int (x : Int)
  | int64 (x : Int)
  | other

def encodeLen (length : Nat) : List UInt8 :=
  if length < 56 then [.ofNat length]
  else .ofNat (0xb7 + (BigEndian.bytes length).length) :: BigEndian.bytes length

def rlpEncodeBytes (b : List UInt8) : List UInt8 :=
  if b.length = 0 then [0x80]
  else if b.length = 1 ∧ (b.headD 0).toNat < 0x80 then b
  else if b.length ≤ 55 then .ofNat (0x80 + b.length) :: b
  else encodeLen b.length ++ b

def rlpEncodeItem : Interface → List UInt8
  | .string x =>
    let s := Hex.trim0x x
    if s = [] then [0x80]
    else match Hex.decodeString s with
      | (b, none) => if b.length = 0 then [0x80] else rlpEncodeBytes b
      | (_, some _) => [0x80]
  | .int x => if x = 0 then [0x80] else rlpEncodeBytes (BigEndian.bytes x.natAbs)
  | .int64 x => if x = 0 then [0x80] else rlpEncodeBytes (BigEndian.bytes x.natAbs)
  | .other => []

def rlpEncodeList (items : List Interface) : List UInt8 :=
  let encoded := items.flatMap rlpEncodeItem
  if encoded.length ≤ 55 then .ofNat (0xc0 + encoded.length) :: encoded
  else encodeLen encoded.length ++ encoded

/-- The entries of the transaction that are read. -/
structure Tx where
  nonce : Interface
  gasPrice : Interface
  gas : Interface
  recipient : Interface
  value : Interface
  data : Interface

def buildRLPUnsigned (tx : Tx) : List UInt8 :=
  rlpEncodeList [tx.nonce, tx.gasPrice, tx.gas, tx.recipient, tx.value, tx.data]

/-- The curve and the hash. A signature is a byte string. -/
structure Signer (Key : Type) where
  privKeyFromBytes : List UInt8 → Option Key
  keccak256 : List UInt8 → Vector UInt8 32
  sign : Key → Vector UInt8 32 → List UInt8
  parity : Key → Nat

/-- `0x%x` -/
def formatHex (n : Int) : List UInt8 :=
  48 :: 120 :: (if n < 0 then 45 :: Hex.ofNat n.natAbs else Hex.ofNat n.natAbs)

theorem formatHex_natCast (n : Nat) : formatHex n = 48 :: 120 :: Hex.ofNat n := by
  rw [formatHex, if_neg (by omega), Int.natAbs_natCast]

/-- How a call goes wrong: it returns an error, or it panics. -/
inductive SignFailure
  | error (message : String)
  | panics

/-- `b[low:high]` of bytes that fill their capacity -/
def slice (b : List UInt8) (low high : Nat) : Except SignFailure (List UInt8) :=
  if high ≤ b.length then .ok ((b.drop low).take (high - low)) else .error .panics

def signTx {Key : Type} (S : Signer Key) (tx : Tx) (keyBytes : List UInt8) (chainID : Int) :
    Except SignFailure (List UInt8) :=
  match S.privKeyFromBytes keyBytes with
  | none => .error (.error "invalid key bytes")
  | some key => do
    let unsignedRLP := buildRLPUnsigned tx
    let txHash := S.keccak256 unsignedRLP
    let sigBytes := S.sign key txHash
    let v := (chainID * 2 + 35 + S.parity key).bmod (Nat.pow 2 64)
    let r ← slice sigBytes 0 32
    let s ← slice sigBytes 32 64
    let signedRLP := rlpEncodeList [tx.nonce, tx.gasPrice, tx.gas, tx.recipient, tx.value, tx.data,
      .string (formatHex v), .string (48 :: 120 :: Hex.encodeToString r),
      .string (48 :: 120 :: Hex.encodeToString s)]
    return 48 :: 120 :: Hex.encodeToString signedRLP

theorem rlpEncodeBytes_eq (b : List UInt8) : rlpEncodeBytes b = Rlp.encodeBytes b := by
  cases b with
  | nil => rfl
  | cons x b =>
    by_cases hone : b = []
    · subst hone
      by_cases hx : x.toNat < 0x80
      · simp [rlpEncodeBytes, Rlp.encodeBytes, Rlp.Plain, hx]
      · simp [rlpEncodeBytes, Rlp.encodeBytes, Rlp.Plain, Rlp.header, hx]
    · have hpos := List.length_pos_iff.mpr hone
      have hlen : 1 < (x :: b).length := by
        rw [List.length_cons]
        omega
      have hplain : ¬ Rlp.Plain (x :: b) := fun hp => by
        have hp := hp.1
        omega
      rw [rlpEncodeBytes, Rlp.encodeBytes, if_neg (by omega), if_neg (by omega), if_neg hplain, Rlp.header]
      by_cases hshort : (x :: b).length ≤ 55
      · rw [if_pos hshort, if_pos hshort]
        rfl
      · rw [if_neg hshort, if_neg hshort, encodeLen, if_neg (by omega)]

theorem rlpEncodeBytes_selfDelimiting :
    SelfDelimiting (fun b : List UInt8 => b.length < Nat.pow 2 63) rlpEncodeBytes where
  ne_nil b hb := by
    have hword : Nat.pow 2 63 < 256 ^ 8 := by decide
    rw [rlpEncodeBytes_eq]
    exact Rlp.encodeBytes_selfDelimiting.ne_nil b (hb.trans hword)
  front a b x y ha hb h := by
    have hword : Nat.pow 2 63 < 256 ^ 8 := by decide
    rw [rlpEncodeBytes_eq, rlpEncodeBytes_eq] at h
    exact Rlp.encodeBytes_selfDelimiting.front a b x y (ha.trans hword) (hb.trans hword) h

/-- A concatenation of items tells them apart, and so does the part of it that was read. -/
theorem rlpEncodeBytes_concatenation {xs ys : List (List UInt8)}
    (hx : ∀ b ∈ xs, b.length < Nat.pow 2 63) (hy : ∀ b ∈ ys, b.length < Nat.pow 2 63) :
    (xs.flatMap rlpEncodeBytes = ys.flatMap rlpEncodeBytes ∨
      xs.flatMap rlpEncodeBytes <+: ys.flatMap rlpEncodeBytes ∨
      ys.flatMap rlpEncodeBytes <+: xs.flatMap rlpEncodeBytes → xs <+: ys ∨ ys <+: xs) ∧
    (xs.flatMap rlpEncodeBytes = ys.flatMap rlpEncodeBytes → xs = ys) := by
  have hcode := rlpEncodeBytes_selfDelimiting
  constructor
  · intro h
    rcases h with h | h | h
    · exact .inl (hcode.prefix_of_flatMap_prefix hx hy (h ▸ List.prefix_rfl))
    · exact .inl (hcode.prefix_of_flatMap_prefix hx hy h)
    · exact .inr (hcode.prefix_of_flatMap_prefix hy hx h)
  · intro h
    exact hcode.eq_of_flatMap_eq hx hy h

theorem demo_concatenation : [[0x7f], [0x80]] <+: [[0x7f], [0x80], List.replicate 56 (0 : UInt8)] ∨
    [[0x7f], [0x80], List.replicate 56 (0 : UInt8)] <+: [[0x7f], [0x80]] :=
  (rlpEncodeBytes_concatenation (by simp) (by simp)).1 (.inr (.inl (by decide +kernel)))

/-- The bytes that a text stands for in an item, none if it cannot be decoded. -/
def itemBytes (x : List UInt8) : List UInt8 :=
  match Hex.decodeString (Hex.trim0x x) with
  | (b, none) => b
  | (_, some _) => []

theorem rlpEncodeItem_string (x : List UInt8) : rlpEncodeItem (.string x) = Rlp.encodeBytes (itemBytes x) := by
  have hempty : Rlp.encodeBytes [] = [0x80] := rfl
  rw [itemBytes]
  by_cases hs : Hex.trim0x x = []
  · simp [rlpEncodeItem, hs, Hex.decodeString, hempty]
  · rcases hd : Hex.decodeString (Hex.trim0x x) with ⟨b, _ | e⟩
    · by_cases hb : b.length = 0
      · obtain rfl := List.length_eq_zero_iff.mp hb
        simp [rlpEncodeItem, hs, hd, hempty]
      · simp [rlpEncodeItem, hs, hd, hb, rlpEncodeBytes_eq]
    · simp [rlpEncodeItem, hs, hd, hempty]

theorem itemBytes_encodeToString (bs : List UInt8) :
    itemBytes (48 :: 120 :: Hex.encodeToString bs) = bs := by
  rw [itemBytes, Hex.trim0x_cons, Hex.decodeString_encodeToString]

/-- What an entry is read back as. An entry of another type leaves no item. -/
def itemRlp : Interface → List Rlp
  | .string x => [.bytes (itemBytes x)]
  | .int x => [.bytes (BigEndian.bytes x.natAbs)]
  | .int64 x => [.bytes (BigEndian.bytes x.natAbs)]
  | .other => []

theorem rlpEncodeItem_eq (v : Interface) : rlpEncodeItem v = Rlp.encodeAll (itemRlp v) := by
  have hnumber (x : Int) : (if x = 0 then [0x80] else rlpEncodeBytes (BigEndian.bytes x.natAbs)) =
      Rlp.encodeBytes (BigEndian.bytes x.natAbs) := by
    by_cases hx : x = 0
    · rw [if_pos hx, hx]
      rfl
    · rw [if_neg hx, rlpEncodeBytes_eq]
  cases v with
  | string x => rw [itemRlp, Rlp.encodeAll_singleton, Rlp.encode, rlpEncodeItem_string]
  | int x => rw [itemRlp, Rlp.encodeAll_singleton, Rlp.encode, rlpEncodeItem, hnumber]
  | int64 x => rw [itemRlp, Rlp.encodeAll_singleton, Rlp.encode, rlpEncodeItem, hnumber]
  | other => rfl

theorem flatMap_rlpEncodeItem_eq (items : List Interface) :
    items.flatMap rlpEncodeItem = Rlp.encodeAll (items.flatMap itemRlp) := by
  induction items with
  | nil => rfl
  | cons v items ih => rw [List.flatMap_cons, List.flatMap_cons, Rlp.encodeAll_append, rlpEncodeItem_eq, ih]

theorem rlpEncodeList_eq (items : List Interface) : rlpEncodeList items =
    if (items.flatMap rlpEncodeItem).length ≤ 55 then
      Rlp.header 0xc0 (items.flatMap rlpEncodeItem).length ++ items.flatMap rlpEncodeItem
    else Rlp.encodeBytes (items.flatMap rlpEncodeItem) := by
  rw [rlpEncodeList]
  generalize items.flatMap rlpEncodeItem = payload
  by_cases hshort : payload.length ≤ 55
  · rw [if_pos hshort, if_pos hshort, Rlp.header, if_pos hshort, List.singleton_append]
  · have hplain : ¬ Rlp.Plain payload := fun hp => by
      have hone := hp.1
      omega
    rw [if_neg hshort, if_neg hshort, Rlp.encodeBytes, if_neg hplain, Rlp.header, if_neg hshort, encodeLen,
      if_neg (by omega)]

/-- A list can be taken apart into its header and its items, if not as a list. -/
theorem parse_rlpEncodeList {items : List Interface} (h : (items.flatMap rlpEncodeItem).length < 256 ^ 8) :
    ∃ isList, Rlp.parse (rlpEncodeList items) = some (isList, items.flatMap rlpEncodeItem, []) := by
  rw [rlpEncodeList_eq]
  split
  · have hlist := Rlp.parse_list h []
    rw [List.append_nil] at hlist
    exact ⟨true, hlist⟩
  · have hstring := Rlp.parse_encodeBytes h []
    rw [List.append_nil] at hstring
    exact ⟨false, hstring⟩

def listItems (xs : List (List UInt8)) : List Rlp := xs.map fun x => .bytes (itemBytes x)

theorem flatMap_rlpEncodeItem (xs : List (List UInt8)) :
    (xs.map Interface.string).flatMap rlpEncodeItem = Rlp.encodeAll (listItems xs) := by
  rw [flatMap_rlpEncodeItem_eq, List.flatMap_map, listItems, List.map_eq_flatMap]
  rfl

theorem rlpEncodeList_short {xs : List (List UInt8)} (h : (Rlp.encodeAll (listItems xs)).length ≤ 55) :
    rlpEncodeList (xs.map .string) = Rlp.encode (.list (listItems xs)) := by
  rw [rlpEncodeList_eq, flatMap_rlpEncodeItem, if_pos h, Rlp.encode]

theorem rlpEncodeList_long {xs : List (List UInt8)} (h : 55 < (Rlp.encodeAll (listItems xs)).length) :
    rlpEncodeList (xs.map .string) = Rlp.encode (.bytes (Rlp.encodeAll (listItems xs))) := by
  rw [rlpEncodeList_eq, flatMap_rlpEncodeItem, if_neg (by omega), Rlp.encode]

theorem decode_rlpEncodeList {xs : List (List UInt8)}
    (h : (Rlp.encodeAll (listItems xs)).length < Nat.pow 2 63) :
    Rlp.decode (rlpEncodeList (xs.map .string)) =
      if (Rlp.encodeAll (listItems xs)).length ≤ 55 then some (.list (listItems xs))
      else some (.bytes (Rlp.encodeAll (listItems xs))) := by
  have hword : Nat.pow 2 63 + 9 < 256 ^ 8 := by decide
  by_cases hshort : (Rlp.encodeAll (listItems xs)).length ≤ 55
  · have hheader := Rlp.length_header_le 0xc0 (show (Rlp.encodeAll (listItems xs)).length < 256 ^ 8 by omega)
    rw [if_pos hshort, rlpEncodeList_short hshort, Rlp.decode_encode]
    rw [Rlp.encode, List.length_append]
    omega
  · have hheader := Rlp.length_header_le 0x80 (show (Rlp.encodeAll (listItems xs)).length < 256 ^ 8 by omega)
    rw [if_neg hshort, rlpEncodeList_long (by omega), Rlp.decode_encode]
    rw [Rlp.encode, Rlp.encodeBytes]
    split
    · omega
    · rw [List.length_append]
      omega

def hexItem (t : Hex.Text) : Interface := .string (48 :: 120 :: t.digits)

theorem itemBytes_hex (t : Hex.Text) : itemBytes (48 :: 120 :: t.digits) = t.bytes := by
  rw [itemBytes, Hex.trim0x_cons, t.decode]

theorem rlpEncodeList_hex (items : List Hex.Text) : items.map hexItem =
    (items.map fun t => 48 :: 120 :: t.digits).map Interface.string := by
  rw [List.map_map]
  rfl

theorem listItems_hex (items : List Hex.Text) :
    listItems (items.map fun t => 48 :: 120 :: t.digits) = items.map fun t => .bytes t.bytes := by
  rw [listItems, List.map_map]
  exact List.map_congr_left fun t _ => congrArg Rlp.bytes (itemBytes_hex t)

/-- A list is read back exactly when its items take 55 bytes at most. -/
theorem rlpEncodeList_decodes_iff (items : List Hex.Text)
    (h : (Rlp.encodeAll (items.map fun t => .bytes t.bytes)).length < Nat.pow 2 63) :
    Rlp.decode (rlpEncodeList (items.map hexItem)) = some (.list (items.map fun t => .bytes t.bytes)) ↔
      (Rlp.encodeAll (items.map fun t => .bytes t.bytes)).length ≤ 55 := by
  rw [← listItems_hex] at h
  rw [rlpEncodeList_hex, ← listItems_hex, decode_rlpEncodeList h]
  split
  · simp [*]
  · simp [*]

def zeroText (n : Nat) : Hex.Text where
  digits := List.replicate (2 * n) 48
  hex b hb := by
    rw [List.eq_of_mem_replicate hb]
    rfl
  even := by simp

/-- One item of 56 bytes. -/
theorem long_list_misread :
    ¬ ∀ items : List Hex.Text, (∀ t ∈ items, 2 ≤ t.digits.length) →
      (Rlp.encodeAll (items.map fun t => .bytes t.bytes)).length < Nat.pow 2 63 →
      Rlp.decode (rlpEncodeList (items.map hexItem)) = some (.list (items.map fun t => .bytes t.bytes)) := by
  intro h
  have hlen : (Rlp.encodeAll ([zeroText 56].map fun t => .bytes t.bytes)).length = 58 := by decide +kernel
  have hlist := h [zeroText 56] (by simp [zeroText]) (by rw [hlen]; decide)
  rw [← listItems_hex] at hlen hlist
  have hpow : 58 < Nat.pow 2 63 := by decide
  rw [rlpEncodeList_hex, decode_rlpEncodeList (by omega), if_neg (by omega)] at hlist
  cases hlist

theorem demo_list_read : Rlp.decode (rlpEncodeList ([zeroText 1, zeroText 2].map hexItem)) =
    some (.list ([zeroText 1, zeroText 2].map fun t => .bytes t.bytes)) := by
  have hlen : (Rlp.encodeAll ([zeroText 1, zeroText 2].map fun t => .bytes t.bytes)).length = 4 := by
    decide +kernel
  have hpow : 4 < Nat.pow 2 63 := by decide
  exact (rlpEncodeList_decodes_iff _ (by omega)).mpr (by omega)

end CrowdTic
