import CrowdTic.Abi
import CrowdTic.Hex

/-! The call of `mintTicket` as the booking service writes it
(`internal/blockchain/abi.go`). The address stands there without padding, and
the offset of the string does not count from the start of the arguments, so
that the contract cannot read the call. -/

namespace CrowdTic

/-- `EncodeUint256`: the sign is dropped, and so is what does not fit. -/
def encodeUint256 (v : Option Int) : List UInt8 :=
  match v with
  | none => List.replicate 32 0
  | some v =>
    let blob := BigEndian.bytes v.natAbs
    BigEndian.padded 32 (if 32 < blob.length then blob.drop (blob.length - 32) else blob)

def encodeAddress (addr : List UInt8) : List UInt8 :=
  let a := Hex.trim0x addr
  let a := if a.length < 40 then List.replicate (40 - a.length) 48 ++ a else a
  (Hex.decodeString a).1

def encodeBool (v : Bool) : List UInt8 := List.replicate 31 0 ++ [if v then 1 else 0]

def encodeString (s : List UInt8) : List UInt8 :=
  let padded := (s.length + 31) / 32 * 32
  let buf := encodeUint256 (some 32) ++ encodeUint256 (some s.length) ++ s
  buf ++ List.replicate (64 + padded - buf.length) 0

def encodeBytes32 (b : Vector UInt8 32) : List UInt8 := b.toList

def mintTicketSignature : List UInt8 :=
  "mintTicket(address,bytes32,uint256,uint256,bool,string)".toList.map fun c => .ofNat c.toNat

def funcSelector (keccak256 : List UInt8 → Vector UInt8 32) (sig : List UInt8) : List UInt8 :=
  (keccak256 sig).toList.take 4

def mintTicketSig (keccak256 : List UInt8 → Vector UInt8 32) (recipient : List UInt8)
    (eventID : Vector UInt8 32) (seatNumber : UInt64) (faceValue : Option Int) (kycRequired : Bool)
    (metadataURI : List UInt8) : List UInt8 :=
  funcSelector keccak256 mintTicketSignature ++ encodeAddress recipient ++ encodeBytes32 eventID ++
    encodeUint256 (some seatNumber.toInt64.toInt) ++ encodeUint256 faceValue ++ encodeBool kycRequired ++
    encodeString metadataURI

/-- The text of an address: 40 digits, with `0x` in front or without. -/
structure AddressText where
  digits : List UInt8
  hex : ∀ b ∈ digits, (Hex.digit b).isSome
  length : digits.length = 40
  marked : Bool

def AddressText.text (a : AddressText) : List UInt8 :=
  if a.marked then 48 :: 120 :: a.digits else a.digits

def mintTicketTypes : List Abi.Ty := [.address, .bytes32, .uint256, .uint256, .bool, .string]

/-- The arguments after the selector are read as the ones that were written. -/
def DecodesToArguments (keccak256 : List UInt8 → Vector UInt8 32) (recipient : AddressText)
    (eventID : Vector UInt8 32) (seatNumber : UInt64) (faceValue : BitVec 256) (kycRequired : Bool)
    (metadataURI : List UInt8) : Prop :=
  Abi.decode mintTicketTypes
    ((mintTicketSig keccak256 recipient.text eventID seatNumber (some faceValue.toNat) kycRequired
      metadataURI).drop 4) =
    some [.address (Hex.toNat recipient.digits), .bytes32 eventID.toList, .uint256 seatNumber.toNat,
      .uint256 faceValue.toNat, .bool kycRequired, .string metadataURI]

theorem length_encodeUint256 (v : Option Int) : (encodeUint256 v).length = 32 := by
  cases v with
  | none => rfl
  | some v =>
    refine BigEndian.length_padded ?_
    split
    · rw [List.length_drop]
      omega
    · omega

theorem encodeUint256_32 : encodeUint256 (some 32) = List.replicate 31 0 ++ [32] := by decide +kernel

theorem length_encodeAddress (a : AddressText) : (encodeAddress a.text).length = 20 := by
  have htrim : Hex.trim0x a.text = a.digits := by
    cases hm : a.marked with
    | true => rw [AddressText.text, hm]; rfl
    | false => rw [AddressText.text, hm]; exact Hex.trim0x_of_digits a.hex
  have hlen := a.length
  have heven := (Hex.decodeString_of_even a.hex (by omega)).2
  simp only [encodeAddress, htrim, hlen, Nat.lt_irrefl, if_false]
  omega

/-- The word at the place of the string's offset is the low part of the offset that the code writes
and the high part of the length. -/
theorem number_offset {pre l : List UInt8} (hpre : pre.length = 148) (hl : l.length = 32)
    (rest : List UInt8) :
    ∃ n, Abi.number (pre ++ (List.replicate 31 0 ++ [32]) ++ l ++ rest) 160 = some n ∧
      32 * 256 ^ 12 ≤ n := by
  have hsplit : pre ++ (List.replicate 31 0 ++ [32]) ++ l ++ rest =
      (pre ++ List.replicate 12 0) ++ ((List.replicate 19 0 ++ [32]) ++ l.take 12) ++ (l.drop 12 ++ rest) := by
    have hzeros : (List.replicate 31 0 : List UInt8) = List.replicate 12 0 ++ List.replicate 19 0 := rfl
    conv_lhs => rw [hzeros, ← List.take_append_drop 12 l]
    simp only [List.append_assoc]
  have hat : (pre ++ List.replicate 12 (0 : UInt8)).length = 160 := by
    rw [List.length_append, hpre, List.length_replicate]
  have hword : ((List.replicate 19 0 ++ [32]) ++ l.take 12 : List UInt8).length = 32 := by
    simp [hl]
  have hnumber := Abi.number_append hword (pre ++ List.replicate 12 0) (l.drop 12 ++ rest)
  rw [hat, ← hsplit, BigEndian.toNat_append] at hnumber
  refine ⟨_, hnumber, ?_⟩
  have hhigh : BigEndian.toNat (List.replicate 19 0 ++ [32]) = 32 := by decide +kernel
  have htake : (l.take 12).length = 12 := by rw [List.length_take, hl]; rfl
  rw [hhigh, htake]
  omega

theorem decode_mintTicketSig (keccak256 : List UInt8 → Vector UInt8 32) (recipient : AddressText)
    (eventID : Vector UInt8 32) (seatNumber : UInt64) (faceValue : Option Int) (kycRequired : Bool)
    (metadataURI : List UInt8) :
    Abi.decode mintTicketTypes
      ((mintTicketSig keccak256 recipient.text eventID seatNumber faceValue kycRequired
        metadataURI).drop 4) = none := by
  have hselector : (funcSelector keccak256 mintTicketSignature).length = 4 := by simp [funcSelector]
  have hbool : (encodeBool kycRequired).length = 32 := by simp [encodeBool]
  have hevent : (encodeBytes32 eventID).length = 32 := by simp [encodeBytes32]
  have hpre : (encodeAddress recipient.text ++ encodeBytes32 eventID ++
      encodeUint256 (some seatNumber.toInt64.toInt) ++ encodeUint256 faceValue ++
      encodeBool kycRequired).length = 148 := by
    simp only [List.length_append, length_encodeAddress, hevent, length_encodeUint256, hbool]
  have hargs : ∃ rest, (mintTicketSig keccak256 recipient.text eventID seatNumber faceValue kycRequired
      metadataURI).drop 4 = encodeAddress recipient.text ++ encodeBytes32 eventID ++
        encodeUint256 (some seatNumber.toInt64.toInt) ++ encodeUint256 faceValue ++
        encodeBool kycRequired ++ (List.replicate 31 0 ++ [32]) ++
        encodeUint256 (some metadataURI.length) ++ rest := by
    refine ⟨metadataURI ++ List.replicate (64 + (metadataURI.length + 31) / 32 * 32 -
      (encodeUint256 (some 32) ++ encodeUint256 (some metadataURI.length) ++ metadataURI).length) 0, ?_⟩
    rw [mintTicketSig]
    simp only [List.append_assoc, ← hselector, List.drop_left, encodeString, encodeUint256_32]
  obtain ⟨rest, hrest⟩ := hargs
  obtain ⟨n, hn, hlarge⟩ := number_offset hpre (length_encodeUint256 (some metadataURI.length)) rest
  rw [hrest]
  refine Abi.decodeFrom_eq_none [.address, .bytes32, .uint256, .uint256, .bool] (Abi.read_string_eq_none ?_)
  intro m hm
  obtain rfl : n = m := Option.some.inj (hn.symm.trans hm)
  have hmax : Abi.maxOffset < 32 * 256 ^ 12 := by decide
  omega

/-- The contract reads the arguments of no call. -/
theorem mintTicket_arguments_lost (keccak256 : List UInt8 → Vector UInt8 32) (recipient : AddressText)
    (eventID : Vector UInt8 32) (seatNumber : UInt64) (faceValue : BitVec 256) (kycRequired : Bool)
    (metadataURI : List UInt8) :
    ¬ DecodesToArguments keccak256 recipient eventID seatNumber faceValue kycRequired metadataURI := by
  rw [DecodesToArguments, decode_mintTicketSig]
  nofun

def demoAddress : AddressText := ⟨List.replicate 40 49, by decide +kernel, rfl, true⟩

theorem demo_arguments_lost :
    ¬ ∀ (keccak256 : List UInt8 → Vector UInt8 32) (recipient : AddressText)
      (eventID : Vector UInt8 32) (seatNumber : UInt64) (faceValue : BitVec 256) (kycRequired : Bool)
      (metadataURI : List UInt8),
      DecodesToArguments keccak256 recipient eventID seatNumber faceValue kycRequired metadataURI := by
  intro h
  have hdemo := h (fun _ => Vector.replicate 32 0) demoAddress (Vector.replicate 32 7) 12 1000 true []
  unfold DecodesToArguments at hdemo
  revert hdemo
  decide +kernel

end CrowdTic
