import CrowdTic.SignTx

/-! Numbers that are written as text for an Ethereum node and read back
(`internal/blockchain/abi.go`). What is read are bytes, and a number of an odd
number of digits has a digit too few. -/

namespace CrowdTic

/-- The bytes that the digits stand for, as a number of a fixed width. -/
def parseHex {α : Type} (convert : Nat → α) (s : List UInt8) : Except Hex.DecodeError α :=
  match Hex.decodeString (Hex.trim0x s) with
  | (b, none) => .ok (convert (BigEndian.toNat b))
  | (_, some err) => .error err

def parseHexInt64 (s : List UInt8) : Except Hex.DecodeError Int64 := parseHex Int64.ofNat s

def parseHexUint64 (s : List UInt8) : Except Hex.DecodeError UInt64 := parseHex UInt64.ofNat s

/-- A number as JSON-RPC has it: no leading zeros, and `0x0` for zero. -/
def quantity (n : Nat) : List UInt8 := 48 :: 120 :: Hex.ofNat n

theorem parseHex_quantity {α : Type} (convert : Nat → α) (n : Nat) :
    parseHex convert (quantity n) = if Hex.Whole n then .ok (convert n) else .error .length := by
  rw [parseHex, quantity, Hex.trim0x_cons]
  by_cases h : Hex.Whole n
  · rw [h.decodeString, if_pos h]
    show Except.ok (convert (BigEndian.toNat (BigEndian.bytes n))) = _
    rw [BigEndian.toNat_bytes]
  · obtain ⟨bs, hbs⟩ := Hex.decodeString_of_not_whole h
    rw [hbs, if_neg h]

/-- The identifier of a chain meets with the same fate. -/
theorem parseHexInt64_quantity_iff {n : Nat} (h : n < 2 ^ 63) :
    (∃ id, parseHexInt64 (quantity n) = .ok id ∧ id.toInt = n) ↔ Hex.Whole n := by
  rw [parseHexInt64, parseHex_quantity]
  by_cases hn : Hex.Whole n
  · rw [if_pos hn]
    exact ⟨fun _ => hn, fun _ => ⟨_, rfl, Int64.toInt_ofNat_of_lt h⟩⟩
  · rw [if_neg hn]
    constructor
    · intro hread
      obtain ⟨id, hid, -⟩ := hread
      cases hid
    · intro hwhole
      exact absurd hwhole hn

theorem itemBytes_formatHex (n : Nat) :
    itemBytes (formatHex n) = if Hex.Whole n then BigEndian.bytes n else [] := by
  rw [formatHex_natCast, itemBytes, Hex.trim0x_cons]
  by_cases h : Hex.Whole n
  · rw [h.decodeString, if_pos h]
  · obtain ⟨bs, hbs⟩ := Hex.decodeString_of_not_whole h
    rw [hbs, if_neg h]

/-- A number keeps its value when a node sends it, and when it is sent to a node. -/
structure SurvivesTrip (n : UInt64) : Prop where
  read : parseHexUint64 (quantity n.toNat) = .ok n
  written : rlpEncodeItem (.string (formatHex n.toNat)) = Rlp.encodeBytes (BigEndian.bytes n.toNat)

theorem survivesTrip_iff (n : UInt64) : SurvivesTrip n ↔ Hex.Whole n.toNat := by
  constructor
  · intro h
    have hread := h.read
    rw [parseHexUint64, parseHex_quantity] at hread
    by_contra hodd
    rw [if_neg hodd] at hread
    cases hread
  · intro h
    refine ⟨?_, ?_⟩
    · rw [parseHexUint64, parseHex_quantity, if_pos h, UInt64.ofNat_toNat]
    · rw [rlpEncodeItem_string, itemBytes_formatHex, if_pos h]

/-- `0x1` is an error for the one, and no byte at all for the other. -/
theorem one_lost : ¬ ∀ n : UInt64, SurvivesTrip n := by
  intro h
  have hread : parseHexUint64 (quantity 1) = .ok 1 := (h 1).read
  cases hread

end CrowdTic
