import CrowdTic.BigEndian

/-! Decoding of contract call arguments: one head word for each argument, and
for a string the offset of its tail from the start of the arguments. -/

namespace Abi

inductive Ty
  | address
  | bytes32
  | uint256
  | bool
  | string

inductive Value
  | address (a : Nat)
  | bytes32 (bs : List UInt8)
  | uint256 (n : Nat)
  | bool (b : Bool)
  | string (s : List UInt8)
  deriving DecidableEq

def word (bs : List UInt8) (i : Nat) : Option (List UInt8) :=
  if i + 32 ≤ bs.length then some ((bs.drop i).take 32) else none

def number (bs : List UInt8) (i : Nat) : Option Nat := (word bs i).map BigEndian.toNat

/-- The largest offset and length that a decoder follows. -/
def maxOffset : Nat := 0xffffffffffffffff

def readString (bs : List UInt8) (offset : Nat) : Option (List UInt8) :=
  if offset ≤ maxOffset then
    (number bs offset).bind fun n =>
      if n ≤ maxOffset ∧ offset + 32 + n ≤ bs.length then some ((bs.drop (offset + 32)).take n) else none
  else none

/-- The argument whose head word is at `i`. -/
def read (bs : List UInt8) (i : Nat) : Ty → Option Value
  | .address => (number bs i).bind fun n => if n < Nat.pow 2 160 then some (.address n) else none
  | .bytes32 => (word bs i).map .bytes32
  | .uint256 => (number bs i).map .uint256
  | .bool => (number bs i).bind fun n =>
    if n = 0 then some (.bool false) else if n = 1 then some (.bool true) else none
  | .string => ((number bs i).bind (readString bs)).map .string

def decodeFrom (bs : List UInt8) (i : Nat) : List Ty → Option (List Value)
  | [] => some []
  | t :: ts => (read bs i t).bind fun v => (decodeFrom bs (i + 32) ts).map fun vs => v :: vs

def decode (ts : List Ty) (bs : List UInt8) : Option (List Value) := decodeFrom bs 0 ts

example : decode [.uint256, .string] (List.replicate 31 0 ++ [7] ++ List.replicate 31 0 ++ [64] ++
    List.replicate 31 0 ++ [2, 104, 105] ++ List.replicate 30 0) = some [.uint256 7, .string [104, 105]] := by
  decide +kernel

theorem number_append {w : List UInt8} (hw : w.length = 32) (pre rest : List UInt8) :
    number (pre ++ w ++ rest) pre.length = some (BigEndian.toNat w) := by
  have hle : pre.length + 32 ≤ (pre ++ w ++ rest).length := by
    rw [List.length_append, List.length_append]
    omega
  have hword : ((pre ++ w ++ rest).drop pre.length).take 32 = w := by
    rw [List.append_assoc, List.drop_left, ← hw, List.take_left]
  rw [number, word, if_pos hle, hword, Option.map_some]

theorem decodeFrom_eq_none {bs : List UInt8} {t : Ty} {ts : List Ty} (us : List Ty) {i : Nat}
    (h : read bs (i + 32 * us.length) t = none) : decodeFrom bs i (us ++ t :: ts) = none := by
  induction us generalizing i with
  | nil =>
    have hread : read bs i t = none := h
    rw [List.nil_append, decodeFrom, hread, Option.bind_none]
  | cons u us ih =>
    have hrest : decodeFrom bs (i + 32) (us ++ t :: ts) = none := by
      refine ih ?_
      rw [show i + 32 + 32 * us.length = i + 32 * (u :: us).length by rw [List.length_cons]; omega]
      exact h
    rw [List.cons_append, decodeFrom, hrest]
    cases read bs i u <;> rfl

theorem read_string_eq_none {bs : List UInt8} {i : Nat} (h : ∀ n, number bs i = some n → maxOffset < n) :
    read bs i .string = none := by
  rw [read]
  cases hn : number bs i with
  | none => rfl
  | some n =>
    have hlarge := h n hn
    rw [Option.bind_some, readString, if_neg (by omega), Option.map_none]

end Abi
