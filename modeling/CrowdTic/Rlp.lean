import CrowdTic.BigEndian
import CrowdTic.PrefixCodes

/-! Recursive length prefix encoding of byte strings and nested lists, and the
strict decoder. Decoding undoes encoding. -/

inductive Rlp
  | bytes (bs : List UInt8)
  | list (items : List Rlp)

namespace Rlp

/-- The header of a payload of `n` bytes, from 0x80 on for strings and from 0xc0 on for lists. -/
def header (base n : Nat) : List UInt8 :=
  if n ≤ 55 then [.ofNat (base + n)]
  else .ofNat (base + 55 + (BigEndian.bytes n).length) :: BigEndian.bytes n

/-- A single small byte is its own encoding. -/
def Plain (bs : List UInt8) : Prop := bs.length = 1 ∧ ∀ b ∈ bs, b.toNat < 0x80

instance (bs : List UInt8) : Decidable (Plain bs) :=
  inferInstanceAs (Decidable (bs.length = 1 ∧ ∀ b ∈ bs, b.toNat < 0x80))

def encodeBytes (bs : List UInt8) : List UInt8 :=
  if Plain bs then bs else header 0x80 bs.length ++ bs

mutual

def encode : Rlp → List UInt8
  | .bytes bs => encodeBytes bs
  | .list items => header 0xc0 (encodeAll items).length ++ encodeAll items

def encodeAll : List Rlp → List UInt8
  | [] => []
  | x :: xs => encode x ++ encodeAll xs

end

def split (n : Nat) (bs : List UInt8) : Option (List UInt8 × List UInt8) :=
  if n ≤ bs.length then some (bs.take n, bs.drop n) else none

/-- The payload after a header with a length of `k` bytes. The length has no leading zeros, and the
short form does not hold it. -/
def splitLong (k : Nat) (bs : List UInt8) : Option (List UInt8 × List UInt8) :=
  (split k bs).bind fun p =>
    if p.1.head? ≠ some 0 ∧ 55 < BigEndian.toNat p.1 then split (BigEndian.toNat p.1) p.2 else none

/-- Whether the first item is a list, its payload and what follows it. -/
def parse : List UInt8 → Option (Bool × List UInt8 × List UInt8)
  | [] => none
  | b :: bs =>
    if b.toNat < 0x80 then some (false, [b], bs)
    else if b.toNat ≤ 0xb7 then
      (split (b.toNat - 0x80) bs).bind fun p => if Plain p.1 then none else some (false, p)
    else if b.toNat ≤ 0xbf then (splitLong (b.toNat - 0xb7) bs).map fun p => (false, p)
    else if b.toNat ≤ 0xf7 then (split (b.toNat - 0xc0) bs).map fun p => (true, p)
    else (splitLong (b.toNat - 0xf7) bs).map fun p => (true, p)

def decodeAll : Nat → List UInt8 → Option (List Rlp)
  | _, [] => some []
  | 0, _ :: _ => none
  | fuel + 1, b :: bs =>
    (parse (b :: bs)).bind fun (isList, payload, rest) =>
      (if isList then (decodeAll fuel payload).map .list else some (.bytes payload)).bind fun x =>
        (decodeAll fuel rest).map fun xs => x :: xs

/-- The one item that `bs` is the encoding of. -/
def decode (bs : List UInt8) : Option Rlp :=
  match decodeAll bs.length bs with
  | some [x] => some x
  | _ => none

theorem split_append (as bs : List UInt8) : split as.length (as ++ bs) = some (as, bs) := by
  simp [split]

theorem splitLong_bytes {payload : List UInt8} (h : 55 < payload.length) (rest : List UInt8) :
    splitLong (BigEndian.bytes payload.length).length
      (BigEndian.bytes payload.length ++ (payload ++ rest)) = some (payload, rest) := by
  rw [splitLong, split_append, Option.bind_some, BigEndian.toNat_bytes, split_append,
    if_pos ⟨BigEndian.head_bytes _, h⟩]

theorem length_bytes_le {n : Nat} (h : n < 256 ^ 8) : (BigEndian.bytes n).length ≤ 8 :=
  BigEndian.length_bytes_le_iff.mpr h

theorem toNat_ofNat {n : Nat} (h : n < 256) : (UInt8.ofNat n).toNat = n := UInt8.toNat_ofNat_of_lt' h

theorem parse_string {payload : List UInt8} (hplain : ¬ Plain payload) (h : payload.length < 256 ^ 8)
    (rest : List UInt8) :
    parse (header 0x80 payload.length ++ payload ++ rest) = some (false, payload, rest) := by
  rw [List.append_assoc, header]
  by_cases hshort : payload.length ≤ 55
  · have hb : (UInt8.ofNat (0x80 + payload.length)).toNat = 0x80 + payload.length := toNat_ofNat (by omega)
    rw [if_pos hshort, List.singleton_append, parse, hb, if_neg (by omega), if_pos (by omega),
      Nat.add_sub_cancel_left, split_append, Option.bind_some, if_neg hplain]
  · have hlen := length_bytes_le h
    have hpos := BigEndian.length_bytes_pos (show 0 < payload.length by omega)
    have hb : (UInt8.ofNat (0x80 + 55 + (BigEndian.bytes payload.length).length)).toNat =
        0xb7 + (BigEndian.bytes payload.length).length := toNat_ofNat (by omega)
    rw [if_neg hshort, List.cons_append, parse, hb, if_neg (by omega), if_neg (by omega), if_pos (by omega),
      Nat.add_sub_cancel_left, splitLong_bytes (by omega), Option.map_some]

theorem parse_list {payload : List UInt8} (h : payload.length < 256 ^ 8) (rest : List UInt8) :
    parse (header 0xc0 payload.length ++ payload ++ rest) = some (true, payload, rest) := by
  rw [List.append_assoc, header]
  by_cases hshort : payload.length ≤ 55
  · have hb : (UInt8.ofNat (0xc0 + payload.length)).toNat = 0xc0 + payload.length := toNat_ofNat (by omega)
    rw [if_pos hshort, List.singleton_append, parse, hb, if_neg (by omega), if_neg (by omega),
      if_neg (by omega), if_pos (by omega), Nat.add_sub_cancel_left, split_append, Option.map_some]
  · have hlen := length_bytes_le h
    have hpos := BigEndian.length_bytes_pos (show 0 < payload.length by omega)
    have hb : (UInt8.ofNat (0xc0 + 55 + (BigEndian.bytes payload.length).length)).toNat =
        0xf7 + (BigEndian.bytes payload.length).length := toNat_ofNat (by omega)
    rw [if_neg hshort, List.cons_append, parse, hb, if_neg (by omega), if_neg (by omega), if_neg (by omega),
      if_neg (by omega), Nat.add_sub_cancel_left, splitLong_bytes (by omega), Option.map_some]

theorem parse_encodeBytes {bs : List UInt8} (h : bs.length < 256 ^ 8) (rest : List UInt8) :
    parse (encodeBytes bs ++ rest) = some (false, bs, rest) := by
  by_cases hplain : Plain bs
  · obtain ⟨b, rfl⟩ := List.length_eq_one_iff.mp hplain.1
    have hb : b.toNat < 0x80 := hplain.2 b (List.mem_singleton_self b)
    rw [encodeBytes, if_pos hplain, List.singleton_append, parse, if_pos hb]
  · rw [encodeBytes, if_neg hplain, parse_string hplain h]

/-- The strings that a length of eight bytes can tell are self-delimiting. -/
theorem encodeBytes_selfDelimiting :
    SelfDelimiting (fun bs : List UInt8 => bs.length < 256 ^ 8) encodeBytes := by
  apply SelfDelimiting.of_reader fun text => (parse text).map fun p => p.2.1
  · rfl
  · intro bs rest hbs
    rw [parse_encodeBytes hbs, Option.map_some]

theorem length_header_pos (base n : Nat) : 0 < (header base n).length := by
  rw [header]
  split <;> simp

theorem length_header_le (base : Nat) {n : Nat} (h : n < 256 ^ 8) : (header base n).length ≤ 9 := by
  have hlen := length_bytes_le h
  rw [header]
  split
  · simp
  · rw [List.length_cons]
    omega

theorem length_encodeBytes_le {bs : List UInt8} (h : bs.length < 256 ^ 8) :
    (encodeBytes bs).length ≤ bs.length + 9 := by
  have hheader := length_header_le 0x80 h
  rw [encodeBytes]
  split
  · omega
  · rw [List.length_append]
    omega

theorem length_encode_pos (x : Rlp) : 0 < x.encode.length := by
  cases x with
  | bytes bs =>
    rw [encode, encodeBytes]
    split
    · rename_i hplain
      rw [hplain.1]
      exact Nat.one_pos
    · have hpos := length_header_pos 0x80 bs.length
      rw [List.length_append]
      omega
  | list items =>
    have hpos := length_header_pos 0xc0 (encodeAll items).length
    rw [encode, List.length_append]
    omega

theorem decodeAll_of_parse {fuel : Nat} {bs payload rest : List UInt8} {isList : Bool}
    (h : parse bs = some (isList, payload, rest)) : decodeAll (fuel + 1) bs =
      (if isList then (decodeAll fuel payload).map .list else some (.bytes payload)).bind fun x =>
        (decodeAll fuel rest).map fun xs => x :: xs := by
  cases bs with
  | nil => cases h
  | cons b bs => rw [decodeAll, h, Option.bind_some]

/-- Decoding undoes encoding. One unit of fuel is spent for every header. -/
theorem decodeAll_encodeAll {fuel : Nat} {xs : List Rlp} (hfuel : (encodeAll xs).length ≤ fuel)
    (h : (encodeAll xs).length < 256 ^ 8) : decodeAll fuel (encodeAll xs) = some xs := by
  induction fuel generalizing xs with
  | zero =>
    cases xs with
    | nil => rfl
    | cons x xs =>
      have hpos := length_encode_pos x
      rw [encodeAll, List.length_append] at hfuel
      omega
  | succ fuel ih =>
    cases xs with
    | nil => rfl
    | cons x xs =>
      have hpos := length_encode_pos x
      rw [encodeAll, List.length_append] at hfuel h
      have hrest : decodeAll fuel (encodeAll xs) = some xs := ih (by omega) (by omega)
      cases x with
      | bytes bs =>
        have hbs : bs.length ≤ (encodeBytes bs).length := by
          rw [encodeBytes]
          split <;> simp
        rw [encode] at h
        rw [encodeAll, encode, decodeAll_of_parse (parse_encodeBytes (by omega) _), hrest]
        rfl
      | list items =>
        have hheader := length_header_pos 0xc0 (encodeAll items).length
        rw [encode, List.length_append] at h hfuel
        have hitems : decodeAll fuel (encodeAll items) = some items := ih (by omega) (by omega)
        rw [encodeAll, encode, decodeAll_of_parse (parse_list (by omega) _), hrest, hitems]
        rfl

theorem encodeAll_singleton (x : Rlp) : encodeAll [x] = x.encode := by
  rw [encodeAll, encodeAll, List.append_nil]

theorem encodeAll_append (xs ys : List Rlp) : encodeAll (xs ++ ys) = encodeAll xs ++ encodeAll ys := by
  induction xs with
  | nil => rfl
  | cons x xs ih => rw [List.cons_append, encodeAll, encodeAll, ih, List.append_assoc]

theorem decode_encode {x : Rlp} (h : x.encode.length < 256 ^ 8) : decode x.encode = some x := by
  rw [← encodeAll_singleton] at h ⊢
  rw [decode, decodeAll_encodeAll (le_refl _) h]

end Rlp
