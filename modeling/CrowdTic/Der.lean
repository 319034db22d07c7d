import CrowdTic.BigEndian

/-! Signatures in DER: a sequence of two integers. -/

namespace Der

/-- A zero stands in front of a first bit that would be a sign. -/
def intBytes (n : Nat) : List UInt8 :=
  if 0x80 ≤ ((BigEndian.bytes n).headD 0x80).toNat then 0 :: BigEndian.bytes n else BigEndian.bytes n

def integer (n : Nat) : List UInt8 := 0x02 :: .ofNat (intBytes n).length :: intBytes n

/-- The signature is short, and so its length takes one byte. -/
def signature (r s : Nat) : List UInt8 :=
  0x30 :: .ofNat (integer r ++ integer s).length :: (integer r ++ integer s)

theorem intBytes_of_head {n : Nat} {b : UInt8} {bs : List UInt8} (h : BigEndian.bytes n = b :: bs)
    (hb : b.toNat < 0x80) : intBytes n = BigEndian.bytes n := by
  rw [intBytes, h, List.headD_cons, if_neg (by omega)]

end Der
