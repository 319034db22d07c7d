import Mathlib.Data.List.Basic

/-! Base64 text of a byte string as `btoa` writes it and `atob` reads it, with
the forgiving rules of the reader. Decoding undoes encoding. -/

namespace Base64

abbrev Bytes := List UInt8

def alphabet : List Char := "ABCDEFGHIJKLMNOPQRSTUVWXYZabcdefghijklmnopqrstuvwxyz0123456789+/".toList

def char (n : Nat) : Char := alphabet[n]?.getD 'A'

def value (c : Char) : Option Nat :=
  if alphabet.idxOf c < 64 then some (alphabet.idxOf c) else none

theorem value_char : ∀ n < 64, value (char n) = some n := by decide +kernel

theorem char_mem (n : Nat) : char n ∈ alphabet := by
  cases h : alphabet[n]? with
  | none =>
    rw [char, h]
    decide +kernel
  | some c =>
    rw [char, h]
    exact List.mem_of_getElem? h

/-- Groups of three bytes as four numbers below 64. -/
def sextets : Bytes → List Nat
  | [] => []
  | [a] => [a.toNat / 4, a.toNat % 4 * 16]
  | [a, b] => [a.toNat / 4, a.toNat % 4 * 16 + b.toNat / 16, b.toNat % 16 * 4]
  | a :: b :: c :: rest =>
    a.toNat / 4 :: (a.toNat % 4 * 16 + b.toNat / 16) :: (b.toNat % 16 * 4 + c.toNat / 64) ::
      c.toNat % 64 :: sextets rest

/-- The bits of a last group that do not fill a byte are dropped. -/
def octets : List Nat → Bytes
  | a :: b :: c :: d :: rest =>
    .ofNat (a * 4 + b / 16) :: .ofNat (b % 16 * 16 + c / 4) :: .ofNat (c % 4 * 64 + d) :: octets rest
  | [a, b, c] => [.ofNat (a * 4 + b / 16), .ofNat (b % 16 * 16 + c / 4)]
  | [a, b] => [.ofNat (a * 4 + b / 16)]
  | _ => []

theorem sextets_lt (bs : Bytes) : ∀ n ∈ sextets bs, n < 64 := by
  induction bs using sextets.induct with
  | case1 => simp [sextets]
  | case2 a =>
    have ha := a.toNat_lt
    simp only [sextets, List.forall_mem_cons]
    refine ⟨by omega, by omega, by simp⟩
  | case3 a b =>
    have ha := a.toNat_lt
    have hb := b.toNat_lt
    simp only [sextets, List.forall_mem_cons]
    refine ⟨by omega, by omega, by omega, by simp⟩
  | case4 a b c rest ih =>
    have ha := a.toNat_lt
    have hb := b.toNat_lt
    have hc := c.toNat_lt
    simp only [sextets, List.forall_mem_cons]
    exact ⟨by omega, by omega, by omega, by omega, ih⟩

theorem ofNat_of_eq {n : Nat} {a : UInt8} (h : n = a.toNat) : UInt8.ofNat n = a := by
  rw [h, UInt8.ofNat_toNat]

theorem octets_sextets (bs : Bytes) : octets (sextets bs) = bs := by
  induction bs using sextets.induct with
  | case1 => rfl
  | case2 a =>
    have ha := a.toNat_lt
    simp only [sextets, octets]
    rw [ofNat_of_eq (a := a) (by omega)]
  | case3 a b =>
    have ha := a.toNat_lt
    have hb := b.toNat_lt
    simp only [sextets, octets]
    rw [ofNat_of_eq (a := a) (by omega), ofNat_of_eq (a := b) (by omega)]
  | case4 a b c rest ih =>
    have ha := a.toNat_lt
    have hb := b.toNat_lt
    have hc := c.toNat_lt
    simp only [sextets, octets, ih]
    rw [ofNat_of_eq (a := a) (by omega), ofNat_of_eq (a := b) (by omega),
      ofNat_of_eq (a := c) (by omega)]

def digits (bs : Bytes) : List Char := (sextets bs).map char

theorem length_sextets_mod (bs : Bytes) : (sextets bs).length % 4 ≠ 1 := by
  induction bs using sextets.induct with
  | case4 a b c rest ih =>
    simp only [sextets, List.length_cons]
    omega
  | _ => simp [sextets]

def padding (n : Nat) : List Char := if n % 4 = 0 then [] else List.replicate (4 - n % 4) '='

def btoa (bs : Bytes) : List Char := digits bs ++ padding (digits bs).length

def isAsciiSpace (c : Char) : Bool := c ∈ [' ', '\t', '\n', '\x0c', '\r']

/-- At most two padding characters are taken off, and only from a text of full groups. -/
def unpad (cs : List Char) : List Char :=
  if cs.length % 4 = 0 then
    if cs.getLast? = some '=' then
      if cs.dropLast.getLast? = some '=' then cs.dropLast.dropLast else cs.dropLast
    else cs
  else cs

/-- `none` is the exception that `atob` throws. -/
def atob (cs : List Char) : Option Bytes :=
  let cs := unpad (cs.filter fun c => !isAsciiSpace c)
  if cs.length % 4 = 1 then none else (cs.mapM value).map octets

/-- The texts that `atob` reads: no group of a single character, and no foreign one. -/
def Valid (cs : List Char) : Prop :=
  let body := unpad (cs.filter fun c => !isAsciiSpace c)
  body.length % 4 ≠ 1 ∧ ∀ c ∈ body, c ∈ alphabet

instance (cs : List Char) : Decidable (Valid cs) :=
  @instDecidableAnd _ _ inferInstance (List.decidableBAll _ _)

theorem value_isSome_iff (c : Char) : (value c).isSome = true ↔ c ∈ alphabet := by
  have hlen : alphabet.length = 64 := by decide +kernel
  have hidx : alphabet.idxOf c < 64 ↔ c ∈ alphabet := by rw [← hlen, List.idxOf_lt_length_iff]
  unfold value
  by_cases h : alphabet.idxOf c < 64
  · simpa [h] using hidx.mp h
  · simpa [h] using hidx.not.mp h

theorem mapM_value_isSome_iff (cs : List Char) :
    (cs.mapM value).isSome = true ↔ ∀ c ∈ cs, c ∈ alphabet := by
  induction cs with
  | nil => simp
  | cons c cs ih =>
    rw [List.forall_mem_cons, ← ih, ← value_isSome_iff, List.mapM_cons]
    cases value c with
    | none => simp
    | some n => cases cs.mapM value <;> simp

theorem atob_isSome_iff (cs : List Char) : (atob cs).isSome = true ↔ Valid cs := by
  unfold atob Valid
  by_cases h : (unpad (cs.filter fun c => !isAsciiSpace c)).length % 4 = 1
  · simp [h]
  · simp only [h, if_false, Option.isSome_map, mapM_value_isSome_iff, ne_eq, not_false_iff, true_and]

theorem mapM_value_digits (bs : Bytes) : (digits bs).mapM value = some (sextets bs) := by
  have key : ∀ ns : List Nat, (∀ n ∈ ns, n < 64) → (ns.map char).mapM value = some ns := by
    intro ns h
    induction ns with
    | nil => rfl
    | cons n ns ih =>
      have hn := value_char n (h n List.mem_cons_self)
      have hns := ih fun m hm => h m (List.mem_cons_of_mem n hm)
      simp [List.mapM_cons, hn, hns]
  exact key _ (sextets_lt bs)

theorem digits_subset (bs : Bytes) : ∀ c ∈ digits bs, c ∈ alphabet := by
  intro c hc
  obtain ⟨n, _, rfl⟩ := List.mem_map.mp hc
  exact char_mem n

theorem alphabet_plain : ∀ c ∈ alphabet, c ≠ '=' ∧ isAsciiSpace c = false := by
  have hall : (alphabet.all fun c => decide (c ≠ '=' ∧ isAsciiSpace c = false)) = true := by
    decide +kernel
  exact fun c hc => of_decide_eq_true (List.all_eq_true.mp hall c hc)

theorem unpad_padded {cs : List Char} (h : ∀ c ∈ cs, c ≠ '=') (hl : cs.length % 4 ≠ 1) :
    unpad (cs ++ padding cs.length) = cs := by
  have hlast : cs.getLast? ≠ some '=' := fun he => h '=' (List.mem_of_getLast? he) rfl
  by_cases h0 : cs.length % 4 = 0
  · simp [unpad, padding, h0, hlast]
  · by_cases h3 : cs.length % 4 = 3
    · have hp : padding cs.length = ['='] := by simp [padding, h3]
      have hm : (cs ++ ['=']).length % 4 = 0 := by
        rw [List.length_append, List.length_singleton]
        omega
      rw [hp, unpad, if_pos hm]
      simp [hlast]
    · have h2 : cs.length % 4 = 2 := by omega
      have hp : padding cs.length = ['=', '='] := by simp [padding, h2]
      have hm : (cs ++ ['=', '=']).length % 4 = 0 := by
        rw [List.length_append]
        simp only [List.length_cons, List.length_nil]
        omega
      rw [hp, unpad, if_pos hm]
      simp [List.dropLast_append_of_ne_nil]

theorem atob_padded (bs : Bytes) : atob (digits bs ++ padding (digits bs).length) = some bs := by
  have hd : ∀ c ∈ digits bs, c ≠ '=' ∧ isAsciiSpace c = false :=
    fun c hc => alphabet_plain c (digits_subset bs c hc)
  have hl : (digits bs).length % 4 ≠ 1 := by
    rw [digits, List.length_map]
    exact length_sextets_mod bs
  have hf : (digits bs ++ padding (digits bs).length).filter (fun c => !isAsciiSpace c) =
      digits bs ++ padding (digits bs).length := by
    refine List.filter_eq_self.mpr fun c hc => ?_
    rcases List.mem_append.mp hc with hc | hc
    · simp [(hd c hc).2]
    · have he : c = '=' := by
        unfold padding at hc
        split at hc
        · simp at hc
        · exact List.eq_of_mem_replicate hc
      subst he
      decide
  rw [atob, hf, unpad_padded (fun c hc => (hd c hc).1) hl]
  simp [hl, mapM_value_digits, octets_sextets]

end Base64
