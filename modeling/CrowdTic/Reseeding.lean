import CrowdTic.CommitAccounts
import CrowdTic.Seed

/-! Runs of seed calls for one category, with holds, commits and time in
between. A seat key has as many digits as the quota of the call that made it,
so a quota with more digits makes the old numbers over again. -/

namespace CrowdTic

structure SeedTarget where
  event : String
  category : String
  seatPrefix : Option String
  named : event ≠ "" ∧ category ≠ ""

/-- A quota that the script takes. -/
structure Quota where
  seats : Nat
  pos : 0 < seats
  le : seats ≤ 50000

inductive SeedMove
  | seed (quota : Quota) (price : Option Int) (onSaleIso : Option String)
  | hold (seatIds : List String) (a : HoldArgs)
  | commit (seatIds : List String) (a : CommitArgs)
  | advance (ms : Nat)

/-- The quota of a seed call, and 0 for the other moves. -/
def SeedMove.quota : SeedMove → Nat
  | .seed quota _ _ => quota.seats
  | _ => 0

def largestSeeded (tr : List (Redis × SeedMove)) : Nat := (tr.map fun p => p.2.quota).foldl max 0

namespace SeedTarget

variable (C : SeedTarget)

def args (quota : Quota) (price : Option Int) (onSaleIso : Option String) : SeedArgs where
  eventId := C.event
  catId := C.category
  quota := some quota.seats
  seatPrefix := C.seatPrefix
  price := price
  onSaleIso := onSaleIso

def invKey : String := inventoryKey C.event C.category

def seatKeys (seatIds : List String) : List String := seatIds.map (seatKey C.event)

def exec (r : Redis) : SeedMove → Redis
  | .seed quota price iso => (seedSrc r (C.args quota price iso)).2
  | .hold ids a => (holdSrc r C.invKey (C.seatKeys ids) a).2
  | .commit ids a => (commitSrc r C.invKey (C.seatKeys ids) a).2
  | .advance ms => r.advance ms

def Step (r : Redis) (m : SeedMove) (r' : Redis) : Prop := r' = C.exec r m

def key (seatNo : String) : String := seatKey C.event (C.category ++ ":" ++ seatNo)

def seatNo (pad i : Nat) : String := C.seatPrefix.getD "S" ++ "-" ++ Decimal.padded pad i

def seats (r : Redis) : Set String := fun k => (∃ no, k = C.key no) ∧ r.present k = true

def quota (r : Redis) : Int := (r.hashes.hgetNum C.invKey .quota).getD 0

def counted (r : Redis) : Int := (r.stock C.invKey).total

def Denotes (k : String) (n : Nat) : Prop :=
  ∃ num, k = C.key (C.seatPrefix.getD "S" ++ "-" ++ num) ∧ Decimal.value num = n

/-- There are as many seats as the quota says, the inventory counts as many, and no two
seat keys denote one number. -/
structure Consistent (r : Redis) : Prop where
  seats : ((C.seats r).ncard : Int) = C.quota r
  counted : C.counted r = C.quota r
  apart : ∀ k ∈ C.seats r, ∀ k' ∈ C.seats r, ∀ n, C.Denotes k n → C.Denotes k' n → k = k'

/-- A seed call stays on the side of 10000 where the quota is, and no seat key runs out. -/
def Fits (r : Redis) : SeedMove → Prop
  | .seed quota _ _ => 0 < C.quota r → (C.quota r < 10000 ↔ quota.seats < 10000)
  | .advance ms => ∀ k ∈ C.seats r, r.hashes.lapsed (r.now + ms) k = false
  | _ => True

structure Unseeded (r : Redis) : Prop where
  inventory : r.hashes.get C.invKey = none
  seats : ∀ no, r.present (C.key no) = false

/-- What every move keeps. -/
structure Sound (r : Redis) : Prop where
  ttl : r.hashes.ttl C.invKey = none
  status : ∀ no, r.present (C.key no) = true → (r.seat (C.key no)).status ≠ none
  counted : C.counted r = C.quota r

/-- The seats are numbered from 1 to the quota, with the digits of the quota. -/
structure Numbered (r : Redis) : Prop extends C.Sound r where
  numbers : ∃ n : Nat, C.quota r = n ∧ n ≤ 50000 ∧ ∀ no, r.present (C.key no) = true ↔
    ∃ i, 0 < i ∧ i ≤ n ∧ no = C.seatNo (SeedArgs.pad n) i

end SeedTarget

section Keys

variable (C : SeedTarget)

@[simp] theorem SeedTarget.key_inj (no no' : String) : C.key no = C.key no' ↔ no = no' := by
  simp [SeedTarget.key]

@[simp] theorem SeedTarget.seatNo_num_inj (num num' : String) :
    C.seatPrefix.getD "S" ++ "-" ++ num = C.seatPrefix.getD "S" ++ "-" ++ num' ↔ num = num' := by
  simp

theorem SeedTarget.denotes_seatNo_iff {pad i n : Nat} : C.Denotes (C.key (C.seatNo pad i)) n ↔ i = n := by
  simp [SeedTarget.Denotes, SeedTarget.seatNo]

theorem SeedTarget.seatNo_inj {pad pad' i j : Nat} (h : C.seatNo pad i = C.seatNo pad' j) : i = j :=
  Decimal.padded_inj ((C.seatNo_num_inj _ _).mp h)

theorem pad_of_lt {n : Nat} (h : n < 10000) : SeedArgs.pad n = 4 := by
  have hw := Decimal.width_le_four_iff.mpr h
  rw [SeedArgs.pad]
  split <;> omega

theorem pad_of_ge {n : Nat} (h : 10000 ≤ n) (h5 : n ≤ 50000) : SeedArgs.pad n = 5 := by
  have h4 : ¬ Decimal.width n ≤ 4 := fun hw => absurd (Decimal.width_le_four_iff.mp hw) (Nat.not_lt.mpr h)
  have hw : Decimal.width n ≤ 5 := Decimal.width_le_five_iff.mpr (by omega)
  rw [SeedArgs.pad]
  split <;> omega

theorem pad_eq_iff {n m : Nat} (hn : n ≤ 50000) (hm : m ≤ 50000) :
    SeedArgs.pad n = SeedArgs.pad m ↔ (n < 10000 ↔ m < 10000) := by
  by_cases h : n < 10000 <;> by_cases h' : m < 10000 <;>
    simp [h, h', pad_of_lt, pad_of_ge, Nat.not_lt.mp, hn, hm]

theorem four_le_pad (n : Nat) : 4 ≤ SeedArgs.pad n := by
  rw [SeedArgs.pad]
  split <;> omega

theorem pad_of_padded_eq {n m i : Nat} (hi : i < 10000)
    (h : Decimal.padded (SeedArgs.pad n) i = Decimal.padded (SeedArgs.pad m) i) :
    SeedArgs.pad n = SeedArgs.pad m := by
  have hlen := congrArg String.length h
  rw [Decimal.length_padded, Decimal.length_padded] at hlen
  have hw := Decimal.width_le_four_iff.mpr hi
  have hn := four_le_pad n
  have hm := four_le_pad m
  omega

theorem mem_seatNos_iff {q : Quota} {price : Option Int} {iso : Option String} {no : String} :
    no ∈ (C.args q price iso).seatNos q.seats ↔
      ∃ i, 0 < i ∧ i ≤ q.seats ∧ no = C.seatNo (SeedArgs.pad q.seats) i := by
  simp only [SeedArgs.seatNos, List.mem_map, List.mem_range'_1]
  constructor
  · rintro ⟨i, hi, rfl⟩
    exact ⟨i, by omega, by omega, rfl⟩
  · rintro ⟨i, h0, hi, rfl⟩
    exact ⟨i, by omega, rfl⟩

end Keys

section Holds

variable (r : Redis) (inv : String) (ks : List String) (a : HoldArgs) (j : String)

theorem present_holdWrites (hi : j ≠ inv) (hh : j ≠ holdKey a.eventId a.holdId) :
    (holdWrites r inv ks a).present j = if j ∈ ks then true else r.present j := by
  have hseat (s : Redis) (k i : String) :
      (holdSeat a s k).present i = if i = k then true else s.present i := by
    by_cases hi : i = k <;> simp [holdSeat, Redis.present, Hashes.hset, Hashes.hsetNum, hi]
  have hl := Keyed.foldl_view Redis.present (g := holdSeat a) (φ := fun _ => true) (fun _ => rfl) hseat ks r j
  rw [← hl]
  simp [holdWrites, Redis.present, Hashes.hset, Hashes.hsetNum, Hashes.hincrby, hi, hh]

theorem quota_holdWrites : (holdWrites r inv ks a).hashes.hgetNum j .quota = r.hashes.hgetNum j .quota := by
  have hl : (ks.foldl (holdSeat a) r).hashes.hgetNum j .quota = r.hashes.hgetNum j .quota :=
    Keyed.foldl_unchanged (fun s : Redis => s.hashes.hgetNum j .quota)
      (fun s k => by simp [holdSeat]) ks r
  simp [holdWrites, hl]

theorem quota_commitWrites {a : CommitArgs} (hj : j ≠ holdKey a.eventId a.holdId) :
    (commitWrites r inv ks a).hashes.hgetNum j .quota = r.hashes.hgetNum j .quota := by
  have hl : (ks.foldl (commitSeat a) r).hashes.hgetNum j .quota = r.hashes.hgetNum j .quota :=
    Keyed.foldl_unchanged (fun s : Redis => s.hashes.hgetNum j .quota)
      (fun s k => by by_cases h : s.hashes.hget k .status = some "HELD" <;> simp [commitSeat, h]) ks r
  simp [commitWrites, hl, hj]

end Holds

namespace SeedTarget

structure Quiet (C : SeedTarget) (r r' : Redis) : Prop where
  present : ∀ no, r'.present (C.key no) = r.present (C.key no)
  status : ∀ no, (r.seat (C.key no)).status ≠ none → (r'.seat (C.key no)).status ≠ none
  quota : C.quota r' = C.quota r
  counted : C.counted r' = C.counted r
  ttl : r'.hashes.ttl C.invKey = r.hashes.ttl C.invKey

variable {C : SeedTarget} {r r' : Redis}

theorem Quiet.refl : C.Quiet r r := ⟨fun _ => rfl, fun _ h => h, rfl, rfl, rfl⟩

theorem Quiet.sound (h : C.Quiet r r') (hs : C.Sound r) : C.Sound r' where
  ttl := h.ttl.trans hs.ttl
  status no hp := h.status no (hs.status no (h.present no ▸ hp))
  counted := by rw [h.counted, h.quota, hs.counted]

theorem Quiet.numbered (h : C.Quiet r r') (hn : C.Numbered r) : C.Numbered r' := by
  obtain ⟨n, hq, hle, hmem⟩ := hn.numbers
  exact ⟨h.sound hn.toSound, n, h.quota.trans hq, hle, fun no => by rw [h.present, hmem]⟩

theorem invKey_not_mem (ids : List String) : C.invKey ∉ C.seatKeys ids := by
  intro h
  obtain ⟨s, _, hs⟩ := List.mem_map.mp h
  exact seatKey_ne_inventoryKey _ _ _ _ hs

theorem key_ne_holdKey (no e h : String) : C.key no ≠ holdKey e h := seatKey_ne_holdKey _ _ _ _

theorem key_ne_invKey (no : String) : C.key no ≠ C.invKey := seatKey_ne_inventoryKey _ _ _ _

theorem quiet_hold (ids : List String) (a : HoldArgs) :
    C.Quiet r (holdSrc r C.invKey (C.seatKeys ids) a).2 := by
  by_cases hr : holdRefusal r C.invKey (C.seatKeys ids) a = none
  · obtain ⟨n, hn, _, _, hfree⟩ := holdRefusal_eq_none_iff.mp hr
    rw [holdSrc_accepted hr]
    refine ⟨fun no => ?_, fun no hno => ?_, ?_, ?_, ?_⟩
    · have hk : C.key no ∈ C.seatKeys ids → r.present (C.key no) = true := fun hm =>
        present_of_status (hfree _ hm)
      rw [present_holdWrites _ _ _ _ _ (key_ne_invKey no) (key_ne_holdKey no _ _)]
      by_cases hm : C.key no ∈ C.seatKeys ids
      · rw [if_pos hm, hk hm]
      · rw [if_neg hm]
    · rw [seat_holdWrites]
      split
      · simp [Seat.held]
      · exact hno
    · rw [quota, quota, quota_holdWrites]
    · rw [counted, counted, stock_holdWrites, if_pos rfl]
      simp only [Stock.total, Option.getD_some]
      omega
    · exact ttl_holdWrites r _ _ a _ (invKey_not_mem ids) (inventoryKey_ne_holdKey _ _ _ _)
  · rw [holdSrc_refused hr]
    exact .refl

theorem quiet_commit (ids : List String) (a : CommitArgs) :
    C.Quiet r (commitSrc r C.invKey (C.seatKeys ids) a).2 := by
  by_cases hr : CommitRuns r (C.seatKeys ids) a
  · have hinv : C.invKey ≠ holdKey a.eventId a.holdId := inventoryKey_ne_holdKey _ _ _ _
    rw [commitSrc_accepted hr]
    refine ⟨fun no => ?_, fun no hno => ?_, ?_, ?_, ?_⟩
    · simp [present_commitWrites, key_ne_holdKey, key_ne_invKey]
    · rw [seat_commitWrites _ _ _ _ (key_ne_holdKey no _ _)]
      split
      · simp
      · exact hno
    · rw [quota, quota, quota_commitWrites _ _ _ _ hinv]
    · rw [counted, counted, stock_commitWrites _ _ _ _ hinv, if_pos rfl]
      simp only [Stock.total, Option.getD_some]
      omega
    · have hh := seat_ttl_commitWrites r C.invKey (C.seatKeys ids) a hinv
      rw [if_neg (invKey_not_mem ids)] at hh
      exact congrArg Prod.snd hh
  · rw [commitSrc_idle hr]
    exact .refl

theorem quiet_advance {ms : Nat} (httl : r.hashes.ttl C.invKey = none)
    (h : ∀ k ∈ C.seats r, r.hashes.lapsed (r.now + ms) k = false) : C.Quiet r (r.advance ms) := by
  have hinv := ExpMap.lapsed_of_ttl_none httl (r.now + ms)
  have hgone (no : String) (hl : r.hashes.lapsed (r.now + ms) (C.key no) = true) :
      r.present (C.key no) = false := by
    by_contra hp
    have hf := h _ ⟨⟨no, rfl⟩, by simpa using hp⟩
    rw [hl] at hf
    cases hf
  refine ⟨fun no => ?_, fun no hno => ?_, ?_, ?_, ?_⟩
  · by_cases hl : r.hashes.lapsed (r.now + ms) (C.key no) = true
    · rw [hgone no hl]
      simp [Redis.present, hl]
    · simp [Redis.present, hl]
  · by_cases hl : r.hashes.lapsed (r.now + ms) (C.key no) = true
    · exact absurd (by rw [seat_of_absent (hgone no hl)]; rfl) hno
    · rw [seat_advance, if_neg hl]
      exact hno
  · simp [quota, hinv]
  · rw [counted, counted, stock_advance r ms _ hinv]
  · simp [hinv]

/-- Everything a seed call does: it creates the missing numbers up to its quota, touches no
other seat, and raises the quota and `available` alike. -/
structure Reseeded (C : SeedTarget) (q : Nat) (r r' : Redis) : Prop where
  present : ∀ no, r'.present (C.key no) = true ↔
    r.present (C.key no) = true ∨ ∃ i, 0 < i ∧ i ≤ q ∧ no = C.seatNo (SeedArgs.pad q) i
  kept : ∀ no, (r.seat (C.key no)).status ≠ none → r'.entry (C.key no) = r.entry (C.key no)
  status : ∀ no i, 0 < i → i ≤ q → no = C.seatNo (SeedArgs.pad q) i →
    (r'.seat (C.key no)).status ≠ none
  quota : C.quota r' = max (C.quota r) q
  counted : C.counted r' = C.counted r + (max (C.quota r) q - C.quota r)
  ttl : r'.hashes.ttl C.invKey = r.hashes.ttl C.invKey

theorem status_seeded_ne_none (a : SeedArgs) (no : String) (v : Option Hash × Option Nat) :
    (seeded a no v).1.bind (·.text .status) ≠ none := by
  by_cases h : v.1.bind (·.text .status) = none <;> simp [seeded, h, Hash.setText, Hash.setNum]

theorem present_of_status_ne_none {k : String} (h : (r.seat k).status ≠ none) : r.present k = true := by
  obtain ⟨s, hs⟩ := Option.ne_none_iff_exists'.mp h
  exact present_of_status hs

theorem reseeded_seed (q : Quota) (price : Option Int) (iso : Option String) :
    C.Reseeded q.seats r (C.exec r (.seed q price iso)) := by
  let a := C.args q price iso
  let num (s : Redis) (f : NumField) := (s.hashes.hgetNum C.invKey f).getD 0
  have hexec : C.exec r (.seed q price iso) = seedWrites r a q.seats :=
    seedSrc_accepted C.named.1 C.named.2 rfl q.pos q.le
  have hentry (no : String) : (seedWrites r a q.seats).entry (C.key no) =
      if no ∈ a.seatNos q.seats then seeded a no (r.entry (C.key no)) else r.entry (C.key no) :=
    entry_seedWrites a r q.seats no
  have hnew (no : String) (hm : no ∈ a.seatNos q.seats) :
      ((seedWrites r a q.seats).seat (C.key no)).status ≠ none := by
    have hs : ((seedWrites r a q.seats).entry (C.key no)).1.bind (·.text .status) ≠ none := by
      rw [hentry, if_pos hm]
      exact status_seeded_ne_none a no _
    exact hs
  have hinv := entry_seedWrites_invKey a r q.seats
  have hnum (f : NumField) : num (seedWrites r a q.seats) f = num (seedInventory a q.seats r) f :=
    congrArg (fun v : Option Hash × Option Nat => (v.1.bind (·.num f)).getD 0) hinv
  obtain ⟨hquota, havail, hheld, hsold⟩ := inventory_seedInventory a r (Int.natCast_nonneg q.seats)
  rw [hexec]
  refine ⟨fun no => ?_, fun no hno => ?_, fun no i h0 hi he => ?_, ?_, ?_, ?_⟩
  · rw [← mem_seatNos_iff C ]
    by_cases hm : no ∈ a.seatNos q.seats
    · exact ⟨fun _ => .inr hm, fun _ => present_of_status_ne_none (hnew no hm)⟩
    · have hsame : (seedWrites r a q.seats).present (C.key no) = r.present (C.key no) :=
        congrArg (fun v : Option Hash × Option Nat => v.1.isSome) ((hentry no).trans (if_neg hm))
      rw [hsame]
      exact ⟨.inl, fun h => h.resolve_right hm⟩
  · have hkeep : seeded a no (r.entry (C.key no)) = r.entry (C.key no) := if_neg hno
    rw [hentry, hkeep, ite_self]
  · exact hnew no ((mem_seatNos_iff C).mpr ⟨i, h0, hi, he⟩)
  · exact (hnum .quota).trans hquota
  · have ha : num (seedWrites r a q.seats) .available =
        num r .available + (max (num r .quota) q.seats - num r .quota) := (hnum .available).trans havail
    have hh : num (seedWrites r a q.seats) .held = num r .held := (hnum .held).trans hheld
    have hs : num (seedWrites r a q.seats) .sold = num r .sold := (hnum .sold).trans hsold
    change num _ .available + num _ .held + num _ .sold = num r .available + num r .held + num r .sold +
      (max (num r .quota) q.seats - num r .quota)
    rw [ha, hh, hs]
    omega
  · exact (congrArg Prod.snd hinv).trans (ttl_seedInventory _ _ _)

theorem Reseeded.sound {q : Nat} (h : C.Reseeded q r r') (hs : C.Sound r) : C.Sound r' where
  ttl := h.ttl.trans hs.ttl
  status no hp := by
    rcases (h.present no).mp hp with hold | ⟨i, h0, hi, he⟩
    · have hst := hs.status no hold
      have hentry : (r'.seat (C.key no)).status = (r.seat (C.key no)).status :=
        congrArg (fun v : Option Hash × Option Nat => v.1.bind (·.text .status)) (h.kept no hst)
      rw [hentry]
      exact hst
    · exact h.status no i h0 hi he
  counted := by
    rw [h.counted, h.quota, hs.counted]
    omega

theorem present_advance (ms : Nat) (k : String) : (r.advance ms).present k =
    if r.hashes.lapsed (r.now + ms) k then false else r.present k := by
  by_cases hl : r.hashes.lapsed (r.now + ms) k = true <;> simp [Redis.present, hl]

theorem sound_advance (hs : C.Sound r) (ms : Nat) : C.Sound (r.advance ms) := by
  have hinv := ExpMap.lapsed_of_ttl_none hs.ttl (r.now + ms)
  refine ⟨by simp [hinv, hs.ttl], fun no hp => ?_, ?_⟩
  · rw [present_advance] at hp
    rw [seat_advance]
    by_cases hl : r.hashes.lapsed (r.now + ms) (C.key no) = true
    · rw [if_pos hl] at hp
      cases hp
    · rw [if_neg hl] at hp ⊢
      exact hs.status no hp
  · have hquota : C.quota (r.advance ms) = C.quota r := by simp [quota, hinv]
    rw [hquota, counted, stock_advance r ms _ hinv]
    exact hs.counted

theorem sound_exec (hs : C.Sound r) (m : SeedMove) : C.Sound (C.exec r m) := by
  cases m with
  | seed q price iso => exact (reseeded_seed q price iso).sound hs
  | hold ids a => exact (quiet_hold ids a).sound hs
  | commit ids a => exact (quiet_commit ids a).sound hs
  | advance ms => exact sound_advance hs ms

theorem quota_exec (hs : C.Sound r) (h0 : 0 ≤ C.quota r) (m : SeedMove) :
    C.quota (C.exec r m) = max (C.quota r) m.quota := by
  have hmax : max (C.quota r) (0 : Nat) = C.quota r := max_eq_left h0
  cases m with
  | seed q price iso => exact (reseeded_seed q price iso).quota
  | hold ids a => exact (quiet_hold ids a).quota.trans hmax.symm
  | commit ids a => exact (quiet_commit ids a).quota.trans hmax.symm
  | advance ms =>
    have hinv := ExpMap.lapsed_of_ttl_none hs.ttl (r.now + ms)
    refine Eq.trans ?_ hmax.symm
    simp [exec, quota, hinv]

theorem Numbered.reseeded {q : Quota} (hn : C.Numbered r) (h : C.Reseeded q.seats r r')
    (hfits : 0 < C.quota r → (C.quota r < 10000 ↔ q.seats < 10000)) : C.Numbered r' := by
  obtain ⟨n, hquota, hle, hmem⟩ := hn.numbers
  have hpad : 0 < n → SeedArgs.pad n = SeedArgs.pad q.seats := by
    intro h0
    have hf := hfits (by omega)
    exact (pad_eq_iff hle q.le).mpr (by omega)
  refine ⟨h.sound hn.toSound, max n q.seats, by rw [h.quota, hquota]; omega, max_le hle q.le, fun no => ?_⟩
  rw [h.present, hmem]
  rcases le_total n q.seats with hnq | hnq
  · rw [max_eq_right hnq]
    constructor
    · rintro (⟨i, h0, hi, he⟩ | hnew)
      · exact ⟨i, h0, hi.trans hnq, hpad (by omega) ▸ he⟩
      · exact hnew
    · exact .inr
  · rw [max_eq_left hnq, ← hpad (by have := q.pos; omega)]
    constructor
    · rintro (hold | ⟨i, h0, hi, he⟩)
      · exact hold
      · exact ⟨i, h0, hi.trans hnq, he⟩
    · exact .inl

theorem Numbered.exec (hn : C.Numbered r) {m : SeedMove} (hfits : C.Fits r m) :
    C.Numbered (C.exec r m) := by
  cases m with
  | seed q price iso => exact hn.reseeded (reseeded_seed q price iso) hfits
  | hold ids a => exact (quiet_hold ids a).numbered hn
  | commit ids a => exact (quiet_commit ids a).numbered hn
  | advance ms => exact (quiet_advance hn.ttl hfits).numbered hn

theorem Numbered.seats_eq (hn : C.Numbered r) : ∃ n : Nat, C.quota r = n ∧ n ≤ 50000 ∧
    C.seats r = (fun i => C.key (C.seatNo (SeedArgs.pad n) (i + 1))) '' ↑(Finset.range n) := by
  obtain ⟨n, hquota, hle, hmem⟩ := hn.numbers
  refine ⟨n, hquota, hle, Set.ext fun k => ?_⟩
  constructor
  · rintro ⟨⟨no, rfl⟩, hp⟩
    obtain ⟨i, h0, hi, rfl⟩ := (hmem no).mp hp
    exact ⟨i - 1, by simp; omega, by simp [Nat.sub_add_cancel h0]⟩
  · rintro ⟨i, hi, rfl⟩
    exact ⟨⟨_, rfl⟩, (hmem _).mpr ⟨i + 1, by omega, by simpa using hi, rfl⟩⟩

theorem Numbered.consistent (hn : C.Numbered r) : C.Consistent r := by
  obtain ⟨n, hquota, _, hseats⟩ := hn.seats_eq
  refine ⟨?_, hn.counted, ?_⟩
  · have hinj : Function.Injective fun i => C.key (C.seatNo (SeedArgs.pad n) (i + 1)) := by
      intro i j h
      have hij := C.seatNo_inj ((C.key_inj _ _).mp h)
      omega
    rw [hseats, Set.ncard_image_of_injective _ hinj, Set.ncard_coe_finset, Finset.card_range, hquota]
  · rw [hseats]
    rintro _ ⟨i, _, rfl⟩ _ ⟨j, _, rfl⟩ m hi hj
    have hi' := (C.denotes_seatNo_iff).mp hi
    have hj' := (C.denotes_seatNo_iff).mp hj
    obtain rfl : i = j := by omega
    rfl

theorem Numbered.finite (hn : C.Numbered r) : (C.seats r).Finite := by
  obtain ⟨n, _, _, hseats⟩ := hn.seats_eq
  rw [hseats]
  exact (Finset.finite_toSet _).image _

/-- A quota with more or fewer digits makes number 1 over again, under another key. -/
theorem not_consistent_of_reseeded {q : Quota} (hn : C.Numbered r) (h : C.Reseeded q.seats r r')
    (hfits : ¬ (0 < C.quota r → (C.quota r < 10000 ↔ q.seats < 10000))) : ¬ C.Consistent r' := by
  intro hc
  obtain ⟨h0, hside⟩ := Classical.not_imp.mp hfits
  obtain ⟨n, hquota, hle, hmem⟩ := hn.numbers
  have hold : C.key (C.seatNo (SeedArgs.pad n) 1) ∈ C.seats r' :=
    ⟨⟨_, rfl⟩, (h.present _).mpr (.inl ((hmem _).mpr ⟨1, by omega, by omega, rfl⟩))⟩
  have hnew : C.key (C.seatNo (SeedArgs.pad q.seats) 1) ∈ C.seats r' :=
    ⟨⟨_, rfl⟩, (h.present _).mpr (.inr ⟨1, by omega, q.pos, rfl⟩)⟩
  have hkey := hc.apart _ hold _ hnew 1 (C.denotes_seatNo_iff.mpr rfl) (C.denotes_seatNo_iff.mpr rfl)
  have hnum := (C.seatNo_num_inj _ _).mp ((C.key_inj _ _).mp hkey)
  have hpad : SeedArgs.pad n = SeedArgs.pad q.seats := pad_of_padded_eq (by decide) hnum
  have hsame := (pad_eq_iff hle q.le).mp hpad
  exact hside (by omega)

theorem not_consistent_of_lapse {ms : Nat} (hn : C.Numbered r)
    (h : ¬ ∀ k ∈ C.seats r, r.hashes.lapsed (r.now + ms) k = false) : ¬ C.Consistent (r.advance ms) := by
  intro hc
  obtain ⟨k, hk⟩ := not_forall.mp h
  obtain ⟨hmem, hlapsed⟩ := Classical.not_imp.mp hk
  have hsub : C.seats (r.advance ms) ⊂ C.seats r := by
    refine Set.ssubset_iff_of_subset ?_ |>.mpr ⟨k, hmem, ?_⟩
    · rintro j ⟨hj, hp⟩
      rw [present_advance] at hp
      exact ⟨hj, by by_contra hne; simp [hne] at hp⟩
    · rintro ⟨_, hp⟩
      rw [present_advance] at hp
      simp [hlapsed] at hp
  have hlt := Set.ncard_lt_ncard hsub hn.finite
  have hinv := ExpMap.lapsed_of_ttl_none hn.ttl (r.now + ms)
  have hquota : C.quota (r.advance ms) = C.quota r := by simp [quota, hinv]
  have hbefore := hn.consistent.seats
  have hafter := hc.seats
  omega

theorem Unseeded.numbered (h : C.Unseeded r) : C.Numbered r := by
  have hnone (f : NumField) : r.hashes.hgetNum C.invKey f = none := by simp [Hashes.hgetNum, h.inventory]
  have hquota : C.quota r = 0 := by simp [quota, hnone]
  have httl : r.hashes.ttl C.invKey = none := by
    have hi := h.inventory
    cases hm : r.hashes C.invKey with
    | none => simp [ExpMap.ttl, hm]
    | some e => simp [ExpMap.get, hm] at hi
  refine ⟨⟨httl, fun no hp => ?_, ?_⟩, 0, hquota, by omega, fun no => ?_⟩
  · rw [h.seats] at hp
    cases hp
  · simp [counted, Stock.total, Redis.stock, hnone, hquota]
  · rw [h.seats]
    constructor
    · intro hp
      cases hp
    · rintro ⟨i, h0, hi, _⟩
      omega

end SeedTarget

section Runs

variable {C : SeedTarget} {r r' : Redis} {tr : List (Redis × SeedMove)}

theorem largestSeeded_snoc (m : SeedMove) :
    largestSeeded (tr ++ [(r, m)]) = max (largestSeeded tr) m.quota := by
  simp [largestSeeded]

theorem quota_run (h0 : C.Unseeded r) (h : Run C.Step r tr r') :
    C.Sound r' ∧ C.quota r' = largestSeeded tr := by
  induction h with
  | nil =>
    have hnone : r.hashes.hgetNum C.invKey .quota = none := by simp [Hashes.hgetNum, h0.inventory]
    exact ⟨h0.numbered.toSound, by simp [SeedTarget.quota, hnone, largestSeeded]⟩
  | @snoc tr t u m _ ha ih =>
    obtain ⟨hs, hq⟩ := ih
    obtain rfl : u = C.exec t m := ha
    refine ⟨SeedTarget.sound_exec hs m, ?_⟩
    rw [SeedTarget.quota_exec hs (hq ▸ Int.natCast_nonneg _), largestSeeded_snoc, hq]
    omega

/-- After every run the quota is the largest one seeded, and no seed call has changed a seat that
was there. The seats, the counts and the numbers agree all along exactly when no seed call
crosses 10000 from the quota before it and no seat key runs out. -/
theorem reseeds_consistent_iff (h0 : C.Unseeded r) (hrun : Run C.Step r tr r') :
    C.quota r' = largestSeeded tr ∧
      (∀ p ∈ tr, ∀ q price iso, p.2 = .seed q price iso →
        ∀ k ∈ C.seats p.1, (C.exec p.1 p.2).entry k = p.1.entry k) ∧
      (((∀ p ∈ tr, C.Consistent p.1) ∧ C.Consistent r') ↔ ∀ p ∈ tr, C.Fits p.1 p.2) := by
  refine ⟨(quota_run h0 hrun).2, ?_, ?_⟩
  · rintro p hp q price iso hm _ ⟨⟨no, rfl⟩, hno⟩
    obtain ⟨pre, post, u, rfl, hpre, _, _⟩ := hrun.split hp
    have hst := (quota_run h0 hpre).1.status no hno
    rw [hm]
    exact (SeedTarget.reseeded_seed q price iso).kept no hst
  · refine Run.always_iff (fun _ (hn : C.Numbered _) => hn.consistent) ?_ ?_ h0.numbered hrun
    · intro t m u hn hfits hstep
      obtain rfl : u = C.exec t m := hstep
      exact hn.exec hfits
    · intro t m u hn hfits hstep
      obtain rfl : u = C.exec t m := hstep
      cases m with
      | seed q price iso =>
        exact SeedTarget.not_consistent_of_reseeded hn (SeedTarget.reseeded_seed q price iso) hfits
      | hold ids a => exact absurd trivial hfits
      | commit ids a => exact absurd trivial hfits
      | advance ms => exact SeedTarget.not_consistent_of_lapse hn hfits

end Runs

section Demo

def demoTarget : SeedTarget where
  event := demoEvent
  category := demoVip
  seatPrefix := some "A"
  named := by decide +kernel

def demoStore : Redis := ⟨fun _ => none, fun _ => none, fun _ => none, 0⟩

theorem demoStore_unseeded : demoTarget.Unseeded demoStore := ⟨rfl, fun _ => rfl⟩

def demoSeed (seats : Nat) (h : 0 < seats ∧ seats ≤ 50000) : SeedMove := .seed ⟨seats, h.1, h.2⟩ none none

def demoReseed : List SeedMove :=
  [demoSeed 2 (by decide), .hold [demoVip ++ ":A-0001"] demoHoldArgs,
    .commit [demoVip ++ ":A-0001"] demoCommitArgs, demoSeed 3 (by decide)]

theorem demo_reseed_consistent :
    demoTarget.Consistent (demoReseed.foldl demoTarget.exec demoStore) ∧
      demoTarget.quota (demoReseed.foldl demoTarget.exec demoStore) = 3 ∧
      ((demoReseed.foldl demoTarget.exec demoStore).seat (demoTarget.key "A-0001")).status =
        some "SOLD" := by
  have hstep (r : Redis) (m : SeedMove) : demoTarget.Step r m (demoTarget.exec r m) := rfl
  obtain ⟨hquota, _, hiff⟩ :=
    reseeds_consistent_iff demoStore_unseeded (Run.of_record hstep demoStore demoReseed)
  have hfits : ∀ p ∈ Run.record demoTarget.exec demoStore demoReseed, demoTarget.Fits p.1 p.2 := by
    simp only [demoReseed, Run.record, List.forall_mem_cons]
    refine ⟨?_, trivial, trivial, ?_, by simp⟩
    · intro _
      decide +kernel
    · intro _
      decide +kernel
  exact ⟨(hiff.mpr hfits).2, hquota, by decide +kernel⟩

theorem five_digits_number_again : ¬ ∀ (C : SeedTarget) (r r' : Redis) (tr : List (Redis × SeedMove)),
    C.Unseeded r → Run C.Step r tr r' → (∀ p ∈ tr, ∃ q price iso, p.2 = .seed q price iso) →
    C.Consistent r' := by
  intro h
  let small : Quota := ⟨9999, by decide, by decide⟩
  let large : Quota := ⟨10000, by decide, by decide⟩
  have hempty : demoTarget.quota demoStore = 0 := rfl
  have hn := demoStore_unseeded.numbered.reseeded (SeedTarget.reseeded_seed small none none)
    fun h0 => absurd h0 (by rw [hempty]; decide)
  have hquota : demoTarget.quota (demoTarget.exec demoStore (.seed small none none)) = 9999 :=
    (SeedTarget.reseeded_seed small none none).quota
  refine SeedTarget.not_consistent_of_reseeded hn (SeedTarget.reseeded_seed large none none) ?_
    (h _ _ _ _ demoStore_unseeded ((Run.single rfl).snoc rfl) (by simp))
  rw [hquota]
  decide

end Demo

end CrowdTic
