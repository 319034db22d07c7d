import CrowdTic.CommitLua
import CrowdTic.Decimal

/-! The script `redis/seed.lua`. It creates the inventory hash of a category or
raises its quota, and creates each seat that has no status yet. -/

namespace CrowdTic

/-- `ARGV`. An empty quota, price or sale time counts as missing, and a price that is no number as 0. -/
structure SeedArgs where
  eventId : String
  catId : String
  quota : Option Int
  seatPrefix : Option String
  price : Option Int
  onSaleIso : Option String

namespace SeedArgs

variable (a : SeedArgs)

def invKey : String := inventoryKey a.eventId a.catId

def seatKey (seatNo : String) : String := CrowdTic.seatKey a.eventId (a.catId ++ ":" ++ seatNo)

def seatNo (pad i : Nat) : String := a.seatPrefix.getD "S" ++ "-" ++ Decimal.padded pad i

def pad (quota : Nat) : Nat := if Decimal.width quota < 4 then 4 else Decimal.width quota

def seatNos (quota : Nat) : List String := (List.range' 1 quota).map (a.seatNo (pad quota))

end SeedArgs

def seedRefusal (a : SeedArgs) : Option String :=
  if a.eventId = "" then some "event_id required (ARGV1)"
  else if a.catId = "" then some "category_id required (ARGV2)"
  else match a.quota with
    | none => some "quota required (ARGV3)"
    | some quota =>
      if quota ≤ 0 then some "quota must be >0"
      else if 50000 < quota then some "quota too large (max 50000 per category per seed call)"
      else none

def seedInventory (a : SeedArgs) (quota : Int) (r : Redis) : Redis :=
  if r.hashes.get a.invKey = none then
    let r := (r.hsetNum a.invKey .quota quota).hsetNum a.invKey .available quota
    let r := (r.hsetNum a.invKey .held 0).hsetNum a.invKey .sold 0
    let r := r.hsetNum a.invKey .price (a.price.getD 0)
    (r.hset a.invKey .categoryId a.catId).hset a.invKey .eventId a.eventId
  else
    let curQuota := (r.hashes.hgetNum a.invKey .quota).getD 0
    let curAvail := (r.hashes.hgetNum a.invKey .available).getD 0
    if curQuota < quota then
      let r := (r.hsetNum a.invKey .quota quota).hsetNum a.invKey .available (curAvail + (quota - curQuota))
      match a.price with
      | none => r
      | some price => r.hsetNum a.invKey .price price
    else r

def seedMeta (a : SeedArgs) (r : Redis) : Redis :=
  match a.onSaleIso with
  | none => r
  | some iso =>
    if r.hashes.hget (metaKey a.eventId) .onSaleAt = none then
      (r.hset (metaKey a.eventId) .onSaleAt iso).hset (metaKey a.eventId) .eventId a.eventId
    else r

def seedSeat (a : SeedArgs) (r : Redis) (seatNo : String) : Redis :=
  let k := a.seatKey seatNo
  if r.hashes.hget k .status = none then
    let r := (r.hset k .status "AVAILABLE").hsetNum k .version 1
    ((r.hset k .eventId a.eventId).hset k .categoryId a.catId).hset k .seatNumber seatNo
  else r

def seedWrites (r : Redis) (a : SeedArgs) (quota : Nat) : Redis :=
  (a.seatNos quota).foldl (seedSeat a) (seedMeta a (seedInventory a quota r))

def seedReply (r : Redis) (a : SeedArgs) (quota : Nat) : Reply :=
  let created := (a.seatNos quota).countP fun no => r.hashes.hget (a.seatKey no) .status = none
  let r := seedWrites r a quota
  let count (f : NumField) := toString ((r.hashes.hgetNum a.invKey f).getD 0)
  .ok "SEEDED" [("event_id", a.eventId), ("category_id", a.catId), ("quota", toString quota),
    ("created", toString created), ("skipped", toString (quota - created)),
    ("inventory.available", count .available), ("inventory.held", count .held),
    ("inventory.sold", count .sold)]

def seedSrc (r : Redis) (a : SeedArgs) : Reply × Redis :=
  match seedRefusal a with
  | some e => (.err e, r)
  | none =>
    let quota := (a.quota.getD 0).toNat
    (seedReply r a quota, seedWrites r a quota)

section Refusal

variable {a : SeedArgs}

theorem seedRefusal_eq_none_iff : seedRefusal a = none ↔
    a.eventId ≠ "" ∧ a.catId ≠ "" ∧ ∃ quota, a.quota = some quota ∧ 0 < quota ∧ quota ≤ 50000 := by
  by_cases he : a.eventId = ""
  · simp [seedRefusal, he]
  · by_cases hc : a.catId = ""
    · simp [seedRefusal, he, hc]
    · cases hq : a.quota with
      | none => simp [seedRefusal, he, hc, hq]
      | some quota =>
        by_cases h0 : quota ≤ 0
        · simp [seedRefusal, he, hc, hq, h0]
        · by_cases h5 : 50000 < quota
          · simp [seedRefusal, he, hc, hq, h0, h5]
          · simp [seedRefusal, he, hc, hq, h0, h5, Int.not_le.mp h0, Int.not_lt.mp h5]

theorem seedSrc_accepted {r : Redis} {quota : Nat} (he : a.eventId ≠ "") (hc : a.catId ≠ "")
    (hq : a.quota = some (quota : Int)) (h0 : 0 < quota) (h5 : quota ≤ 50000) :
    (seedSrc r a).2 = seedWrites r a quota := by
  have hr : seedRefusal a = none :=
    seedRefusal_eq_none_iff.mpr ⟨he, hc, quota, hq, Int.natCast_pos.mpr h0, by omega⟩
  simp [seedSrc, hr, hq]

end Refusal

section Effects

variable (a : SeedArgs) (r : Redis) (quota : Nat)

@[simp] theorem SeedArgs.seatKey_inj (no no' : String) : a.seatKey no = a.seatKey no' ↔ no = no' := by
  simp [SeedArgs.seatKey]

theorem SeedArgs.seatKey_ne_invKey (no : String) : a.seatKey no ≠ a.invKey :=
  seatKey_ne_inventoryKey _ _ _ _

/-- What a seat hash becomes, with its deadline, when its number is seeded. -/
def seeded (no : String) (v : Option Hash × Option Nat) : Option Hash × Option Nat :=
  if v.1.bind (·.text .status) = none then
    let h := ((v.1.getD .empty).setText .status (some "AVAILABLE")).setNum .version (some 1)
    let h := (h.setText .eventId (some a.eventId)).setText .categoryId (some a.catId)
    (some (h.setText .seatNumber (some no)), v.2)
  else v

theorem seeded_seeded (no : String) (v : Option Hash × Option Nat) :
    seeded a no (seeded a no v) = seeded a no v := by
  by_cases h : v.1.bind (·.text .status) = none <;> simp [seeded, h, Hash.setText, Hash.setNum]

def Redis.entry (r : Redis) (k : String) : Option Hash × Option Nat := (r.hashes.get k, r.hashes.ttl k)

theorem entry_seedSeat (no no' : String) : (seedSeat a r no).entry (a.seatKey no') =
    if no' = no then seeded a no' (r.entry (a.seatKey no')) else r.entry (a.seatKey no') := by
  by_cases hs : r.hashes.hget (a.seatKey no) .status = none
  · by_cases hno : no' = no
    · subst hno
      have hs' : (r.hashes.get (a.seatKey no')).bind (·.text .status) = none := hs
      simp [seedSeat, seeded, Redis.entry, hs, hs', Hashes.hset, Hashes.hsetNum]
    · simp [seedSeat, Redis.entry, hs, Hashes.hset, Hashes.hsetNum, hno]
  · by_cases hno : no' = no
    · subst hno
      have hs' : ¬ (r.hashes.get (a.seatKey no')).bind (·.text .status) = none := hs
      simp [seedSeat, seeded, Redis.entry, hs, hs']
    · simp [seedSeat, hs, hno]

theorem entry_seedSeat_of_ne {k : String} (hk : ∀ no, k ≠ a.seatKey no) (no : String) :
    (seedSeat a r no).entry k = r.entry k := by
  by_cases hs : r.hashes.hget (a.seatKey no) .status = none <;>
    simp [seedSeat, Redis.entry, hs, Hashes.hset, Hashes.hsetNum, hk no]

theorem entry_seedMeta {k : String} (hk : k ≠ metaKey a.eventId) :
    (seedMeta a r).entry k = r.entry k := by
  cases ho : a.onSaleIso with
  | none => simp [seedMeta, ho]
  | some iso =>
    by_cases hs : r.hashes.hget (metaKey a.eventId) .onSaleAt = none <;>
      simp [seedMeta, ho, hs, Redis.entry, Hashes.hset, hk]

theorem entry_seedInventory (q : Int) {k : String} (hk : k ≠ a.invKey) :
    (seedInventory a q r).entry k = r.entry k := by
  by_cases hi : r.hashes.get a.invKey = none
  · simp [seedInventory, hi, Redis.entry, Hashes.hset, Hashes.hsetNum, hk]
  · by_cases hq : (r.hashes.hgetNum a.invKey .quota).getD 0 < q
    · cases hp : a.price <;> simp [seedInventory, hi, hq, hp, Redis.entry, Hashes.hsetNum, hk]
    · simp [seedInventory, hi, hq]

theorem entry_seedWrites (no : String) : (seedWrites r a quota).entry (a.seatKey no) =
    if no ∈ a.seatNos quota then seeded a no (r.entry (a.seatKey no)) else r.entry (a.seatKey no) := by
  have hloop := Keyed.foldl_view (fun (s : Redis) no => (no, s.entry (a.seatKey no)))
    (g := seedSeat a) (φ := fun v => (v.1, seeded a v.1 v.2))
    (fun v => by simp [seeded_seeded])
    (fun s no no' => by rw [entry_seedSeat]; split <;> rfl)
    (a.seatNos quota) (seedMeta a (seedInventory a quota r)) no
  have hbase : (seedMeta a (seedInventory a quota r)).entry (a.seatKey no) = r.entry (a.seatKey no) := by
    have hmeta : a.seatKey no ≠ metaKey a.eventId := seatKey_ne_metaKey _ _ _
    rw [entry_seedMeta a _ hmeta, entry_seedInventory a r _ (a.seatKey_ne_invKey no)]
  rw [hbase] at hloop
  rw [seedWrites]
  by_cases hno : no ∈ a.seatNos quota
  · rw [if_pos hno] at hloop ⊢
    exact (Prod.mk.inj hloop).2
  · rw [if_neg hno] at hloop ⊢
    exact (Prod.mk.inj hloop).2

theorem entry_seedWrites_invKey :
    (seedWrites r a quota).entry a.invKey = (seedInventory a quota r).entry a.invKey := by
  have hloop := Keyed.foldl_unchanged (fun s : Redis => s.entry a.invKey) (g := seedSeat a)
    (fun s no => entry_seedSeat_of_ne a s (fun no' => (a.seatKey_ne_invKey no').symm) no)
    (a.seatNos quota) (seedMeta a (seedInventory a quota r))
  have hmeta : a.invKey ≠ metaKey a.eventId := inventoryKey_ne_metaKey _ _ _
  rw [seedWrites, hloop, entry_seedMeta a _ hmeta]

theorem ttl_seedInventory (q : Int) :
    (seedInventory a q r).hashes.ttl a.invKey = r.hashes.ttl a.invKey := by
  by_cases hi : r.hashes.get a.invKey = none
  · simp [seedInventory, hi]
  · by_cases hq : (r.hashes.hgetNum a.invKey .quota).getD 0 < q
    · cases hp : a.price <;> simp [seedInventory, hi, hq, hp]
    · simp [seedInventory, hi, hq]

/-- The quota grows to the one that is seeded, and `available` grows with it. -/
theorem inventory_seedInventory {q : Int} (h0 : 0 ≤ q) :
    let num (s : Redis) (f : NumField) := (s.hashes.hgetNum a.invKey f).getD 0
    num (seedInventory a q r) .quota = max (num r .quota) q ∧
      num (seedInventory a q r) .available = num r .available + (max (num r .quota) q - num r .quota) ∧
      num (seedInventory a q r) .held = num r .held ∧ num (seedInventory a q r) .sold = num r .sold := by
  intro num
  by_cases hi : r.hashes.get a.invKey = none
  · have hnone (f : NumField) : r.hashes.hgetNum a.invKey f = none := by simp [Hashes.hgetNum, hi]
    have hmax : max 0 q = q := max_eq_right h0
    simp [num, seedInventory, hi, hnone, hmax]
  · by_cases hq : (r.hashes.hgetNum a.invKey .quota).getD 0 < q
    · have hmax : max ((r.hashes.hgetNum a.invKey .quota).getD 0) q = q := max_eq_right hq.le
      cases hp : a.price <;> simp [num, seedInventory, hi, hq, hp, hmax]
    · have hmax : max ((r.hashes.hgetNum a.invKey .quota).getD 0) q =
          (r.hashes.hgetNum a.invKey .quota).getD 0 := max_eq_left (Int.not_lt.mp hq)
      simp [num, seedInventory, hi, hq, hmax]

end Effects

end CrowdTic
