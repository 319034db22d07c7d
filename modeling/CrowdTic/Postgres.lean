import CrowdTic.Uuid
import Mathlib.Data.List.Nodup

/-! The tables of `sql/001_schema.sql` that the booking service reads and
writes, and the queries of `internal/store/postgres.go`. A query that breaks a
constraint is `none` and changes nothing. Times are in microseconds. -/

namespace CrowdTic

structure EventRow where
  maxTicketPerUser : Nat
  chk_max : 1 ≤ maxTicketPerUser ∧ maxTicketPerUser ≤ 10

structure CategoryRow where
  price : Nat

inductive SeatStatus
  | available | held | reserved | sold
  deriving DecidableEq

structure SeatRow (U : Type) where
  categoryId : U
  status : SeatStatus
  version : Nat

structure Reservation (U : Type) where
  holdId : String
  userId : U
  eventId : U
  categoryId : U
  seatIds : List U
  expiresAt : Int
  deriving DecidableEq

/-- The `reservations` table, whose `hold_id` is unique. -/
structure Reservations (U : Type) where
  rows : List (Reservation U)
  unique : (rows.map Reservation.holdId).Nodup

inductive OrderStatus
  | pending | paid | expired | cancelled | refunded
  deriving DecidableEq

structure Order (U : Type) where
  id : U
  holdId : String
  userId : U
  eventId : U
  totalAmount : Int
  status : OrderStatus
  idempotencyKey : U
  createdAt : Int
  deriving DecidableEq

structure OrderItem (U : Type) where
  orderId : U
  orderCreatedAt : Int
  seatId : U
  price : Int
  deriving DecidableEq

structure Payment (U : Type) where
  orderId : U
  orderCreatedAt : Int
  amount : Int

structure Db (U : Type) where
  users : U → Bool
  events : U → Option EventRow
  categories : U → Option CategoryRow
  seats : U → Option (SeatRow U)
  reservations : Reservations U
  orders : List (Order U)
  orderItems : List (OrderItem U)
  payments : List (Payment U)
  now : Int

/-- The orders in the order in which a query meets them, and the reservations likewise. -/
structure Scan (U : Type) where
  orders : List (Order U)
  reservations : List (Reservation U)

namespace Reservations

variable {U : Type} (t : Reservations U)

def find (h : String) : Option (Reservation U) := t.rows.find? fun r => r.holdId = h

theorem find_eq_none_iff {h : String} : t.find h = none ↔ ∀ r ∈ t.rows, r.holdId ≠ h := by
  simp [find]

theorem find_eq_some_iff {h : String} {r : Reservation U} :
    t.find h = some r ↔ r ∈ t.rows ∧ r.holdId = h := by
  constructor
  · intro hf
    exact ⟨List.mem_of_find?_eq_some hf, by simpa using List.find?_some hf⟩
  · rintro ⟨hr, rfl⟩
    cases hf : t.find r.holdId with
    | none => exact absurd rfl (t.find_eq_none_iff.mp hf r hr)
    | some x =>
      have hx : x ∈ t.rows := List.mem_of_find?_eq_some hf
      have hid : x.holdId = r.holdId := by simpa using List.find?_some hf
      rw [List.inj_on_of_nodup_map t.unique hx hr hid]

/-- `ON CONFLICT (hold_id) DO NOTHING` -/
def insert (r : Reservation U) : Reservations U :=
  if h : t.find r.holdId = none then
    { rows := t.rows ++ [r]
      unique := by
        have hn := t.find_eq_none_iff.mp h
        rw [List.map_append, List.nodup_append]
        refine ⟨t.unique, by simp, ?_⟩
        rintro _ ha _ hb rfl
        obtain ⟨x, hx, hxa⟩ := List.mem_map.mp ha
        obtain rfl : _ = r.holdId := by simpa using hb
        exact hn x hx hxa }
  else t

def delete (h : String) : Reservations U where
  rows := t.rows.filter fun r => r.holdId ≠ h
  unique := (List.filter_sublist.map _).nodup t.unique

theorem mem_insert {r x : Reservation U} (h : t.find r.holdId = none) :
    x ∈ (t.insert r).rows ↔ x ∈ t.rows ∨ x = r := by
  simp [insert, h]

theorem insert_of_find_ne_none {r : Reservation U} (h : t.find r.holdId ≠ none) : t.insert r = t :=
  dif_neg h

@[simp] theorem mem_delete {h : String} {x : Reservation U} :
    x ∈ (t.delete h).rows ↔ x ∈ t.rows ∧ x.holdId ≠ h := by
  simp [delete]

end Reservations

namespace Db

variable {U : Type}

section Reads

variable [DecidableEq U] (db : Db U)

def checkIdempotency (rows : List (Order U)) (idem userId : U) : Option U :=
  (rows.find? fun o => o.idempotencyKey = idem ∧ o.userId = userId).map Order.id

theorem of_checkIdempotency {rows : List (Order U)} {idem userId x : U}
    (h : checkIdempotency rows idem userId = some x) :
    ∃ o ∈ rows, o.idempotencyKey = idem ∧ o.userId = userId ∧ o.id = x := by
  obtain ⟨o, ho, hid⟩ := Option.map_eq_some_iff.mp h
  have hkey := List.find?_some ho
  simp only [decide_eq_true_eq] at hkey
  exact ⟨o, List.mem_of_find?_eq_some ho, hkey.1, hkey.2, hid⟩

def getEvent (eventId : U) : Option Nat := (db.events eventId).map EventRow.maxTicketPerUser

def getReservation (holdId : String) : Option (Reservation U) := db.reservations.find holdId

def selectPrice (catId : U) : Option Nat := (db.categories catId).map CategoryRow.price

/-- `WHERE expires_at < now() LIMIT limit`, in no fixed order. -/
def expiredReservations (rows : List (Reservation U)) (limit : Nat) : List (Reservation U) :=
  (rows.filter fun r => r.expiresAt < db.now).take limit

omit [DecidableEq U] in
theorem expiredReservations_sublist (rows : List (Reservation U)) (limit : Nat) :
    (db.expiredReservations rows limit).Sublist rows :=
  (List.take_sublist _ _).trans List.filter_sublist

end Reads

section Writes

variable [DecidableEq U] (db : Db U)

/-- The foreign keys of a new row of `reservations`. -/
def RefersToRows (r : Reservation U) : Prop :=
  db.users r.userId = true ∧ db.events r.eventId ≠ none ∧ db.categories r.categoryId ≠ none

instance (r : Reservation U) : Decidable (db.RefersToRows r) := inferInstanceAs (Decidable (_ ∧ _ ∧ _))

def insertReservation (r : Reservation U) : Option (Db U) :=
  if r.expiresAt ≤ db.now then none
  else if db.getReservation r.holdId ≠ none then some db
  else if db.RefersToRows r then some { db with reservations := db.reservations.insert r }
  else none

/-- A row that an order refers to cannot be deleted. -/
def deleteReservation (holdId : String) : Option (Db U) :=
  if db.getReservation holdId ≠ none ∧ ∃ o ∈ db.orders, o.holdId = holdId then none
  else some { db with reservations := db.reservations.delete holdId }

/-- The partitions `orders_p2026_q3` and `orders_p2026_q4`. -/
def InPartition (createdAt : Int) : Prop :=
  1782864000000000 ≤ createdAt ∧ createdAt < 1798761600000000

instance (t : Int) : Decidable (InPartition t) := inferInstanceAs (Decidable (_ ∧ _))

def AdmitsOrder (o : Order U) : Prop :=
  InPartition o.createdAt ∧ 0 ≤ o.totalAmount ∧
  db.getReservation o.holdId ≠ none ∧ db.users o.userId = true ∧ db.events o.eventId ≠ none ∧
  ∀ x ∈ db.orders, x.createdAt = o.createdAt →
    x.id ≠ o.id ∧ ¬ (x.idempotencyKey = o.idempotencyKey ∧ x.userId = o.userId)

instance (o : Order U) : Decidable (db.AdmitsOrder o) := inferInstanceAs (Decidable (_ ∧ _))

/-- An item of the order, unless the order has the seat already, and the seat is SOLD. -/
def insertItem (o : Order U) (seatId : U) (price : Int) : Option (Db U) :=
  (db.seats seatId).map fun row =>
    { db with
      orderItems :=
        if ∃ i ∈ db.orderItems, i.orderId = o.id ∧ i.seatId = seatId then db.orderItems
        else db.orderItems ++ [⟨o.id, o.createdAt, seatId, price⟩]
      seats := fun u =>
        if u = seatId then some { row with status := .sold, version := row.version + 1 }
        else db.seats u }

def insertPayment (o : Order U) : Db U :=
  if ∃ p ∈ db.payments, p.orderId = o.id then db
  else { db with payments := db.payments ++ [⟨o.id, o.createdAt, o.totalAmount⟩] }

/-- `InsertOrderTx` from its `INSERT INTO orders` on, to the commit of the transaction. -/
def insertOrder (o : Order U) (items : List (U × Int)) : Option (Db U) :=
  if db.AdmitsOrder o then
    (items.foldlM (fun (d : Db U) i => d.insertItem o i.1 i.2) { db with orders := db.orders ++ [o] }).map
      (insertPayment · o)
  else none

end Writes

section Effects

variable {db db' : Db U}

theorem insertReservation_eq [DecidableEq U] {r : Reservation U}
    (h : db.insertReservation r = some db') :
    db' = { db with reservations := db.reservations.insert r } := by
  by_cases h1 : r.expiresAt ≤ db.now
  · simp [insertReservation, h1] at h
  · by_cases h2 : db.getReservation r.holdId = none
    · by_cases h3 : db.RefersToRows r
      · simpa [insertReservation, h1, h2, h3, eq_comm] using h
      · simp [insertReservation, h1, h2, h3] at h
    · have hd : db' = db := by simpa [insertReservation, h1, h2, eq_comm] using h
      rw [hd, Reservations.insert_of_find_ne_none _ h2]

theorem insertReservation_isSome_iff [DecidableEq U] {r : Reservation U}
    (hnew : db.getReservation r.holdId = none) :
    (db.insertReservation r).isSome ↔ db.now < r.expiresAt ∧ db.RefersToRows r := by
  by_cases h1 : r.expiresAt ≤ db.now
  · simp [insertReservation, h1, Int.not_lt.mpr h1]
  · by_cases h2 : db.RefersToRows r
    · simp [insertReservation, h1, hnew, h2, Int.not_le.mp h1]
    · simp [insertReservation, h1, hnew, h2]

theorem deleteReservation_eq [DecidableEq U] {holdId : String} (h : db.deleteReservation holdId = some db') :
    db' = { db with reservations := db.reservations.delete holdId } := by
  by_cases hr : db.getReservation holdId ≠ none ∧ ∃ o ∈ db.orders, o.holdId = holdId
  · simp [deleteReservation, hr] at h
  · rw [deleteReservation, if_neg hr] at h
    exact (Option.some.inj h).symm

/-- Nothing that the service only reads has changed. -/
structure SameCatalog (db db' : Db U) : Prop where
  users : db'.users = db.users
  events : db'.events = db.events
  categories : db'.categories = db.categories
  seats : ∀ u, (db'.seats u).map SeatRow.categoryId = (db.seats u).map SeatRow.categoryId

theorem SameCatalog.refl (db : Db U) : SameCatalog db db := ⟨rfl, rfl, rfl, fun _ => rfl⟩

theorem SameCatalog.trans {db'' : Db U} (h : SameCatalog db db') (h' : SameCatalog db' db'') :
    SameCatalog db db'' where
  users := h'.users.trans h.users
  events := h'.events.trans h.events
  categories := h'.categories.trans h.categories
  seats u := (h'.seats u).trans (h.seats u)

structure ItemsInserted (o : Order U) (items : List (U × Int)) (db db' : Db U) : Prop where
  orders : db'.orders = db.orders
  reservations : db'.reservations = db.reservations
  now : db'.now = db.now
  catalog : SameCatalog db db'
  kept : ∀ i ∈ db.orderItems, i ∈ db'.orderItems
  added : ∀ i ∈ db'.orderItems, i ∈ db.orderItems ∨ i.orderId = o.id ∧ (i.seatId, i.price) ∈ items
  seats : ∀ i ∈ items, db.seats i.1 ≠ none

section Items

variable [DecidableEq U]

theorem itemsInserted_insertItem {o : Order U} {seatId : U} {price : Int}
    (h : db.insertItem o seatId price = some db') :
    ItemsInserted o [(seatId, price)] db db' := by
  obtain ⟨row, hrow, rfl⟩ := Option.map_eq_some_iff.mp h
  refine ⟨rfl, rfl, rfl, ⟨rfl, rfl, rfl, fun u => ?_⟩, ?_, ?_, by simp [hrow]⟩
  · by_cases hu : u = seatId <;> simp [hu, hrow]
  · intro i hi
    dsimp only
    split
    · exact hi
    · exact List.mem_append_left _ hi
  · intro i hi
    dsimp only at hi
    split at hi
    · exact .inl hi
    · rcases List.mem_append.mp hi with hi | hi
      · exact .inl hi
      · obtain rfl := List.mem_singleton.mp hi
        exact .inr ⟨rfl, List.mem_singleton.mpr rfl⟩

theorem itemsInserted_foldlM {o : Order U} {items : List (U × Int)}
    (h : items.foldlM (fun (d : Db U) i => d.insertItem o i.1 i.2) db = some db') :
    ItemsInserted o items db db' := by
  induction items generalizing db with
  | nil =>
    obtain rfl : db = db' := by simpa using h
    exact ⟨rfl, rfl, rfl, .refl _, fun _ hi => hi, fun _ hi => .inl hi, by simp⟩
  | cons i items ih =>
    rw [List.foldlM_cons, Option.bind_eq_bind, Option.bind_eq_some_iff] at h
    obtain ⟨d, hd, hr⟩ := h
    have h1 := itemsInserted_insertItem hd
    have h2 := ih hr
    refine ⟨h2.orders.trans h1.orders, h2.reservations.trans h1.reservations,
      h2.now.trans h1.now, h1.catalog.trans h2.catalog, fun j hj => h2.kept j (h1.kept j hj), ?_, ?_⟩
    · intro j hj
      rcases h2.added j hj with hj | ⟨ho, hj⟩
      · rcases h1.added j hj with hj | ⟨ho, hj⟩
        · exact .inl hj
        · exact .inr ⟨ho, List.mem_cons.mpr (.inl (List.mem_singleton.mp hj))⟩
      · exact .inr ⟨ho, List.mem_cons_of_mem _ hj⟩
    · intro j hj
      rcases List.mem_cons.mp hj with rfl | hj
      · exact h1.seats _ (List.mem_singleton.mpr rfl)
      · have hs := h2.seats j hj
        have hc := h1.catalog.seats j.1
        intro hn
        rw [hn] at hc
        exact hs (by simpa using hc)

structure OrderInserted (o : Order U) (items : List (U × Int)) (db db' : Db U) : Prop
    extends ItemsInserted o items { db with orders := db.orders ++ [o] } db' where
  admitted : db.AdmitsOrder o

theorem orderInserted_insertOrder {o : Order U} {items : List (U × Int)}
    (h : db.insertOrder o items = some db') : OrderInserted o items db db' := by
  by_cases ha : db.AdmitsOrder o
  · rw [insertOrder, if_pos ha, Option.map_eq_some_iff] at h
    obtain ⟨d, hd, rfl⟩ := h
    have hi := itemsInserted_foldlM hd
    by_cases hp : ∃ p ∈ d.payments, p.orderId = o.id
    · rw [insertPayment, if_pos hp]
      exact ⟨hi, ha⟩
    · rw [insertPayment, if_neg hp]
      exact ⟨⟨hi.orders, hi.reservations, hi.now,
        ⟨hi.catalog.users, hi.catalog.events, hi.catalog.categories, hi.catalog.seats⟩,
        hi.kept, hi.added, hi.seats⟩, ha⟩
  · simp [insertOrder, ha] at h

end Items

end Effects

end Db

end CrowdTic
