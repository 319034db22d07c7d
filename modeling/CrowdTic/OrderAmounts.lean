import CrowdTic.OrderItems
import CrowdTic.Recovery
import Mathlib.Algebra.Ring.Int.Defs

/-! The rows of a new order against the list of its commit request. The total
counts every entry of the list, the items are the entries that parse as UUIDs,
and the table keeps one item for each seat. -/

namespace CrowdTic

namespace Db

variable {U : Type}

/-- Every item and every payment belongs to an order of the table. -/
structure Linked (db : Db U) : Prop where
  items : ∀ i ∈ db.orderItems, ∃ o ∈ db.orders, o.id = i.orderId
  payments : ∀ p ∈ db.payments, ∃ o ∈ db.orders, o.id = p.orderId

variable [DecidableEq U]

def itemsOf (db : Db U) (orderId : U) : List (OrderItem U) :=
  db.orderItems.filter fun i => i.orderId = orderId

def paymentsOf (db : Db U) (orderId : U) : List (Payment U) :=
  db.payments.filter fun p => p.orderId = orderId

/-- The items of the order are one for each of the seats, all at one price. -/
structure Listed (o : Order U) (price : Int) (seats : List U) (db : Db U) : Prop where
  items : db.itemsOf o.id = seats.map fun u => ⟨o.id, o.createdAt, u, price⟩
  nodup : seats.Nodup

variable {db db' : Db U} {o : Order U} {price : Int} {seats : List U}

theorem insertItem_payments {seatId : U} (h : db.insertItem o seatId price = some db') :
    db'.payments = db.payments := by
  obtain ⟨_, _, rfl⟩ := Option.map_eq_some_iff.mp h
  rfl

theorem Listed.insertItem {seatId : U} (hl : Listed o price seats db)
    (h : db.insertItem o seatId price = some db') :
    Listed o price (if seatId ∈ seats then seats else seats ++ [seatId]) db' := by
  obtain ⟨_, _, rfl⟩ := Option.map_eq_some_iff.mp h
  have hmem : (∃ i ∈ db.orderItems, i.orderId = o.id ∧ i.seatId = seatId) ↔ seatId ∈ seats := by
    have hseats : (db.itemsOf o.id).map OrderItem.seatId = seats := by
      rw [hl.items, List.map_map]
      exact List.map_id seats
    rw [← hseats]
    simp [itemsOf, and_assoc]
  by_cases hs : seatId ∈ seats
  · rw [if_pos hs]
    exact ⟨by simpa [itemsOf, hmem, hs] using hl.items, hl.nodup⟩
  · rw [if_neg hs]
    have hitems := hl.items
    rw [itemsOf] at hitems
    exact ⟨by simp [itemsOf, hmem, hs, hitems], hl.nodup.append (List.nodup_singleton _) (by simpa)⟩

theorem payments_foldlM {items : List (U × Int)}
    (h : items.foldlM (fun (d : Db U) i => d.insertItem o i.1 i.2) db = some db') :
    db'.payments = db.payments := by
  induction items generalizing db with
  | nil =>
    obtain rfl : db = db' := by simpa using h
    rfl
  | cons i items ih =>
    rw [List.foldlM_cons, Option.bind_eq_bind, Option.bind_eq_some_iff] at h
    obtain ⟨d, hd, hr⟩ := h
    exact (ih hr).trans (insertItem_payments hd)

theorem Listed.foldlM {us : List U} (hl : Listed o price seats db)
    (h : (us.map (·, price)).foldlM (fun (d : Db U) i => d.insertItem o i.1 i.2) db = some db') :
    ∃ seats', Listed o price seats' db' ∧ ∀ u, u ∈ seats' ↔ u ∈ seats ∨ u ∈ us := by
  induction us generalizing db seats with
  | nil =>
    obtain rfl : db = db' := by simpa using h
    exact ⟨seats, hl, by simp⟩
  | cons u us ih =>
    rw [List.map_cons, List.foldlM_cons, Option.bind_eq_bind, Option.bind_eq_some_iff] at h
    obtain ⟨d, hd, hr⟩ := h
    obtain ⟨seats', hl', hmem⟩ := ih (hl.insertItem hd) hr
    refine ⟨seats', hl', fun v => ?_⟩
    rw [hmem]
    by_cases hu : u ∈ seats
    · rw [if_pos hu, List.mem_cons]
      refine ⟨fun hv => hv.imp_right .inr, fun hv => ?_⟩
      rcases hv with hv | rfl | hv
      · exact .inl hv
      · exact .inl hu
      · exact .inr hv
    · simp [hu, or_assoc]

theorem insertOrder_eq {items : List (U × Int)} (h : db.insertOrder o items = some db') :
    ∃ d, items.foldlM (fun (d : Db U) i => d.insertItem o i.1 i.2)
      { db with orders := db.orders ++ [o] } = some d ∧ db' = d.insertPayment o := by
  by_cases ha : db.AdmitsOrder o
  · rw [insertOrder, if_pos ha, Option.map_eq_some_iff] at h
    obtain ⟨d, hd, hdb⟩ := h
    exact ⟨d, hd, hdb.symm⟩
  · simp [insertOrder, ha] at h

theorem orderItems_insertPayment : (db.insertPayment o).orderItems = db.orderItems := by
  rw [insertPayment]
  split <;> rfl

theorem of_mem_insertPayment {p : Payment U} (hp : p ∈ (db.insertPayment o).payments) :
    p ∈ db.payments ∨ p.orderId = o.id := by
  rw [insertPayment] at hp
  split at hp
  · exact .inl hp
  · rcases List.mem_append.mp hp with hp | hp
    · exact .inl hp
    · obtain rfl := List.mem_singleton.mp hp
      exact .inr rfl

theorem paymentsOf_insertPayment (h : ∀ p ∈ db.payments, p.orderId ≠ o.id) :
    (db.insertPayment o).paymentsOf o.id = [⟨o.id, o.createdAt, o.totalAmount⟩] := by
  have hnone : ¬ ∃ p ∈ db.payments, p.orderId = o.id := fun ⟨p, hp, he⟩ => h p hp he
  have hold : db.payments.filter (fun p => p.orderId = o.id) = [] := by simpa using h
  rw [insertPayment, if_neg hnone, paymentsOf, List.filter_append, hold]
  simp

theorem Linked.insertOrder {items : List (U × Int)} (hl : db.Linked)
    (h : db.insertOrder o items = some db') : db'.Linked := by
  have hins := orderInserted_insertOrder h
  have hnew : ∃ x ∈ db'.orders, x.id = o.id :=
    ⟨o, hins.orders ▸ List.mem_concat_self, rfl⟩
  have hkept {u : U} (ho : ∃ x ∈ db.orders, x.id = u) : ∃ x ∈ db'.orders, x.id = u := by
    obtain ⟨x, hx, hid⟩ := ho
    exact ⟨x, hins.orders ▸ List.mem_append_left _ hx, hid⟩
  refine ⟨fun i hi => ?_, fun p hp => ?_⟩
  · rcases hins.added i hi with hi | ⟨hid, _⟩
    · exact hkept (hl.items i hi)
    · exact hid ▸ hnew
  · obtain ⟨d, hd, rfl⟩ := insertOrder_eq h
    rcases of_mem_insertPayment hp with hp | hid
    · exact hkept (hl.payments p (by simpa [payments_foldlM hd] using hp))
    · exact hid ▸ hnew

end Db

section Lists

variable {U : Type} (L : UuidLib U)

/-- The item is for the seat whose key was made from an id that parses to its UUID. -/
def OrderItem.IsFor (e : String) (i : OrderItem U) (k : String) : Prop :=
  ∃ s, k = seatKey e s ∧ L.parse s = (i.seatId, true)

/-- The items of the order match the distinct seat keys one to one, their prices
add up to the total, and the order is paid once, with its total. -/
structure AddsUp [DecidableEq U] (db : Db U) (q : CommitRequest U) (ss : List String) (o : Order U) :
    Prop where
  sum : ((db.itemsOf o.id).map OrderItem.price).sum = o.totalAmount
  paid : (db.paymentsOf o.id).map Payment.amount = [o.totalAmount]
  apart : ((db.itemsOf o.id).map OrderItem.seatId).Nodup
  item : ∀ k ∈ q.seatKeys ss, ∃! i, i ∈ db.itemsOf o.id ∧ i.IsFor L q.queueEventId k
  seat : ∀ i ∈ db.itemsOf o.id, ∃! k, k ∈ q.seatKeys ss ∧ i.IsFor L q.queueEventId k

/-- Each id of the list is a UUID of its own, and in 64 bits its repetitions cost nothing. -/
structure CountsOnce (ss : List String) (price : Int) : Prop where
  parses : ∀ s ∈ ss, (L.parse s).2 = true
  apart : ∀ s ∈ ss, ∀ s' ∈ ss, L.value s = L.value s' → s = s'
  repeats : (price * (ss.length - ss.dedup.length)).bmod (2 ^ 64) = 0
  fits : (price * ss.dedup.length).bmod (2 ^ 64) = price * ss.dedup.length

theorem total_eq_iff {ss : List String} {price : Int} :
    CommitRequest.total ss price = price * ss.dedup.length ↔
      (price * (ss.length - ss.dedup.length)).bmod (2 ^ 64) = 0 ∧
        (price * ss.dedup.length).bmod (2 ^ 64) = price * ss.dedup.length := by
  rw [Int.mul_sub, ← Int.bmod_eq_bmod_iff_bmod_sub_eq_zero, CommitRequest.total]
  constructor
  · intro h
    have hfits : (price * ss.dedup.length).bmod (2 ^ 64) = price * ss.dedup.length := by
      rw [← h, Int.bmod_bmod]
    exact ⟨h.trans hfits.symm, hfits⟩
  · exact fun h => h.1.trans h.2

variable {L} [DecidableEq U] {db db' : Db U} {o : Order U} {q : CommitRequest U} {ss : List String}
  {price : Int} {us : List U}

omit [DecidableEq U] in
theorem mem_parsed {ss : List String} {u : U} :
    u ∈ L.parsed ss ↔ ∃ s ∈ ss, L.parse s = (u, true) := by
  simp only [UuidLib.parsed, List.mem_filterMap, UuidLib.value]
  refine exists_congr fun s => and_congr_right fun _ => ?_
  rcases L.parse s with ⟨v, ok⟩
  cases ok <;> simp

omit [DecidableEq U] in
theorem parse_eq_iff {s : String} {u : U} :
    L.parse s = (u, true) ↔ L.value s = u ∧ (L.parse s).2 = true :=
  Prod.ext_iff

theorem Db.Listed.mem_itemsOf (hl : Db.Listed o price us db) {i : OrderItem U} :
    i ∈ db.itemsOf o.id ↔ ∃ u ∈ us, i = ⟨o.id, o.createdAt, u, price⟩ := by
  simp [hl.items, eq_comm]

theorem Db.Listed.length_eq (hl : Db.Listed o price us db) (hmem : ∀ u, u ∈ us ↔ u ∈ L.parsed ss)
    (hp : ∀ s ∈ ss, (L.parse s).2 = true) (ha : ∀ s ∈ ss, ∀ s' ∈ ss, L.value s = L.value s' → s = s') :
    us.length = ss.dedup.length := by
  have hnodup : (ss.dedup.map L.value).Nodup := ss.nodup_dedup.map_on fun s hs s' hs' =>
    ha s (List.mem_dedup.mp hs) s' (List.mem_dedup.mp hs')
  have hperm : us.Perm (ss.dedup.map L.value) := by
    refine (List.perm_ext_iff_of_nodup hl.nodup hnodup).mpr fun u => ?_
    rw [hmem, mem_parsed, List.mem_map]
    refine exists_congr fun s => ?_
    rw [List.mem_dedup]
    exact and_congr_right fun hs => parse_eq_iff.trans (and_iff_left (hp s hs))
  rw [hperm.length_eq, List.length_map]

theorem Db.Listed.sum_eq (hl : Db.Listed o price us db) :
    ((db.itemsOf o.id).map OrderItem.price).sum = price * us.length := by
  rw [hl.items, List.map_map]
  simp [Function.comp_def, mul_comm]

omit [DecidableEq U] in
@[simp] theorem OrderItem.isFor_seatKey {i : OrderItem U} {e s : String} :
    i.IsFor L e (seatKey e s) ↔ L.parse s = (i.seatId, true) := by
  simp [IsFor]

theorem AddsUp.countsOnce (hl : Db.Listed o price us db) (hmem : ∀ u, u ∈ us ↔ u ∈ L.parsed ss)
    (htotal : o.totalAmount = CommitRequest.total ss price) (h : AddsUp L db q ss o) :
    CountsOnce L ss price := by
  have hparse : ∀ s ∈ ss, (L.parse s).2 = true := by
    intro s hs
    obtain ⟨i, ⟨_, hi⟩, _⟩ := h.item (seatKey q.queueEventId s) (List.mem_map.mpr ⟨s, hs, rfl⟩)
    exact (parse_eq_iff.mp (OrderItem.isFor_seatKey.mp hi)).2
  have hapart : ∀ s ∈ ss, ∀ s' ∈ ss, L.value s = L.value s' → s = s' := by
    intro s hs s' hs' hv
    have hk : seatKey q.queueEventId s ∈ q.seatKeys ss := List.mem_map.mpr ⟨s, hs, rfl⟩
    have hk' : seatKey q.queueEventId s' ∈ q.seatKeys ss := List.mem_map.mpr ⟨s', hs', rfl⟩
    obtain ⟨i, ⟨hi, hs_i⟩, _⟩ := h.item _ hk
    have hvi := (parse_eq_iff.mp (OrderItem.isFor_seatKey.mp hs_i)).1
    have hs'_i : i.IsFor L q.queueEventId (seatKey q.queueEventId s') :=
      OrderItem.isFor_seatKey.mpr (parse_eq_iff.mpr ⟨hv.symm.trans hvi, hparse s' hs'⟩)
    exact (seatKey_inj _ _ _).mp ((h.seat i hi).unique ⟨hk, hs_i⟩ ⟨hk', hs'_i⟩)
  have hsum : CommitRequest.total ss price = price * ss.dedup.length := by
    rw [← htotal, ← h.sum, hl.sum_eq, hl.length_eq hmem hparse hapart]
  obtain ⟨hrepeats, hfits⟩ := total_eq_iff.mp hsum
  exact ⟨hparse, hapart, hrepeats, hfits⟩

theorem CountsOnce.addsUp (hl : Db.Listed o price us db) (hmem : ∀ u, u ∈ us ↔ u ∈ L.parsed ss)
    (htotal : o.totalAmount = CommitRequest.total ss price)
    (hpaid : db.paymentsOf o.id = [⟨o.id, o.createdAt, o.totalAmount⟩]) (h : CountsOnce L ss price) :
    AddsUp L db q ss o where
  sum := by
    rw [hl.sum_eq, hl.length_eq hmem h.parses h.apart, htotal]
    exact (total_eq_iff.mpr ⟨h.repeats, h.fits⟩).symm
  paid := by rw [hpaid]; rfl
  apart := by
    rw [hl.items, List.map_map]
    simpa [Function.comp_def] using hl.nodup
  item := by
    intro k hk
    obtain ⟨s, hs, rfl⟩ := List.mem_map.mp hk
    have hu : L.value s ∈ us := (hmem _).mpr (mem_parsed.mpr ⟨s, hs, parse_eq_iff.mpr ⟨rfl, h.parses s hs⟩⟩)
    refine ⟨⟨o.id, o.createdAt, L.value s, price⟩, ⟨hl.mem_itemsOf.mpr ⟨_, hu, rfl⟩,
      OrderItem.isFor_seatKey.mpr (parse_eq_iff.mpr ⟨rfl, h.parses s hs⟩)⟩, ?_⟩
    rintro j ⟨hj, hfor⟩
    obtain ⟨v, _, rfl⟩ := hl.mem_itemsOf.mp hj
    rw [(parse_eq_iff.mp (OrderItem.isFor_seatKey.mp hfor)).1]
  seat := by
    intro i hi
    obtain ⟨u, hu, rfl⟩ := hl.mem_itemsOf.mp hi
    obtain ⟨s, hs, hp⟩ := mem_parsed.mp ((hmem u).mp hu)
    refine ⟨seatKey q.queueEventId s, ⟨List.mem_map.mpr ⟨s, hs, rfl⟩, OrderItem.isFor_seatKey.mpr hp⟩, ?_⟩
    rintro _ ⟨hk, hfor⟩
    obtain ⟨s', hs', rfl⟩ := List.mem_map.mp hk
    have hv : L.value s' = L.value s :=
      (parse_eq_iff.mp (OrderItem.isFor_seatKey.mp hfor)).1.trans (parse_eq_iff.mp hp).1.symm
    rw [h.apart s' hs' s hs hv]

theorem addsUp_insertOrder_iff {createdAt : Int} (hitems : ∀ i ∈ db.orderItems, i.orderId ≠ q.draw)
    (hpays : ∀ p ∈ db.payments, p.orderId ≠ q.draw)
    (h : db.insertOrder (q.order L ss price createdAt) (CommitRequest.items L ss price) = some db') :
    AddsUp L db' q ss (q.order L ss price createdAt) ↔ CountsOnce L ss price := by
  obtain ⟨d, hd, rfl⟩ := Db.insertOrder_eq h
  have hempty : Db.Listed (q.order L ss price createdAt) price []
      { db with orders := db.orders ++ [q.order L ss price createdAt] } :=
    ⟨List.filter_eq_nil_iff.mpr fun i hi h => hitems i hi (of_decide_eq_true h), List.nodup_nil⟩
  obtain ⟨us, hl, hmem⟩ := hempty.foldlM hd
  have hl' : Db.Listed (q.order L ss price createdAt) price us
      (d.insertPayment (q.order L ss price createdAt)) :=
    ⟨by rw [Db.itemsOf, Db.orderItems_insertPayment]; exact hl.items, hl.nodup⟩
  have hmem' (u : U) : u ∈ us ↔ u ∈ L.parsed ss := by simp [hmem]
  have hnone : ∀ p ∈ d.payments, p.orderId ≠ (q.order L ss price createdAt).id := by
    rw [Db.payments_foldlM hd]
    exact hpays
  have hpaid := Db.paymentsOf_insertPayment hnone
  exact ⟨AddsUp.countsOnce hl' hmem' rfl, CountsOnce.addsUp hl' hmem' rfl hpaid⟩

end Lists

section Runs

variable {U : Type} [DecidableEq U] {S : Service U} {s₀ s s' : Sys U} {m : Move U}
  {tr : List (Sys U × Move U)} {t : Nat} {q : CommitRequest U}

theorem DbMove.linked {w : World U} {db' : Db U} {th : Thread U} (h : DbMove S w db' th)
    (hl : w.db.Linked) : db'.Linked := by
  cases h with
  | keep hdb => exact hdb ▸ hl
  | mirror hdb => rw [Db.insertReservation_eq hdb]; exact ⟨hl.items, hl.payments⟩
  | order hdb => exact hl.insertOrder hdb
  | cancel hdb | reap hdb => rw [Db.deleteReservation_eq hdb]; exact ⟨hl.items, hl.payments⟩

theorem Service.Step.linked (h : S.Step s m s') (hl : s.world.db.Linked) : s'.world.db.Linked := by
  cases h with
  | exec _ _ _ => exact (Service.exec_db S s _ _ _ _).linked hl
  | _ => exact ⟨hl.items, hl.payments⟩

theorem Service.linked_run (h : Run S.Step s₀ tr s) (hl : s₀.world.db.Linked) : s.world.db.Linked :=
  h.invariant (fun u => u.world.db.Linked) (fun _ _ => True) (fun _ _ _ hu _ hs => hs.linked hu) hl
    fun _ _ => trivial

/-- When a call adds an order, it is the `INSERT` of a commit request whose list the commit
script has accepted. The rows of the order add up, and match the accepted seats one to one,
exactly when each id of the list is a UUID of its own and its repetitions cost nothing. -/
theorem order_adds_up_iff (hb : Booted S s₀) (hl : s₀.world.db.Linked) (hrun : Run S.Step s₀ tr s)
    {p : Sys U × Move U} (hp : p ∈ tr) {th : Thread U} {f : Fault} {scan : Scan U}
    (hmove : p.2 = .exec t f scan) (hth : p.1.threads t = some th) {o : Order U}
    (hnew : o ∈ (p.1.executed S t th f scan).world.db.orders) (hold : o ∉ p.1.world.db.orders) :
    ∃ q ss up ca, th = .commit q (.insert ss up ca) ∧ o = q.order S.uuid ss up ca ∧
      (∃ p₀ ∈ tr, ∃ scan₀ cat, p₀.2 = .exec t .none scan₀ ∧
        p₀.1.threads t = some (.commit q (.script ss cat)) ∧
        (ledger p₀.1.world.redis (q.args S.uuid) ≠ none ∨
          CommitRuns p₀.1.world.redis (q.seatKeys ss) (q.args S.uuid))) ∧
      (AddsUp S.uuid (p.1.executed S t th f scan).world.db q ss o ↔ CountsOnce S.uuid ss up) := by
  rcases (Service.exec_db S p.1 t th f scan).orders with h | ⟨q, ss, up, ca, rfl, hdb, ho⟩
  · exact absurd (h ▸ hnew) hold
  · obtain ⟨pre, post, rfl, hpre⟩ := (Service.made_of_mem hrun hp hmove hth).run
    obtain ⟨p₀, scan₀, cat, hm, hok⟩ := commit_ran (hb.idle t) hpre hth
    have hfresh := Service.orderId_unused hb (Service.origins_run hb hpre) hth nofun
    have hlinked := Service.linked_run hpre hl
    have hitems : ∀ i ∈ p.1.world.db.orderItems, i.orderId ≠ q.draw := by
      intro i hi hid
      obtain ⟨x, hx, hxi⟩ := hlinked.items i hi
      exact hfresh x hx (hxi.trans hid)
    have hpays : ∀ y ∈ p.1.world.db.payments, y.orderId ≠ q.draw := by
      intro y hy hid
      obtain ⟨x, hx, hxy⟩ := hlinked.payments y hy
      exact hfresh x hx (hxy.trans hid)
    have hoq : o = q.order S.uuid ss up ca := by
      rcases List.mem_append.mp (ho ▸ hnew) with h | h
      · exact absurd h hold
      · exact List.mem_singleton.mp h
    refine ⟨q, ss, up, ca, rfl, hoq,
      ⟨p₀, List.mem_append_left _ hm.mem, scan₀, cat, hm.move, hm.thread, hok⟩, ?_⟩
    rw [hoq]
    exact addsUp_insertOrder_iff hitems hpays hdb

end Runs

section Demo

theorem demoDb_linked : demoDb.Linked := ⟨by decide, by simp [demoDb]⟩

theorem demo_order_adds_up : ∃ s : Sys DemoId, ∃ q : CommitRequest DemoId,
    s.threads 1 = some (.commit q (.insert [demoSeat] 1500000 1790000000000000)) ∧
    AddsUp DemoId.lib (s.executed demoService 1
        (.commit q (.insert [demoSeat] 1500000 1790000000000000)) .none s.scan).world.db q [demoSeat]
      (q.order DemoId.lib [demoSeat] 1500000 1790000000000000) := by
  let insert := Thread.commit demoCommitRequest (.insert [demoSeat] 1500000 1790000000000000)
  let order := demoCommitRequest.order DemoId.lib [demoSeat] 1500000 1790000000000000
  have hplay : ((demoService.play demoSys (served 0 (.hold demoHoldRequest) 4 ++
      served 1 (.commit demoCommitRequest) 5)).any fun x =>
        decide (x.2.threads 1 = some insert ∧ order ∉ x.2.world.db.orders ∧
          order ∈ (x.2.executed demoService 1 insert .none x.2.scan).world.db.orders)) = true := by
    decide +kernel
  obtain ⟨tr, s, hrun, hp⟩ := Service.run_of_play hplay
  have hp' := of_decide_eq_true hp
  dsimp only at hp'
  obtain ⟨hth, hold, hnew⟩ := hp'
  obtain ⟨q, ss, up, ca, he, ho, _, hiff⟩ :=
    order_adds_up_iff demoSys_booted demoDb_linked (hrun.snoc (.exec hth rfl s.scan_of))
      List.mem_concat_self rfl hth hnew hold
  obtain ⟨rfl, hpc⟩ := Thread.commit.inj he
  obtain ⟨rfl, rfl, rfl⟩ := CommitPc.insert.inj hpc
  have hlist : CountsOnce DemoId.lib [demoSeat] 1500000 :=
    ⟨by decide +kernel, by decide +kernel, by decide +kernel, by decide +kernel⟩
  exact ⟨s, demoCommitRequest, hth, hiff.mpr hlist⟩

theorem repeated_seat_charged_twice : ¬ ∀ (s₀ s : Sys DemoId) (tr : List (Sys DemoId × Move DemoId))
    (p : Sys DemoId × Move DemoId) (t : Nat) (f : Fault) (scan : Scan DemoId) (q : CommitRequest DemoId)
    (ss : List String) (up ca : Int), Booted demoService s₀ → s₀.world.db.Linked →
    Run demoService.Step s₀ tr s → p ∈ tr → p.2 = .exec t f scan →
    p.1.threads t = some (.commit q (.insert ss up ca)) →
    q.order DemoId.lib ss up ca ∈
      (p.1.executed demoService t (.commit q (.insert ss up ca)) f scan).world.db.orders →
    q.order DemoId.lib ss up ca ∉ p.1.world.db.orders →
    AddsUp DemoId.lib (p.1.executed demoService t (.commit q (.insert ss up ca)) f scan).world.db q ss
      (q.order DemoId.lib ss up ca) := by
  intro h
  let q : CommitRequest DemoId := { demoCommitRequest with seatIds := [demoSeat, demoSeat] }
  let insert := Thread.commit q (.insert [demoSeat, demoSeat] 1500000 1790000000000000)
  let order := q.order DemoId.lib [demoSeat, demoSeat] 1500000 1790000000000000
  have hplay : ((demoService.play demoSys (served 0 (.hold demoHoldRequest) 4 ++
      served 1 (.commit q) 5)).any fun x =>
        decide (x.2.threads 1 = some insert ∧ order ∉ x.2.world.db.orders ∧
          order ∈ (x.2.executed demoService 1 insert .none x.2.scan).world.db.orders ∧
          (((x.2.executed demoService 1 insert .none x.2.scan).world.db.itemsOf order.id).map
            OrderItem.price).sum = 1500000 ∧ order.totalAmount = 3000000)) = true := by
    decide +kernel
  obtain ⟨tr, s, hrun, hp⟩ := Service.run_of_play hplay
  have hp' := of_decide_eq_true hp
  dsimp only at hp'
  obtain ⟨hth, hold, hnew, hsum, htotal⟩ := hp'
  have hadds := h demoSys _ _ (s, .exec 1 .none s.scan) 1 .none s.scan q [demoSeat, demoSeat] 1500000
    1790000000000000 demoSys_booted demoDb_linked (hrun.snoc (.exec hth rfl s.scan_of))
    List.mem_concat_self rfl hth hnew hold
  exact absurd (hsum.symm.trans (hadds.sum.trans htotal)) (by decide)

end Demo

end CrowdTic
