import CrowdTic.OrderItems
import CrowdTic.Recovery

/-! The unit price of an order against the prices of its seats. The category
comes from the client: the hold request names it, the reservation keeps it,
and the commit looks its price up for every seat. -/

namespace CrowdTic

section Flow

variable {U : Type} [DecidableEq U]

def Db.seatPrice (db : Db U) (seatId : U) : Option Nat :=
  (db.seats seatId).bind fun row => db.selectPrice row.categoryId

/-- The price of the category that the hold names, or 0 when its query fails. -/
def HoldRequest.chargedPrice (L : UuidLib U) (q : HoldRequest U) (db : Db U) (f : Fault) : Nat :=
  if f = .none then (db.selectPrice (q.catId L)).getD 0 else 0

omit [DecidableEq U] in
theorem unitPrice_eq (w : World U) (f : Fault) (cat : U) :
    CommitRequest.unitPrice w f cat = (if f = .none then (w.db.selectPrice cat).getD 0 else 0 : Nat) := by
  cases f with
  | none => cases h : w.db.selectPrice cat <;> simp [CommitRequest.unitPrice, Fault.answer, h]
  | before msg => simp [CommitRequest.unitPrice, Fault.answer]
  | after msg => simp [CommitRequest.unitPrice, Fault.answer]

variable {S : Service U} {s₀ s : Sys U} {tr : List (Sys U × Move U)} {t t' : Nat}
  {q : CommitRequest U} {qh : HoldRequest U} {pc : HoldPc U} {ss : List String} {cat : U}

theorem Service.run_from {p : Sys U × Move U} (hrun : Run S.Step s₀ tr s) (hp : p ∈ tr) :
    ∃ pre tr', Run S.Step s₀ pre p.1 ∧ Run S.Step p.1 tr' s := by
  obtain ⟨pre, post, u, rfl, hpre, hstep, hpost⟩ := hrun.split hp
  exact ⟨pre, _, hpre, (Run.single hstep).append hpost⟩

theorem reservation_of_hold (hb : Booted S s₀) (hrun : Run S.Step s₀ tr s)
    (hhold : s.threads t' = some (.hold qh pc)) {p : Sys U × Move U} (hp : p ∈ tr)
    {res : Reservation U} (hres : p.1.world.db.getReservation (qh.holdId S.uuid) = some res) :
    res = qh.reservation S.uuid S.holdTtl := by
  obtain ⟨pre, tr', hpre, hpost⟩ := Service.run_from hrun hp
  obtain ⟨hmem, hid⟩ := (Reservations.find_eq_some_iff _).mp hres
  have horig := Service.origins_run hb hrun
  have hdraw : qh.draw ∈ (Thread.hold qh pc).draws := List.mem_singleton.mpr rfl
  rcases (Service.origins_run hb hpre).reservations res hmem with h0 | ⟨i, q', r, hth, rfl⟩
  · obtain ⟨u, hu, hru⟩ := hb.holds res h0
    obtain rfl : u = qh.draw := S.uuid.str_inj.mp (hru.symm.trans hid)
    exact absurd hu (horig.drawn t' _ hhold _ hdraw).2
  · have hth' := Service.finished_stays_run hpost hth rfl
    have hq : q'.draw = qh.draw := S.uuid.str_inj.mp hid
    obtain rfl := horig.apart i t' _ _ hth' hhold qh.draw (List.mem_singleton.mpr hq.symm) hdraw
    obtain ⟨rfl, _⟩ := Thread.hold.inj (Option.some.inj (hth'.symm.trans hhold))
    rfl

theorem category_of_hold (hb : Booted S s₀) (hrun : Run S.Step s₀ tr s)
    (hhold : s.threads t' = some (.hold qh pc)) (hid : q.holdId = qh.holdId S.uuid)
    {p : Sys U × Move U} {f : Fault} {scan : Scan U}
    (hm : Service.Made S s₀ tr t (.commit q (.price ss cat)) p f scan) :
    cat = qh.catId S.uuid := by
  obtain ⟨pre, post, rfl, hpre⟩ := hm.run
  obtain ⟨p', _, hm', _⟩ := commit_at_price (hb.idle t) hpre hm.thread
  obtain ⟨pre', post', rfl, hpre'⟩ := hm'.run
  obtain ⟨p'', _, res, hm'', hres, hcat⟩ := commit_at_script (hb.idle t) hpre' hm'.thread
  have hp'' := (hm''.append (p' :: post')).append (p :: post) |>.mem
  rw [hid] at hres
  rw [hcat, reservation_of_hold hb hrun hhold hp'' hres]
  rfl

end Flow

section Runs

variable {U : Type} [DecidableEq U] {S : Service U} {s₀ s : Sys U} {tr : List (Sys U × Move U)}
  {t t' : Nat} {q : CommitRequest U} {cpc : CommitPc U} {qh : HoldRequest U} {pc : HoldPc U}

/-- An order item added by the commit of a hold has the price of its seat's own category
exactly when that is the price of the category that the hold request named, or 0 if the
commit could not read the price. -/
theorem item_price_iff (hb : Booted S s₀) (hrun : Run S.Step s₀ tr s)
    {p : Sys U × Move U} (hp : p ∈ tr) {f : Fault} {scan : Scan U}
    (hmove : p.2 = .exec t f scan) (hth : p.1.threads t = some (.commit q cpc))
    (hhold : p.1.threads t' = some (.hold qh pc)) (hid : q.holdId = qh.holdId S.uuid)
    {i : OrderItem U} (hnew : i ∈ (p.1.executed S t (.commit q cpc) f scan).world.db.orderItems)
    (hold : i ∉ p.1.world.db.orderItems) :
    ∃ p₁ ∈ tr, ∃ f₁ scan₁ ss cat, p₁.2 = .exec t f₁ scan₁ ∧
      p₁.1.threads t = some (.commit q (.price ss cat)) ∧
      ((∃ n : Nat, p.1.world.db.seatPrice i.seatId = some n ∧ i.price = n) ↔
        p.1.world.db.seatPrice i.seatId = some (qh.chargedPrice S.uuid p.1.world.db f₁)) := by
  rcases (Service.exec_db S p.1 t (.commit q cpc) f scan).orderItems hnew with
    h | ⟨q', ss, ca, he, _, _, _⟩
  · exact absurd h hold
  · obtain ⟨rfl, rfl⟩ := Thread.commit.inj he
    obtain ⟨pre, post, rfl, hpre⟩ := (Service.made_of_mem hrun hp hmove hth).run
    obtain ⟨p₁, f₁, scan₁, cat, hm, hup⟩ := commit_priced (hb.idle t) hpre hth
    refine ⟨p₁, List.mem_append_left _ hm.mem, f₁, scan₁, ss, cat, hm.move, hm.thread, ?_⟩
    obtain ⟨_, _, hpre₁, hpost₁⟩ := Service.run_from hpre hm.mem
    have hcat := category_of_hold hb hpre hhold hid hm
    have hsel (c : U) : p₁.1.world.db.selectPrice c = p.1.world.db.selectPrice c := by
      rw [Db.selectPrice, Db.selectPrice, (Service.run_catalog hpost₁).categories]
    have hprice : i.price = qh.chargedPrice S.uuid p.1.world.db f₁ := by
      rw [hup, unitPrice_eq, hcat, hsel]
      rfl
    constructor
    · rintro ⟨n, hn, he⟩
      rw [hn, Int.ofNat_inj.mp (he.symm.trans hprice)]
    · exact fun h => ⟨_, h, hprice⟩

end Runs

section Demo

theorem demo_item_price : ∃ (s : Sys DemoId) (tr : List (Sys DemoId × Move DemoId)) (n : Nat),
    Run demoService.Step demoSys tr s ∧ s.world.db.seatPrice .seat = some n ∧ (1500000 : Int) = n := by
  let insert := Thread.commit demoCommitRequest (.insert [demoSeat] 1500000 1790000000000000)
  let held := HoldPc.done (U := DemoId) (.held (demoHoldRequest.holdId DemoId.lib) 1790000600000 600 1)
  have hplay : ((demoService.play demoSys (served 0 (.hold demoHoldRequest) 4 ++
      served 1 (.commit demoCommitRequest) 5)).any fun x =>
        decide (x.2.threads 1 = some insert ∧ x.2.threads 0 = some (.hold demoHoldRequest held) ∧
          x.2.world.db.orderItems = [] ∧ (⟨.order, 1790000000000000, .seat, 1500000⟩ : OrderItem DemoId) ∈
            (x.2.executed demoService 1 insert .none x.2.scan).world.db.orderItems ∧
          (∀ p ∈ x.1, p.2.fault = .none) ∧ x.2.world.db.seatPrice .seat =
            some (demoHoldRequest.chargedPrice DemoId.lib x.2.world.db .none))) = true := by
    decide +kernel
  obtain ⟨tr, s, hrun, hp⟩ := Service.run_of_play hplay
  have hp' := of_decide_eq_true hp
  dsimp only at hp'
  obtain ⟨hth, hhold, hnone, hnew, hfault, hprice⟩ := hp'
  have hrun' := hrun.snoc (.exec (f := .none) hth rfl s.scan_of)
  obtain ⟨p₁, hp₁, f₁, scan₁, _, _, hmove, _, hiff⟩ := item_price_iff demoSys_booted hrun'
    List.mem_concat_self rfl hth hhold rfl hnew
    (by rw [hnone]; exact List.not_mem_nil)
  have hf₁ : f₁ = .none := by
    rcases List.mem_append.mp hp₁ with h | h
    · simpa [hmove, Move.fault] using hfault p₁ h
    · obtain rfl := List.mem_singleton.mp h
      exact (Move.exec.inj hmove).2.1.symm
  obtain ⟨n, hn, he⟩ := hiff.mpr (hf₁ ▸ hprice)
  exact ⟨s, tr, n, hrun, hn, he⟩

def demoUpgrade : HoldRequest DemoId :=
  { demoHoldRequest with seatIds := [demoSeat'], required := by decide }

theorem regular_seat_charged_as_vip : ¬ ∀ (s₀ s : Sys DemoId) (tr : List (Sys DemoId × Move DemoId))
    (p : Sys DemoId × Move DemoId) (t t' : Nat) (f : Fault) (scan : Scan DemoId)
    (q : CommitRequest DemoId) (cpc : CommitPc DemoId) (qh : HoldRequest DemoId) (pc : HoldPc DemoId)
    (i : OrderItem DemoId), Booted demoService s₀ → Run demoService.Step s₀ tr s → p ∈ tr →
    p.2 = .exec t f scan → p.1.threads t = some (.commit q cpc) →
    p.1.threads t' = some (.hold qh pc) → q.holdId = qh.holdId DemoId.lib →
    i ∈ (p.1.executed demoService t (.commit q cpc) f scan).world.db.orderItems →
    i ∉ p.1.world.db.orderItems →
    ∃ n : Nat, p.1.world.db.seatPrice i.seatId = some n ∧ i.price = n := by
  intro h
  let q := { demoCommitRequest with seatIds := [demoSeat'] }
  let insert := CommitPc.insert (U := DemoId) [demoSeat'] 1500000 1790000000000000
  let held := HoldPc.done (U := DemoId) (.held (demoUpgrade.holdId DemoId.lib) 1790000600000 600 1)
  have hplay : ((demoService.play demoSys (served 0 (.hold demoUpgrade) 4 ++
      served 1 (.commit q) 5)).any fun x =>
        decide (x.2.threads 1 = some (.commit q insert) ∧
          x.2.threads 0 = some (.hold demoUpgrade held) ∧ x.2.world.db.orderItems = [] ∧
          (⟨.order, 1790000000000000, .seat', 1500000⟩ : OrderItem DemoId) ∈
            (x.2.executed demoService 1 (.commit q insert) .none x.2.scan).world.db.orderItems ∧
          x.2.world.db.seatPrice .seat' = some 500000)) = true := by
    decide +kernel
  obtain ⟨tr, s, hrun, hp⟩ := Service.run_of_play hplay
  have hp' := of_decide_eq_true hp
  dsimp only at hp'
  obtain ⟨hth, hhold, hnone, hnew, hprice⟩ := hp'
  obtain ⟨n, hn, he⟩ := h demoSys _ _ _ 1 0 .none s.scan _ _ _ _ ⟨.order, 1790000000000000, .seat', 1500000⟩
    demoSys_booted (hrun.snoc (.exec hth rfl s.scan_of))
    List.mem_concat_self rfl hth hhold rfl hnew
    (by rw [hnone]; exact List.not_mem_nil)
  obtain rfl : 500000 = n := Option.some.inj (hprice.symm.trans hn)
  cases he

end Demo

end CrowdTic
