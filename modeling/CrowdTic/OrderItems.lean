import CrowdTic.Origins

/-! The seats of an order against the seats that its commit script has seen.
The script answers a replay before it looks at any seat, and the handler goes
on to insert the order either way. -/

namespace CrowdTic

section History

variable {U : Type} [DecidableEq U] {S : Service U} {s₀ s : Sys U} {tr : List (Sys U × Move U)}
  {t : Nat} {q : CommitRequest U} {ss : List String}

theorem commit_at_script {cat : U} (h0 : s₀.threads t = none) (hrun : Run S.Step s₀ tr s)
    (hth : s.threads t = some (.commit q (.script ss cat))) : ∃ p scan res,
      Service.Made S s₀ tr t (.commit q (.category ss)) p .none scan ∧
        p.1.world.db.getReservation q.holdId = some res ∧ cat = res.categoryId := by
  rcases Service.commit_came hrun h0 hth with hq | ⟨_, p, f, scan, hm, hturn⟩
  · cases hq
  · cases hturn with
    | found hf hres => exact ⟨p, scan, _, hf ▸ hm, hres, rfl⟩

theorem commit_at_price {cat : U} (h0 : s₀.threads t = none) (hrun : Run S.Step s₀ tr s)
    (hth : s.threads t = some (.commit q (.price ss cat))) : ∃ p scan,
      Service.Made S s₀ tr t (.commit q (.script ss cat)) p .none scan ∧
        (ledger p.1.world.redis (q.args S.uuid) ≠ none ∨
          CommitRuns p.1.world.redis (q.seatKeys ss) (q.args S.uuid)) := by
  rcases Service.commit_came hrun h0 hth with hq | ⟨_, p, f, scan, hm, hturn⟩
  · cases hq
  · cases hturn with
    | ran hf hok => exact ⟨p, scan, hf ▸ hm, hok⟩

theorem commit_at_select {up : Int} (h0 : s₀.threads t = none) (hrun : Run S.Step s₀ tr s)
    (hth : s.threads t = some (.commit q (.select ss up))) : ∃ p f scan cat,
      Service.Made S s₀ tr t (.commit q (.price ss cat)) p f scan ∧
        up = CommitRequest.unitPrice p.1.world f cat := by
  rcases Service.commit_came hrun h0 hth with hq | ⟨_, p, f, scan, hm, hturn⟩
  · cases hq
  · cases hturn with
    | priced => exact ⟨p, f, scan, _, hm, rfl⟩

theorem commit_at_insert {up ca : Int} (h0 : s₀.threads t = none) (hrun : Run S.Step s₀ tr s)
    (hth : s.threads t = some (.commit q (.insert ss up ca))) : ∃ p scan,
      Service.Made S s₀ tr t (.commit q (.select ss up)) p .none scan := by
  rcases Service.commit_came hrun h0 hth with hq | ⟨_, p, f, scan, hm, hturn⟩
  · cases hq
  · cases hturn with
    | begun hf _ => exact ⟨p, scan, hf ▸ hm⟩

theorem commit_priced {up ca : Int} (h0 : s₀.threads t = none) (hrun : Run S.Step s₀ tr s)
    (hth : s.threads t = some (.commit q (.insert ss up ca))) : ∃ p f scan cat,
      Service.Made S s₀ tr t (.commit q (.price ss cat)) p f scan ∧
        up = CommitRequest.unitPrice p.1.world f cat := by
  obtain ⟨p, scan, hm⟩ := commit_at_insert h0 hrun hth
  obtain ⟨pre, post, rfl, hpre⟩ := hm.run
  obtain ⟨p', f', scan', cat, hm', hup⟩ := commit_at_select h0 hpre hm.thread
  exact ⟨p', f', scan', cat, hm'.append _, hup⟩

theorem commit_ran {up ca : Int} (h0 : s₀.threads t = none) (hrun : Run S.Step s₀ tr s)
    (hth : s.threads t = some (.commit q (.insert ss up ca))) : ∃ p scan cat,
      Service.Made S s₀ tr t (.commit q (.script ss cat)) p .none scan ∧
        (ledger p.1.world.redis (q.args S.uuid) ≠ none ∨
          CommitRuns p.1.world.redis (q.seatKeys ss) (q.args S.uuid)) := by
  obtain ⟨p, _, _, cat, hm, _⟩ := commit_priced h0 hrun hth
  obtain ⟨pre, post, rfl, hpre⟩ := hm.run
  obtain ⟨p', scan', hm', hok⟩ := commit_at_price h0 hpre hm.thread
  exact ⟨p', scan', cat, hm'.append _, hok⟩

end History

def SoldBy (r r' : Redis) (k user hold : String) : Prop :=
  (r.seat k = .held user hold ∨ r.seat k = .sold user hold) ∧ r'.seat k = .sold user hold

instance (r r' : Redis) (k user hold : String) : Decidable (SoldBy r r' k user hold) :=
  inferInstanceAs (Decidable (_ ∧ _))

theorem soldBy_of_same_seat {r r' : Redis} {k user hold : String} (h : r'.seat k = r.seat k) :
    SoldBy r r' k user hold ↔ r.seat k = .sold user hold := by
  rw [SoldBy, h]
  exact ⟨And.right, fun hs => ⟨.inr hs, hs⟩⟩

theorem soldBy_commitSrc_iff {r : Redis} {inv e s : String} {ks : List String} {a : CommitArgs}
    (hok : ledger r a ≠ none ∨ CommitRuns r ks a) :
    SoldBy r (commitSrc r inv ks a).2 (seatKey e s) a.userId a.holdId ↔
      r.seat (seatKey e s) = .sold a.userId a.holdId ∨ ledger r a = none ∧ seatKey e s ∈ ks := by
  by_cases hl : ledger r a = none
  · have hruns : CommitRuns r ks a := hok.resolve_left (not_not.mpr hl)
    have hseat := seat_commitWrites r inv ks a (seatKey_ne_holdKey e s a.eventId a.holdId)
    rw [commitSrc_accepted hruns]
    by_cases hk : seatKey e s ∈ ks
    · rcases commitRefusal_eq_none_iff.mp hruns.2 _ hk with hs | hs <;>
        simp [SoldBy, hseat, hs, hk, hl, Seat.held, Seat.sold]
    · rw [soldBy_of_same_seat (by simpa [hk] using hseat)]
      simp [hk]
  · have hidle : (commitSrc r inv ks a).2 = r := commitSrc_idle fun h => hl h.1
    rw [hidle, soldBy_of_same_seat rfl]
    simp [hl]

section Runs

variable {U : Type} [DecidableEq U] {S : Service U} {s₀ s : Sys U} {tr : List (Sys U × Move U)}
  {t : Nat}

/-- When a call adds an order item, it is the `INSERT` of a commit request whose script
has run before. The seat was the buyer's then, and is sold to the buyer, exactly when it
was sold to the buyer already or the script was no replay and was given the seat's key. -/
theorem item_soldBy_iff (h0 : ∀ i, s₀.threads i = none) (hrun : Run S.Step s₀ tr s)
    {p : Sys U × Move U} (hp : p ∈ tr) {th : Thread U} {f : Fault} {scan : Scan U}
    (hmove : p.2 = .exec t f scan) (hth : p.1.threads t = some th) {i : OrderItem U}
    (hnew : i ∈ (p.1.executed S t th f scan).world.db.orderItems)
    (hold : i ∉ p.1.world.db.orderItems) :
    ∃ q ss ca, th = .commit q (.insert ss i.price ca) ∧ i.orderId = q.draw ∧
      q.order S.uuid ss i.price ca ∈ (p.1.executed S t th f scan).world.db.orders ∧
      ∃ p₀ ∈ tr, ∃ scan₀ cat, p₀.2 = .exec t .none scan₀ ∧
        p₀.1.threads t = some (.commit q (.script ss cat)) ∧
        (SoldBy p₀.1.world.redis
            (p₀.1.executed S t (.commit q (.script ss cat)) .none scan₀).world.redis
            (seatKey q.queueEventId (S.uuid.str i.seatId)) (S.uuid.str (q.userId S.uuid)) q.holdId ↔
          p₀.1.world.redis.seat (seatKey q.queueEventId (S.uuid.str i.seatId)) =
              .sold (S.uuid.str (q.userId S.uuid)) q.holdId ∨
            ledger p₀.1.world.redis (q.args S.uuid) = none ∧ S.uuid.str i.seatId ∈ ss) := by
  rcases (Service.exec_db S p.1 t th f scan).orderItems hnew with h | ⟨q, ss, ca, rfl, hid, _, ho⟩
  · exact absurd h hold
  · obtain ⟨pre, post, rfl, hpre⟩ := (Service.made_of_mem hrun hp hmove hth).run
    obtain ⟨p₀, scan₀, cat, hm, hok⟩ := commit_ran (h0 t) hpre hth
    refine ⟨q, ss, ca, rfl, hid, ho, p₀, List.mem_append_left _ hm.mem, scan₀, cat, hm.move, hm.thread, ?_⟩
    have hmem : seatKey q.queueEventId (S.uuid.str i.seatId) ∈ q.seatKeys ss ↔
        S.uuid.str i.seatId ∈ ss := by
      simp [CommitRequest.seatKeys]
    rw [← hmem]
    exact soldBy_commitSrc_iff hok

end Runs

section Demo

theorem demo_item_sold : ∃ p : Sys DemoId × Move DemoId, ∃ cat scan,
    p.1.threads 1 = some (.commit demoCommitRequest (.script [demoSeat] cat)) ∧
    SoldBy p.1.world.redis (p.1.executed demoService 1
        (.commit demoCommitRequest (.script [demoSeat] cat)) .none scan).world.redis
      (seatKey demoCommitRequest.queueEventId (DemoId.lib.str .seat))
      (DemoId.lib.str (demoCommitRequest.userId DemoId.lib)) demoCommitRequest.holdId := by
  let insert := Thread.commit demoCommitRequest (.insert [demoSeat] 1500000 1790000000000000)
  have hplay : ((demoService.play demoSys (served 0 (.hold demoHoldRequest) 4 ++
      served 1 (.commit demoCommitRequest) 5)).any fun x =>
        decide (x.2.threads 1 = some insert ∧ x.2.world.db.orderItems = [] ∧
          (⟨.order, 1790000000000000, .seat, 1500000⟩ : OrderItem DemoId) ∈
            (x.2.executed demoService 1 insert .none x.2.scan).world.db.orderItems ∧
          ∀ p ∈ x.1, ∀ cat ∈ DemoId.all,
            p.1.threads 1 = some (.commit demoCommitRequest (.script [demoSeat] cat)) →
              ledger p.1.world.redis (demoCommitRequest.args DemoId.lib) = none)) = true := by
    decide +kernel
  obtain ⟨tr, s, hrun, hp⟩ := Service.run_of_play hplay
  have hp' := of_decide_eq_true hp
  dsimp only at hp'
  obtain ⟨hth, hnone, hnew, hledger⟩ := hp'
  obtain ⟨q, ss, ca, he, _, _, p, hp, scan, cat, _, hscript, hiff⟩ :=
    item_soldBy_iff (fun _ => rfl) (hrun.snoc (.exec hth rfl s.scan_of))
      List.mem_concat_self rfl hth hnew
      (by rw [hnone]; exact List.not_mem_nil)
  obtain ⟨rfl, hpc⟩ := Thread.commit.inj he
  obtain ⟨rfl, _, rfl⟩ := CommitPc.insert.inj hpc
  rcases List.mem_append.mp hp with hp | hp
  · have hcat : cat ∈ DemoId.all := by cases cat <;> decide
    exact ⟨p, cat, scan, hscript,
      hiff.mpr (.inr ⟨hledger p hp cat hcat hscript, List.mem_singleton.mpr rfl⟩)⟩
  · obtain rfl := List.mem_singleton.mp hp
    cases (Thread.commit.inj (Option.some.inj (hth.symm.trans hscript))).2

def demoIntruder : CommitRequest DemoId :=
  { demoCommitRequest with
    idempotencyKey := DemoId.key'.str
    required := by decide
    seatIds := [demoSeat']
    queueUserId := DemoId.user'.str
    draw := .order' }

theorem unheld_seat_ordered : ¬ ∀ (s₀ s : Sys DemoId) (tr : List (Sys DemoId × Move DemoId))
    (p p₀ : Sys DemoId × Move DemoId) (t : Nat) (q : CommitRequest DemoId) (ss : List String)
    (up ca : Int) (cat : DemoId) (f : Fault) (scan scan₀ : Scan DemoId) (i : OrderItem DemoId),
    (∀ j, s₀.threads j = none) → Run demoService.Step s₀ tr s → p ∈ tr → p.2 = .exec t f scan →
    p.1.threads t = some (.commit q (.insert ss up ca)) →
    i ∈ (p.1.executed demoService t (.commit q (.insert ss up ca)) f scan).world.db.orderItems →
    i ∉ p.1.world.db.orderItems → p₀ ∈ tr → p₀.2 = .exec t .none scan₀ →
    p₀.1.threads t = some (.commit q (.script ss cat)) →
    SoldBy p₀.1.world.redis
      (p₀.1.executed demoService t (.commit q (.script ss cat)) .none scan₀).world.redis
      (seatKey q.queueEventId (DemoId.lib.str i.seatId)) (DemoId.lib.str (q.userId DemoId.lib))
      q.holdId := by
  intro h
  let script := Thread.commit demoIntruder (.script [demoSeat'] .vip)
  let insert := Thread.commit demoIntruder (.insert [demoSeat'] 1500000 1790000000000000)
  have hplay : ((demoService.play demoSys (demoSold ++ served 2 (.commit demoIntruder) 2)).any
      fun x => (demoService.play (x.2.executed demoService 2 script .none x.2.scan)
          [.run 2 .none, .run 2 .none]).any fun y =>
        decide (x.2.threads 2 = some script ∧ y.2.threads 2 = some insert ∧
          (⟨.order', 1790000000000000, .seat', 1500000⟩ : OrderItem DemoId) ∈
            (y.2.executed demoService 2 insert .none y.2.scan).world.db.orderItems ∧
          (⟨.order', 1790000000000000, .seat', 1500000⟩ : OrderItem DemoId) ∉
            y.2.world.db.orderItems ∧
          ¬ SoldBy x.2.world.redis (x.2.executed demoService 2 script .none x.2.scan).world.redis
            (seatKey demoIntruder.queueEventId (DemoId.lib.str .seat'))
            (DemoId.lib.str (demoIntruder.userId DemoId.lib)) demoIntruder.holdId)) = true := by
    decide +kernel
  obtain ⟨tr₁, s₁, hrun₁, h1⟩ := Service.run_of_play hplay
  obtain ⟨tr₂, s₂, hrun₂, h2⟩ := Service.run_of_play h1
  have h3 := of_decide_eq_true h2
  dsimp only at h3
  obtain ⟨hscript, hinsert, hnew, hold, hnot⟩ := h3
  have hrun := ((hrun₁.snoc (.exec hscript rfl s₁.scan_of)).append hrun₂).snoc
    (.exec (f := .none) hinsert rfl s₂.scan_of)
  exact hnot (h demoSys _ _ (s₂, .exec 2 .none s₂.scan) (s₁, .exec 2 .none s₁.scan) 2 demoIntruder
    [demoSeat'] 1500000 1790000000000000 .vip .none s₂.scan s₁.scan
    ⟨.order', 1790000000000000, .seat', 1500000⟩ (fun _ => rfl) hrun (by simp) rfl hinsert hnew hold
    (by simp) rfl hscript)

end Demo

end CrowdTic
