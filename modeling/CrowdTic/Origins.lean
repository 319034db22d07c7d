import CrowdTic.Service

/-! Where threads and rows come from: what a call can do to Postgres, the call
that brought a thread to where it stands, and the request behind every row
that a run has added. -/

namespace CrowdTic

variable {U : Type} [DecidableEq U] {S : Service U}

def Sys.Every {U : Type} (s : Sys U) (P : Thread U → Prop) : Prop := ∀ t, ∀ th ∈ s.threads t, P th

omit [DecidableEq U] in
theorem Sys.every_of_below {s : Sys U} {P : Thread U → Prop} {n : Nat}
    (hidle : ∀ t, n ≤ t → s.threads t = none) (h : ∀ t < n, ∀ th ∈ s.threads t, P th) : s.Every P := by
  intro t th hth
  by_cases ht : t < n
  · exact h t ht th hth
  · rw [hidle t (Nat.not_lt.mp ht)] at hth
    cases hth

/-- Everything the next call of a thread can do to Postgres. -/
inductive DbMove (S : Service U) (w : World U) (db' : Db U) : Thread U → Prop
  | keep {th : Thread U} (hdb : db' = w.db) : DbMove S w db' th
  | mirror {q : HoldRequest U}
      (hdb : w.db.insertReservation (q.reservation S.uuid S.holdTtl) = some db') :
      DbMove S w db' (.hold q .mirror)
  | order {q : CommitRequest U} {seatIds : List String} {unitPrice createdAt : Int}
      (hdb : q.insertOrder S.uuid w seatIds unitPrice createdAt = some db') :
      DbMove S w db' (.commit q (.insert seatIds unitPrice createdAt))
  | cancel {q : ReleaseRequest} {res : Reservation U}
      (hdb : w.db.deleteReservation res.holdId = some db') :
      DbMove S w db' (.release q (.delete res))
  | reap {res : Reservation U} {rest : List (Reservation U)}
      (hdb : w.db.deleteReservation res.holdId = some db') :
      DbMove S w db' (.sweep (.delete res rest))

theorem dbMove_effect (S : Service U) (w : World U) (th : Thread U) :
    DbMove S w (th.effect S w).db th := by
  cases th with
  | hold q pc =>
    cases pc with
    | mirror =>
      cases h : w.db.insertReservation (q.reservation S.uuid S.holdTtl) with
      | none => exact .keep (by simp [Thread.effect, HoldRequest.effect, h])
      | some db' => exact .mirror (by simp [Thread.effect, HoldRequest.effect, h])
    | _ => exact .keep rfl
  | commit q pc =>
    cases pc with
    | insert seatIds unitPrice createdAt =>
      cases h : q.insertOrder S.uuid w seatIds unitPrice createdAt with
      | none => exact .keep (by simp [Thread.effect, CommitRequest.effect, h])
      | some db' => exact .order (by simp [Thread.effect, CommitRequest.effect, h])
    | _ => exact .keep rfl
  | release q pc =>
    cases pc with
    | delete res =>
      cases h : w.db.deleteReservation res.holdId with
      | none => exact .keep (by simp [Thread.effect, ReleaseRequest.effect, h])
      | some db' => exact .cancel (by simp [Thread.effect, ReleaseRequest.effect, h])
    | _ => exact .keep rfl
  | sweep pc =>
    cases pc with
    | delete res rest =>
      cases h : w.db.deleteReservation res.holdId with
      | none => exact .keep (by simp [Thread.effect, SweepPc.effect, h])
      | some db' => exact .reap (by simp [Thread.effect, SweepPc.effect, h])
    | _ => exact .keep rfl

namespace DbMove

variable {w : World U} {db' : Db U} {th : Thread U}

theorem reservations (h : DbMove S w db' th) {res : Reservation U}
    (hres : res ∈ db'.reservations.rows) : res ∈ w.db.reservations.rows ∨
      ∃ q, th = .hold q .mirror ∧ res = q.reservation S.uuid S.holdTtl := by
  cases h with
  | keep hdb => exact .inl (hdb ▸ hres)
  | @mirror q hdb =>
    obtain rfl := Db.insertReservation_eq hdb
    by_cases hf : w.db.reservations.find (q.reservation S.uuid S.holdTtl).holdId = none
    · rcases (Reservations.mem_insert _ hf).mp hres with hres | rfl
      · exact .inl hres
      · exact .inr ⟨q, rfl, rfl⟩
    · exact .inl (by rwa [Reservations.insert_of_find_ne_none _ hf] at hres)
  | order hdb => exact .inl ((Db.orderInserted_insertOrder hdb).reservations ▸ hres)
  | cancel hdb | reap hdb =>
    obtain rfl := Db.deleteReservation_eq hdb
    exact .inl ((Reservations.mem_delete _).mp hres).1

theorem orders (h : DbMove S w db' th) : db'.orders = w.db.orders ∨
    ∃ q ss up ca, th = .commit q (.insert ss up ca) ∧ q.insertOrder S.uuid w ss up ca = some db' ∧
      db'.orders = w.db.orders ++ [q.order S.uuid ss up ca] := by
  cases h with
  | keep hdb => exact .inl (hdb ▸ rfl)
  | mirror hdb => exact .inl (by rw [Db.insertReservation_eq hdb])
  | order hdb => exact .inr ⟨_, _, _, _, rfl, hdb, (Db.orderInserted_insertOrder hdb).orders⟩
  | cancel hdb | reap hdb => exact .inl (by rw [Db.deleteReservation_eq hdb])

theorem orderItems (h : DbMove S w db' th) {i : OrderItem U} (hi : i ∈ db'.orderItems) :
    i ∈ w.db.orderItems ∨ ∃ q seatIds createdAt,
      th = .commit q (.insert seatIds i.price createdAt) ∧ i.orderId = q.draw ∧
        i.seatId ∈ S.uuid.parsed seatIds ∧ q.order S.uuid seatIds i.price createdAt ∈ db'.orders := by
  cases h with
  | keep hdb => exact .inl (hdb ▸ hi)
  | mirror hdb => exact .inl (by simpa [Db.insertReservation_eq hdb] using hi)
  | @order q ss up ca hdb =>
    have hins := Db.orderInserted_insertOrder hdb
    rcases hins.added i hi with hi | ⟨ho, hm⟩
    · exact .inl hi
    · obtain ⟨u, hu, he⟩ := List.mem_map.mp hm
      obtain ⟨rfl, rfl⟩ := Prod.mk.inj he
      exact .inr ⟨q, ss, ca, rfl, ho, hu,
        hins.orders ▸ List.mem_concat_self⟩
  | cancel hdb | reap hdb => exact .inl (by simpa [Db.deleteReservation_eq hdb] using hi)

theorem catalog (h : DbMove S w db' th) : Db.SameCatalog w.db db' := by
  cases h with
  | keep hdb => exact hdb ▸ .refl _
  | mirror hdb => rw [Db.insertReservation_eq hdb]; exact ⟨rfl, rfl, rfl, fun _ => rfl⟩
  | order hdb =>
    have hc := (Db.orderInserted_insertOrder hdb).catalog
    exact ⟨hc.users, hc.events, hc.categories, hc.seats⟩
  | cancel hdb | reap hdb => rw [Db.deleteReservation_eq hdb]; exact ⟨rfl, rfl, rfl, fun _ => rfl⟩

end DbMove

def Move.SpawnsBelow {U : Type} (n : Nat) : Move U → Prop
  | .spawn t _ => t < n
  | _ => True

instance {U : Type} (n : Nat) : DecidablePred (Move.SpawnsBelow (U := U) n)
  | .spawn t _ => inferInstanceAs (Decidable (t < n))
  | .exec _ _ _ | .advanceRedis _ | .advancePostgres _ => inferInstanceAs (Decidable True)

namespace Service

variable {s s' : Sys U} {m : Move U} {tr : List (Sys U × Move U)} {t : Nat} {th : Thread U}

theorem exec_db (S : Service U) (s : Sys U) (t : Nat) (th : Thread U) (f : Fault) (scan : Scan U) :
    DbMove S s.world (s.executed S t th f scan).world.db th := by
  by_cases hf : f.takes = true
  · simpa [Sys.executed, hf] using dbMove_effect S s.world th
  · exact .keep (by simp [Sys.executed, hf])

theorem Step.catalog (h : S.Step s m s') : Db.SameCatalog s.world.db s'.world.db := by
  cases h with
  | exec _ _ _ => exact (exec_db S s _ _ _ _).catalog
  | _ => exact ⟨rfl, rfl, rfl, fun _ => rfl⟩

theorem run_catalog (h : Run S.Step s tr s') : Db.SameCatalog s.world.db s'.world.db :=
  h.invariant (fun u => Db.SameCatalog s.world.db u.world.db) (fun _ _ => True)
    (fun _ _ _ hc _ hs => hc.trans hs.catalog) (.refl _) fun _ _ => trivial

/-- The record has a call that thread `t` made while it stood at `th`, and a run up to it. -/
structure Made (S : Service U) (s : Sys U) (tr : List (Sys U × Move U)) (t : Nat) (th : Thread U)
    (p : Sys U × Move U) (f : Fault) (scan : Scan U) : Prop where
  run : ∃ pre post, tr = pre ++ p :: post ∧ Run S.Step s pre p.1
  move : p.2 = .exec t f scan
  thread : p.1.threads t = some th
  running : th.finished = false

theorem Made.mem {p : Sys U × Move U} {f : Fault} {scan : Scan U}
    (h : Made S s tr t th p f scan) : p ∈ tr := by
  obtain ⟨_, _, rfl, _⟩ := h.run
  simp

theorem Made.append {p : Sys U × Move U} {f : Fault} {scan : Scan U}
    (h : Made S s tr t th p f scan) (tr' : List (Sys U × Move U)) :
    Made S s (tr ++ tr') t th p f scan := by
  obtain ⟨pre, post, rfl, hpre⟩ := h.run
  exact ⟨⟨pre, post ++ tr', by simp, hpre⟩, h.move, h.thread, h.running⟩

theorem made_of_mem (h : Run S.Step s tr s') {p : Sys U × Move U} (hp : p ∈ tr) {f : Fault}
    {scan : Scan U} (hmove : p.2 = .exec t f scan) (hth : p.1.threads t = some th) :
    Made S s tr t th p f scan := by
  obtain ⟨pre, post, u, rfl, hpre, hstep, _⟩ := h.split hp
  refine ⟨⟨pre, post, rfl, hpre⟩, hmove, hth, ?_⟩
  rw [hmove] at hstep
  cases hstep with
  | exec hth' hf _ => exact Option.some.inj (hth'.symm.trans hth) ▸ hf

/-- How a thread has come to stand at `th` by a move. -/
inductive ThreadMove (S : Service U) (s : Sys U) (t : Nat) (th : Thread U) : Move U → Prop
  | stay {m : Move U} (hth : s.threads t = some th) : ThreadMove S s t th m
  | start {req : Request U} (hfree : s.threads t = none) (hfresh : ∀ u ∈ req.draws, u ∉ s.drawn)
      (he : th = req.thread S.uuid) : ThreadMove S s t th (.spawn t req)
  | turn {th₀ : Thread U} {f : Fault} {scan : Scan U} (hth : s.threads t = some th₀)
      (hrun : th₀.finished = false) (hscan : scan.Of s.world.db)
      (he : th = th₀.resume S s.world f scan) : ThreadMove S s t th (.exec t f scan)

theorem Step.thread (h : S.Step s m s') (hth : s'.threads t = some th) : ThreadMove S s t th m := by
  cases h with
  | @spawn i req hfree hfresh =>
    by_cases hi : t = i
    · subst hi
      rw [Sys.threads_spawned, if_pos rfl] at hth
      exact .start hfree hfresh (Option.some.inj hth).symm
    · rw [Sys.threads_spawned, if_neg hi] at hth
      exact .stay hth
  | @exec i th₀ f scan hi0 hrun hscan =>
    by_cases hi : t = i
    · subst hi
      rw [Sys.threads_executed, if_pos rfl] at hth
      exact .turn hi0 hrun hscan (Option.some.inj hth).symm
    · rw [Sys.threads_executed, if_neg hi] at hth
      exact .stay hth
  | advanceRedis ms => exact .stay hth
  | advancePostgres us => exact .stay hth

theorem Step.idle_above {n : Nat} (h : S.Step s m s') (hs : ∀ t, n ≤ t → s.threads t = none)
    (hm : m.SpawnsBelow n) (t : Nat) (ht : n ≤ t) : s'.threads t = none := by
  cases hth : s'.threads t with
  | none => rfl
  | some th =>
    cases h.thread hth with
    | stay hold => cases (hs t ht).symm.trans hold
    | start _ _ _ => exact absurd hm (Nat.not_lt.mpr ht)
    | turn hold _ _ _ => cases (hs t ht).symm.trans hold

theorem idle_above {n : Nat} (h : Run S.Step s tr s') (hs : ∀ t, s.threads t = none)
    (hn : ∀ p ∈ tr, p.2.SpawnsBelow n) (t : Nat) (ht : n ≤ t) : s'.threads t = none :=
  h.invariant (fun u => ∀ t, n ≤ t → u.threads t = none) (fun _ m => m.SpawnsBelow n)
    (fun _ _ _ hu hm hstep => hstep.idle_above hu hm) (fun t _ => hs t) hn t ht

theorem idle_above_of_mem {n : Nat} (h : Run S.Step s tr s') (hs : ∀ t, s.threads t = none)
    (hn : ∀ p ∈ tr, p.2.SpawnsBelow n) {p : Sys U × Move U} (hp : p ∈ tr) (t : Nat) (ht : n ≤ t) :
    p.1.threads t = none := by
  obtain ⟨pre, post, _, rfl, hpre, _, _⟩ := h.split hp
  exact idle_above hpre hs (fun x hx => hn x (List.mem_append_left _ hx)) t ht

inductive CommitMove (S : Service U) (s : Sys U) (t : Nat) (q : CommitRequest U) (pc : CommitPc U) :
    Move U → Prop
  | stay {m : Move U} (hth : s.threads t = some (.commit q pc)) : CommitMove S s t q pc m
  | start (hfree : s.threads t = none) (hpc : pc = .idempotency) :
      CommitMove S s t q pc (.spawn t (.commit q))
  | turn {pc₀ : CommitPc U} {f : Fault} {scan : Scan U} (hth : s.threads t = some (.commit q pc₀))
      (hrun : (Thread.commit q pc₀).finished = false) (hscan : scan.Of s.world.db)
      (hturn : CommitRequest.Turn S.uuid q s.world f scan pc₀ pc) :
      CommitMove S s t q pc (.exec t f scan)

theorem Step.commit {q : CommitRequest U} {pc : CommitPc U} (h : S.Step s m s')
    (hth : s'.threads t = some (.commit q pc)) : CommitMove S s t q pc m := by
  cases h.thread hth with
  | stay hold => exact .stay hold
  | @start req hfree _ he =>
    cases req <;> cases he
    exact .start hfree rfl
  | @turn th₀ f scan hold hrun hscan he =>
    cases th₀ <;> cases he
    exact .turn hold hrun hscan (CommitRequest.turn_resume f scan _)

theorem thread_came (h : Run S.Step s tr s') (hs : s.threads t = none)
    (hth : s'.threads t = some th) : (∃ req, th = Request.thread S.uuid req) ∨
      ∃ th₀ p f scan, Made S s tr t th₀ p f scan ∧ th = th₀.resume S p.1.world f scan := by
  induction h with
  | nil => simp [hs] at hth
  | @snoc tr u v m hrun hstep ih =>
    cases hstep.thread hth with
    | stay hold =>
      rcases ih hold with hq | ⟨th₀, p, f, scan, hc, he⟩
      · exact .inl hq
      · exact .inr ⟨th₀, p, f, scan, hc.append _, he⟩
    | start _ _ he => exact .inl ⟨_, he⟩
    | @turn th₀ f scan hold hf _ he =>
      exact .inr ⟨th₀, (u, .exec t f scan), f, scan, ⟨⟨tr, [], rfl, hrun⟩, rfl, hold, hf⟩, he⟩

theorem hold_came {q : HoldRequest U} {pc : HoldPc U} (h : Run S.Step s tr s')
    (hs : s.threads t = none) (hth : s'.threads t = some (.hold q pc)) : pc = q.start S.uuid ∨
      ∃ pc₀ p f scan, Made S s tr t (.hold q pc₀) p f scan ∧
        HoldRequest.Turn S.uuid S.holdTtl q p.1.world f scan pc₀ pc := by
  rcases thread_came h hs hth with ⟨req, he⟩ | ⟨th₀, p, f, scan, hm, he⟩
  · cases req <;> cases he
    exact .inl rfl
  · cases th₀ <;> cases he
    exact .inr ⟨_, p, f, scan, hm, HoldRequest.turn_resume f scan _⟩

theorem commit_came {q : CommitRequest U} {pc : CommitPc U} (h : Run S.Step s tr s')
    (hs : s.threads t = none) (hth : s'.threads t = some (.commit q pc)) : pc = .idempotency ∨
      ∃ pc₀ p f scan, Made S s tr t (.commit q pc₀) p f scan ∧
        CommitRequest.Turn S.uuid q p.1.world f scan pc₀ pc := by
  rcases thread_came h hs hth with ⟨req, he⟩ | ⟨th₀, p, f, scan, hm, he⟩
  · cases req <;> cases he
    exact .inl rfl
  · cases th₀ <;> cases he
    exact .inr ⟨_, p, f, scan, hm, CommitRequest.turn_resume f scan _⟩

end Service

section Draws

def Thread.draws : Thread U → List U
  | .hold q _ => [q.draw]
  | .commit q _ => [q.draw]
  | _ => []

omit [DecidableEq U] in
theorem Request.draws_thread (L : UuidLib U) (req : Request U) : (req.thread L).draws = req.draws := by
  cases req <;> rfl

theorem Thread.draws_resume (w : World U) (f : Fault) (scan : Scan U) (th : Thread U) :
    (th.resume S w f scan).draws = th.draws := by
  cases th <;> rfl

/-- A system at rest, whose rows carry ids that were drawn before. -/
structure Booted (S : Service U) (s : Sys U) : Prop where
  idle : ∀ t, s.threads t = none
  holds : ∀ res ∈ s.world.db.reservations.rows, ∃ u ∈ s.drawn, res.holdId = S.uuid.str u
  orders : ∀ o ∈ s.world.db.orders, o.id ∈ s.drawn

omit [DecidableEq U] in
theorem Booted.of_empty {s : Sys U} (hi : ∀ t, s.threads t = none)
    (hr : s.world.db.reservations.rows = []) (ho : s.world.db.orders = []) : Booted S s :=
  ⟨hi, by simp [hr], by simp [ho]⟩

/-- Each id drawn since the start belongs to one thread, and each row added
since then to the thread that drew its id and is past the call that adds it. -/
structure Origins (S : Service U) (s₀ s : Sys U) : Prop where
  kept : ∀ u ∈ s₀.drawn, u ∈ s.drawn
  drawn : ∀ t th, s.threads t = some th → ∀ u ∈ th.draws, u ∈ s.drawn ∧ u ∉ s₀.drawn
  apart : ∀ t t' th th', s.threads t = some th → s.threads t' = some th' →
    ∀ u ∈ th.draws, u ∈ th'.draws → t = t'
  reservations : ∀ res ∈ s.world.db.reservations.rows, res ∈ s₀.world.db.reservations.rows ∨
    ∃ t q r, s.threads t = some (.hold q (.done r)) ∧ res = q.reservation S.uuid S.holdTtl
  orders : ∀ o ∈ s.world.db.orders, o ∈ s₀.world.db.orders ∨
    ∃ t q r, s.threads t = some (.commit q (.done r)) ∧ r.placed = some q.draw ∧
      ∃ seatIds unitPrice createdAt, o = q.order S.uuid seatIds unitPrice createdAt

section Rows

variable {s₀ s : Sys U} {t : Nat}

omit [DecidableEq U] in
theorem Origins.reservation_eq (hb : Booted S s₀) (h : Origins S s₀ s) {q : HoldRequest U} {pc : HoldPc U}
    (hth : s.threads t = some (.hold q pc)) {res : Reservation U}
    (hres : res ∈ s.world.db.reservations.rows) (hid : res.holdId = q.holdId S.uuid) :
    res = q.reservation S.uuid S.holdTtl ∧ ∃ r, pc = .done r := by
  have hdraw : q.draw ∈ (Thread.hold q pc).draws := List.mem_singleton.mpr rfl
  rcases h.reservations res hres with h0 | ⟨t', q', r, hth', rfl⟩
  · obtain ⟨u, hu, hru⟩ := hb.holds res h0
    obtain rfl : u = q.draw := S.uuid.str_inj.mp (hru.symm.trans hid)
    exact absurd hu (h.drawn t _ hth _ hdraw).2
  · have hq : q'.draw = q.draw := S.uuid.str_inj.mp hid
    obtain rfl := h.apart t' t _ _ hth' hth q.draw (List.mem_singleton.mpr hq.symm) hdraw
    obtain ⟨rfl, rfl⟩ := Thread.hold.inj (Option.some.inj (hth'.symm.trans hth))
    exact ⟨rfl, r, rfl⟩

omit [DecidableEq U] in
theorem Origins.order_eq (hb : Booted S s₀) (h : Origins S s₀ s) {q : CommitRequest U} {pc : CommitPc U}
    (hth : s.threads t = some (.commit q pc)) {o : Order U} (ho : o ∈ s.world.db.orders)
    (hid : o.id = q.draw) : (∃ ss up ca, o = q.order S.uuid ss up ca) ∧ ∃ r, pc = .done r := by
  have hdraw : q.draw ∈ (Thread.commit q pc).draws := List.mem_singleton.mpr rfl
  rcases h.orders o ho with h0 | ⟨t', q', r, hth', _, horder⟩
  · exact absurd (hb.orders o h0) (hid ▸ (h.drawn t _ hth _ hdraw).2)
  · obtain ⟨ss, up, ca, rfl⟩ := horder
    have hq : q'.draw = q.draw := hid
    obtain rfl := h.apart t' t _ _ hth' hth q.draw (List.mem_singleton.mpr hq.symm) hdraw
    obtain ⟨rfl, rfl⟩ := Thread.commit.inj (Option.some.inj (hth'.symm.trans hth))
    exact ⟨⟨ss, up, ca, rfl⟩, r, rfl⟩

end Rows

namespace Service

variable {s₀ s s' : Sys U} {m : Move U} {tr : List (Sys U × Move U)} {t : Nat}

theorem Step.finished_stays {th : Thread U} (h : S.Step s m s') (hth : s.threads t = some th)
    (hf : th.finished = true) : s'.threads t = some th := by
  cases h with
  | @spawn i _ hfree _ =>
    have hi : t ≠ i := by rintro rfl; simp [hfree] at hth
    rw [Sys.threads_spawned, if_neg hi, hth]
  | @exec i _ _ _ hi0 hrun _ =>
    have hi : t ≠ i := by
      rintro rfl
      obtain rfl := Option.some.inj (hth.symm.trans hi0)
      rw [hf] at hrun
      cases hrun
    rw [Sys.threads_executed, if_neg hi, hth]
  | advanceRedis ms => exact hth
  | advancePostgres us => exact hth

theorem finished_stays_run {th : Thread U} (h : Run S.Step s tr s') (hth : s.threads t = some th)
    (hf : th.finished = true) : s'.threads t = some th :=
  h.invariant (fun u => u.threads t = some th) (fun _ _ => True)
    (fun _ _ _ hu _ hs => hs.finished_stays hu hf) hth fun _ _ => trivial

theorem Step.draws_cases {th' : Thread U} (h : S.Step s m s') (hth : s'.threads t = some th') :
    (∃ th, s.threads t = some th ∧ th'.draws = th.draws) ∨
      ∀ u ∈ th'.draws, u ∉ s.drawn ∧ u ∈ s'.drawn ∧ ∀ i th, s'.threads i = some th →
        u ∈ th.draws → i = t ∨ ∃ th₀, s.threads i = some th₀ ∧ u ∈ th₀.draws := by
  cases h with
  | @spawn i req hfree hfresh =>
    by_cases hi : t = i
    · subst hi
      rw [Sys.threads_spawned, if_pos rfl] at hth
      obtain rfl := Option.some.inj hth
      refine .inr fun u hu => ?_
      rw [Request.draws_thread] at hu
      refine ⟨hfresh u hu, List.mem_append_left _ hu, fun j th hj hmem => ?_⟩
      by_cases hjt : j = t
      · exact .inl hjt
      · exact .inr ⟨th, by rwa [Sys.threads_spawned, if_neg hjt] at hj, hmem⟩
    · rw [Sys.threads_spawned, if_neg hi] at hth
      exact .inl ⟨th', hth, rfl⟩
  | @exec i th f scan hi0 _ _ =>
    by_cases hi : t = i
    · subst hi
      rw [Sys.threads_executed, if_pos rfl] at hth
      obtain rfl := Option.some.inj hth
      exact .inl ⟨th, hi0, th.draws_resume _ _ _⟩
    · rw [Sys.threads_executed, if_neg hi] at hth
      exact .inl ⟨th', hth, rfl⟩
  | advanceRedis ms => exact .inl ⟨th', hth, rfl⟩
  | advancePostgres us => exact .inl ⟨th', hth, rfl⟩

theorem Step.drawn_mono (h : S.Step s m s') {u : U} (hu : u ∈ s.drawn) : u ∈ s'.drawn := by
  cases h with
  | spawn => exact List.mem_append_right _ hu
  | _ => exact hu

theorem Step.reservations (h : S.Step s m s') {res : Reservation U}
    (hres : res ∈ s'.world.db.reservations.rows) : res ∈ s.world.db.reservations.rows ∨
      ∃ t q r, s'.threads t = some (.hold q (.done r)) ∧ res = q.reservation S.uuid S.holdTtl := by
  cases h with
  | @exec t th f scan _ _ _ =>
    rcases (exec_db S s t th f scan).reservations hres with hres | ⟨q, rfl, hq⟩
    · exact .inl hres
    · exact .inr ⟨t, q, _, by rw [Sys.threads_executed, if_pos rfl]; rfl, hq⟩
  | _ => exact .inl hres

theorem Step.orders (h : S.Step s m s') : s'.world.db.orders = s.world.db.orders ∨
    ∃ t f scan q ss up ca r, m = .exec t f scan ∧ f.takes = true ∧
      s.threads t = some (.commit q (.insert ss up ca)) ∧
      q.insertOrder S.uuid s.world ss up ca ≠ none ∧
      s'.world.db.orders = s.world.db.orders ++ [q.order S.uuid ss up ca] ∧
      s'.threads t = some (.commit q (.done r)) ∧ r.placed = some q.draw := by
  cases h with
  | @exec t th f scan hth _ _ =>
    rcases (exec_db S s t th f scan).orders with ho | ⟨q, ss, up, ca, rfl, hdb, ho⟩
    · exact .inl ho
    · by_cases hf : f.takes = true
      · have hturn := CommitRequest.turn_resume (L := S.uuid) (q := q) (w := s.world) f scan
          (.insert ss up ca)
        have hres : (s.executed S t (.commit q (.insert ss up ca)) f scan).threads t =
            some (.commit q (q.resume S.uuid s.world f scan (.insert ss up ca))) := by
          rw [Sys.threads_executed, if_pos rfl]
          rfl
        generalize q.resume S.uuid s.world f scan (.insert ss up ca) = pc at hturn hres
        cases hturn with
        | inserted _ _ | pending _ =>
          exact .inr ⟨t, f, scan, q, ss, up, ca, _, rfl, hf, hth, by simp [hdb], ho, hres, rfl⟩
      · exact .inl (by simp [Sys.executed, hf])
  | _ => exact .inl rfl

theorem Step.orders_mono (hs : S.Step s m s') {o : Order U} (hmem : o ∈ s.world.db.orders) :
    o ∈ s'.world.db.orders := by
  rcases hs.orders with heq | ⟨_, _, _, _, _, _, _, _, _, _, _, _, heq, _⟩
  · exact heq ▸ hmem
  · exact heq ▸ List.mem_append_left _ hmem

theorem origins_step (h : Origins S s₀ s) (hs : S.Step s m s') : Origins S s₀ s' where
  kept u hu := hs.drawn_mono (h.kept u hu)
  drawn t th' hth u hu := by
    rcases hs.draws_cases hth with ⟨th, hth, hd⟩ | hnew
    · have hh := h.drawn t th hth u (hd ▸ hu)
      exact ⟨hs.drawn_mono hh.1, hh.2⟩
    · exact ⟨(hnew u hu).2.1, fun h0 => (hnew u hu).1 (h.kept u h0)⟩
  apart t t' th th' hth hth' u hu hu' := by
    rcases hs.draws_cases hth with ⟨x, hx, hd⟩ | hnew
    · rcases hs.draws_cases hth' with ⟨x', hx', hd'⟩ | hnew'
      · exact h.apart t t' x x' hx hx' u (hd ▸ hu) (hd' ▸ hu')
      · obtain ⟨hfresh, _, hcase⟩ := hnew' u hu'
        exact absurd (h.drawn t x hx u (hd ▸ hu)).1 hfresh
    · obtain ⟨hfresh, _, hcase⟩ := hnew u hu
      rcases hcase t' th' hth' hu' with rfl | ⟨x, hx, hmem⟩
      · rfl
      · exact absurd (h.drawn t' x hx u hmem).1 hfresh
  reservations res hres := by
    rcases hs.reservations hres with hres | hnew
    · rcases h.reservations res hres with h0 | ⟨t, q, r, hth, hq⟩
      · exact .inl h0
      · exact .inr ⟨t, q, r, hs.finished_stays hth rfl, hq⟩
    · exact .inr hnew
  orders o ho := by
    have hold (ho : o ∈ s.world.db.orders) : o ∈ s₀.world.db.orders ∨ ∃ t q r,
        s'.threads t = some (.commit q (.done r)) ∧ r.placed = some q.draw ∧
          ∃ seatIds unitPrice createdAt, o = q.order S.uuid seatIds unitPrice createdAt := by
      rcases h.orders o ho with h0 | ⟨t, q, r, hth, hq⟩
      · exact .inl h0
      · exact .inr ⟨t, q, r, hs.finished_stays hth rfl, hq⟩
    rcases hs.orders with he | ⟨t, _, _, q, ss, up, ca, r, _, _, _, _, he, hth, hr⟩
    · exact hold (he ▸ ho)
    · rcases List.mem_append.mp (he ▸ ho) with ho | ho
      · exact hold ho
      · exact .inr ⟨t, q, r, hth, hr, ss, up, ca, List.mem_singleton.mp ho⟩

theorem origins_run (hb : Booted S s₀) (h : Run S.Step s₀ tr s) : Origins S s₀ s :=
  h.invariant (Origins S s₀) (fun _ _ => True) (fun _ _ _ ho _ hs => origins_step ho hs)
    { kept := fun _ hu => hu
      drawn := fun t _ hth => by simp [hb.idle t] at hth
      apart := fun t _ _ _ hth => by simp [hb.idle t] at hth
      reservations := fun _ hres => .inl hres
      orders := fun _ ho => .inl ho } fun _ _ => trivial

omit [DecidableEq U] in
theorem holdId_unused (hb : Booted S s₀) (h : Origins S s₀ s) {q : HoldRequest U} {pc : HoldPc U}
    (hth : s.threads t = some (.hold q pc)) (hpc : ∀ r, pc ≠ .done r) :
    s.world.db.reservations.find (q.holdId S.uuid) = none := by
  rw [Reservations.find_eq_none_iff]
  intro res hres hid
  obtain ⟨_, r, hr⟩ := h.reservation_eq hb hth hres hid
  exact hpc r hr

omit [DecidableEq U] in
theorem orderId_unused (hb : Booted S s₀) (h : Origins S s₀ s) {q : CommitRequest U} {pc : CommitPc U}
    (hth : s.threads t = some (.commit q pc)) (hpc : ∀ r, pc ≠ .done r) :
    ∀ o ∈ s.world.db.orders, o.id ≠ q.draw := by
  intro o ho hid
  obtain ⟨_, r, hr⟩ := h.order_eq hb hth ho hid
  exact hpc r hr

end Service

end Draws

end CrowdTic
