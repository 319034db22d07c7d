import CrowdTic.Recovery

/-! The orders of one hold. A request that the commit script lets through
places an order of its own, also when the script has answered a replay. -/

namespace CrowdTic

section Orders

variable {U : Type}

/-- The script has let the request through, and the request places an order or has placed it. -/
def CommitPc.Ordering : CommitPc U → Prop
  | .price _ _ => True
  | .select _ _ => True
  | .insert _ _ _ => True
  | .done r => r.placed ≠ none
  | _ => False

instance [DecidableEq U] : DecidablePred (CommitPc.Ordering (U := U))
  | .price _ _ | .select _ _ | .insert _ _ _ => inferInstanceAs (Decidable True)
  | .done r => inferInstanceAs (Decidable (r.placed ≠ none))
  | .idempotency | .seats | .category _ | .script _ _ => inferInstanceAs (Decidable False)

/-- At most one order of the hold, which the ledger and all answers name. -/
structure Sys.OneOrder (L : UuidLib U) (e h : String) (s : Sys U) : Prop where
  unique : (s.world.db.orders.filter fun o => o.holdId = h).length ≤ 1
  ledger : ∀ o ∈ s.world.db.orders, o.holdId = h → ∀ v,
    s.world.redis.strings.get (orderHoldKey e h) = some v → v = L.str o.id
  answers : ∀ o ∈ s.world.db.orders, o.holdId = h → ∀ t q r x,
    s.threads t = some (.commit q (.done r)) → q.holdId = h → r.orderId = some x → x = o.id

def Thread.Orders (h : String) : Thread U → Prop
  | .commit q pc => q.holdId = h ∧ pc.Ordering
  | _ => False

instance [DecidableEq U] (h : String) : DecidablePred (Thread.Orders (U := U) h)
  | .commit q pc => inferInstanceAs (Decidable (q.holdId = h ∧ pc.Ordering))
  | .hold _ _ | .release _ _ | .sweep _ => inferInstanceAs (Decidable False)

/-- The ledger does not know the hold, and no request has come past its script for it. -/
def Sys.Unordered (e h : String) (s : Sys U) : Prop :=
  s.world.redis.strings.get (orderHoldKey e h) = none ∧
    s.Every fun th => ¬ th.Orders h

/-- The script call changes nothing, and the request is answered with an error. -/
def CommitRequest.Fails (L : UuidLib U) (q : CommitRequest U) (seatIds : List String) (r : Redis)
    (f : Fault) : Prop :=
  f.takes = false ∨ ¬ CommitRuns r (q.seatKeys seatIds) (q.args L) ∧
    (f = .none → ledger r (q.args L) = none)

instance (L : UuidLib U) (q : CommitRequest U) (ss : List String) (r : Redis) (f : Fault) :
    Decidable (q.Fails L ss r f) := inferInstanceAs (Decidable (_ ∨ _))

variable [DecidableEq U]

/-- A known key leads to an order of the same hold, and the script lets a
request through only while the hold is free. -/
def CommitRequest.Once (L : UuidLib U) (h : String) (free : Prop) (s : Sys U) (f : Fault)
    (scan : Scan U) (q : CommitRequest U) : CommitPc U → Prop
  | .idempotency => f = .none → ∀ o ∈ Db.checkIdempotency scan.orders (q.idem L) (q.userId L),
      ∃ x ∈ s.world.db.orders, x.holdId = h ∧ x.id = o
  | .script seatIds _ => q.Fails L seatIds s.world.redis f ∨ free
  | _ => True

instance (L : UuidLib U) (h : String) (free : Prop) [Decidable free] (s : Sys U) (f : Fault)
    (scan : Scan U) (q : CommitRequest U) : DecidablePred (q.Once L h free s f scan)
  | .idempotency => inferInstanceAs (Decidable
      (f = .none → ∀ o ∈ Db.checkIdempotency scan.orders (q.idem L) (q.userId L),
        ∃ x ∈ s.world.db.orders, x.holdId = h ∧ x.id = o))
  | .script seatIds _ => inferInstanceAs (Decidable (q.Fails L seatIds s.world.redis f ∨ free))
  | .seats | .category _ | .price _ _ | .select _ _ | .insert _ _ _ | .done _ =>
    inferInstanceAs (Decidable True)

def Thread.Once (L : UuidLib U) (h : String) (free : Prop) (s : Sys U) (f : Fault) (scan : Scan U) :
    Thread U → Prop
  | .commit q pc => q.holdId = h → q.Once L h free s f scan pc
  | _ => True

instance (L : UuidLib U) (h : String) (free : Prop) [Decidable free] (s : Sys U) (f : Fault)
    (scan : Scan U) : DecidablePred (Thread.Once L h free s f scan)
  | .commit q pc => inferInstanceAs (Decidable (q.holdId = h → q.Once L h free s f scan pc))
  | .hold _ _ | .release _ _ | .sweep _ => inferInstanceAs (Decidable True)

def Service.CommitsOnce (S : Service U) (h : String) (free : Prop) (s : Sys U) : Move U → Prop
  | .exec t f scan => ∀ th ∈ s.threads t, th.Once S.uuid h free s f scan
  | _ => True

instance (S : Service U) (h : String) (free : Prop) [Decidable free] (s : Sys U) :
    DecidablePred (S.CommitsOnce h free s)
  | .exec t f scan => inferInstanceAs (Decidable (∀ th ∈ s.threads t, th.Once S.uuid h free s f scan))
  | .spawn _ _ | .advanceRedis _ | .advancePostgres _ => inferInstanceAs (Decidable True)

theorem Service.CommitsOnce.imp {S : Service U} {h : String} {free free' : Prop} {s : Sys U}
    {m : Move U} (hc : S.CommitsOnce h free s m) (hi : free → free') : S.CommitsOnce h free' s m := by
  cases m with
  | exec t f scan =>
    intro th hth
    have honce := hc th hth
    cases th with
    | commit q pc =>
      intro hq
      cases pc with
      | script ss cat => exact (honce hq).imp_right hi
      | _ => exact honce hq
    | _ => trivial
  | _ => trivial

theorem CommitRequest.Turn.ordering {L : UuidLib U} {q : CommitRequest U} {w : World U} {f : Fault}
    {scan : Scan U} {pc pc' : CommitPc U} (h : Turn L q w f scan pc pc') (ho : pc'.Ordering) :
    pc.Ordering ∨ ∃ ss cat, pc = .script ss cat ∧ ¬ q.Fails L ss w.redis f := by
  cases h with
  | ran hf hok =>
    refine .inr ⟨_, _, rfl, fun hfail => ?_⟩
    rcases hfail with ht | ⟨hnot, hl⟩
    · simp [hf, Fault.takes] at ht
    · exact hok.elim (absurd (hl hf)) hnot
  | priced | broken | duplicate | begun | inserted | pending => exact .inl trivial
  | stay => exact .inl ho
  | _ => simp [CommitPc.Ordering, CommitResponse.placed] at ho

end Orders

section Invariant

variable {U : Type} [DecidableEq U] {S : Service U} {e h : String} {s₀ s s' : Sys U} {m : Move U}

/-- One request at most is past the script for the hold. It is the one that the ledger names,
and every answer names its order or an order that is there. -/
structure OneOrdering (S : Service U) (e h : String) (s : Sys U) : Prop where
  plain : ∀ t q ss cat, s.threads t = some (.commit q (.script ss cat)) → PlainId q.holdId
  alone : ∀ t t' q q' pc pc', s.threads t = some (.commit q pc) → q.holdId = h → pc.Ordering →
    s.threads t' = some (.commit q' pc') → q'.holdId = h → pc'.Ordering → t = t'
  ledger : ∀ v, s.world.redis.strings.get (orderHoldKey e h) = some v → ∀ t q pc,
    s.threads t = some (.commit q pc) → q.holdId = h → pc.Ordering → v = S.uuid.str q.draw
  unique : (s.world.db.orders.filter fun o => o.holdId = h).length ≤ 1
  answers : ∀ t q r x, s.threads t = some (.commit q (.done r)) → q.holdId = h →
    r.orderId = some x → r.placed = some x ∧ x = q.draw ∨
      ∃ o ∈ s.world.db.orders, o.holdId = h ∧ o.id = x

theorem Service.Step.ordering {t : Nat} {q : CommitRequest U} {pc : CommitPc U} (hs : S.Step s m s')
    (hgood : S.CommitsOnce h (s.Unordered e h) s m) (hth : s'.threads t = some (.commit q pc)) (hq : q.holdId = h)
    (ho : pc.Ordering) : (∃ pc₀, s.threads t = some (.commit q pc₀) ∧ pc₀.Ordering) ∨
      s.Unordered e h ∧ ∃ f scan ss cat, m = .exec t f scan ∧
        s.threads t = some (.commit q (.script ss cat)) := by
  cases hs.commit hth with
  | stay hold => exact .inl ⟨pc, hold, ho⟩
  | start _ hpc =>
    subst hpc
    exact ho.elim
  | @turn pc₀ f scan hth₀ _ _ hturn =>
    rcases hturn.ordering ho with ho₀ | ⟨ss, cat, rfl, hfail⟩
    · exact .inl ⟨pc₀, hth₀, ho₀⟩
    · exact .inr ⟨(hgood _ hth₀ hq).resolve_left hfail, f, scan, ss, cat, rfl, hth₀⟩

omit [DecidableEq U] in
theorem Origins.holdId_plain (hb : Booted S s₀) (ho : Origins S s₀ s) {res : Reservation U}
    (hres : res ∈ s.world.db.reservations.rows) : PlainId res.holdId := by
  rcases ho.reservations res hres with h0 | ⟨_, q, _, _, rfl⟩
  · obtain ⟨u, _, hu⟩ := hb.holds res h0
    exact hu ▸ S.uuid.str_plain u
  · exact S.uuid.str_plain q.draw

theorem plain_step (hb : Booted S s₀) (ho : Origins S s₀ s) (hi : OneOrdering S e h s)
    (hs : S.Step s m s') (t : Nat) (q : CommitRequest U) (ss : List String) (cat : U)
    (hth : s'.threads t = some (.commit q (.script ss cat))) : PlainId q.holdId := by
  cases hs.commit hth with
  | stay hold => exact hi.plain t q ss cat hold
  | start _ hpc => cases hpc
  | turn _ _ _ hturn =>
    cases hturn with
    | found _ hres =>
      obtain ⟨hmem, hid⟩ := (Reservations.find_eq_some_iff _).mp hres
      exact hid ▸ ho.holdId_plain hb hmem

theorem alone_step (hi : OneOrdering S e h s) (hs : S.Step s m s') (hgood : S.CommitsOnce h (s.Unordered e h) s m)
    (t t' : Nat) (q q' : CommitRequest U) (pc pc' : CommitPc U)
    (hth : s'.threads t = some (.commit q pc)) (hq : q.holdId = h) (hpc : pc.Ordering)
    (hth' : s'.threads t' = some (.commit q' pc')) (hq' : q'.holdId = h) (hpc' : pc'.Ordering) :
    t = t' := by
  rcases hs.ordering hgood hth hq hpc with ⟨pc₀, h₀, ho₀⟩ | ⟨hnone, _, _, _, _, hm, _⟩
  · rcases hs.ordering hgood hth' hq' hpc' with ⟨pc₁, h₁, ho₁⟩ | ⟨hnone, _⟩
    · exact hi.alone t t' q q' pc₀ pc₁ h₀ hq ho₀ h₁ hq' ho₁
    · exact absurd ⟨hq, ho₀⟩ (hnone.2 t _ h₀)
  · rcases hs.ordering hgood hth' hq' hpc' with ⟨pc₁, h₁, ho₁⟩ | ⟨_, _, _, _, _, hm', _⟩
    · exact absurd ⟨hq', ho₁⟩ (hnone.2 t' _ h₁)
    · exact (Move.exec.inj (hm.symm.trans hm')).1

theorem Service.Step.ledger {v : String} (hs : S.Step s m s')
    (hv : s'.world.redis.strings.get (orderHoldKey e h) = some v) :
    s.world.redis.strings.get (orderHoldKey e h) = some v ∨ ∃ t f scan q ss cat, m = .exec t f scan ∧
      f.takes = true ∧ s.threads t = some (.commit q (.script ss cat)) ∧
      CommitRuns s.world.redis (q.seatKeys ss) (q.args S.uuid) ∧
      orderHoldKey e h = orderHoldKey q.queueEventId q.holdId ∧ v = S.uuid.str q.draw := by
  cases hc : S.call s m with
  | none => exact .inl (hs.redis_idle hc ▸ hv)
  | some c =>
    have hexec : s'.world.redis = c.exec s.world.redis := hs.redis_call hc
    rw [hexec] at hv
    rcases ledger_exec hv with hold | ⟨inv, ks, a, rfl, hruns, hkey, rfl⟩
    · exact .inl hold
    · cases hs with
      | spawn => cases hc
      | advanceRedis | advancePostgres => cases hc
      | @exec t th f scan hth _ _ =>
        by_cases hf : f.takes = true
        · rw [Service.call, if_pos hf, hth] at hc
          cases th with
          | commit q pc =>
            cases pc <;> cases hc
            exact .inr ⟨t, f, scan, q, _, _, rfl, hf, hth, hruns, hkey, rfl⟩
          | hold q pc => cases pc <;> cases hc
          | release q pc => cases pc <;> cases hc
          | sweep pc => cases pc <;> cases hc
        · rw [Service.call, if_neg hf] at hc
          cases hc

theorem ledger_step (hh : PlainId h) (hi : OneOrdering S e h s) (hs : S.Step s m s')
    (hgood : S.CommitsOnce h (s.Unordered e h) s m) (v : String)
    (hv : s'.world.redis.strings.get (orderHoldKey e h) = some v) (t : Nat) (q : CommitRequest U)
    (pc : CommitPc U) (hth : s'.threads t = some (.commit q pc)) (hq : q.holdId = h)
    (hpc : pc.Ordering) : v = S.uuid.str q.draw := by
  have hcame := hs.ordering hgood hth hq hpc
  rcases hs.ledger hv with hold | ⟨i, f, scan, q₀, ss, cat, rfl, hf, hth₀, hruns, hkey, rfl⟩
  · rcases hcame with ⟨pc₀, h₀, ho₀⟩ | ⟨hnone, _⟩
    · exact hi.ledger v hold t q pc₀ h₀ hq ho₀
    · rw [hnone.1] at hold
      cases hold
  · obtain ⟨_, hid⟩ := orderHoldKey_inj_of_plain (hi.plain i q₀ ss cat hth₀) hh hkey
    have hnone : s.Unordered e h := (hgood _ hth₀ hid.symm).resolve_left fun hfail => by
      rcases hfail with ht | ⟨hnot, _⟩
      · rw [hf] at ht
        cases ht
      · exact hnot hruns
    rcases hcame with ⟨pc₀, h₀, ho₀⟩ | ⟨_, _, _, _, _, hm, h₁⟩
    · exact absurd ⟨hq, ho₀⟩ (hnone.2 t _ h₀)
    · obtain ⟨rfl, _⟩ := Move.exec.inj hm
      obtain ⟨rfl, _⟩ := Thread.commit.inj (Option.some.inj (hth₀.symm.trans h₁))
      rfl

omit [DecidableEq U] in
theorem Origins.placed_by (ho : Origins S s₀ s) (h0 : ∀ o ∈ s₀.world.db.orders, o.holdId ≠ h)
    {o : Order U} (hmem : o ∈ s.world.db.orders) (hid : o.holdId = h) : ∃ t q r,
      s.threads t = some (.commit q (.done r)) ∧ q.holdId = h ∧ (CommitPc.done r).Ordering ∧
        o.id = q.draw := by
  rcases ho.orders o hmem with hold | ⟨t, q, r, hth, hr, _, _, _, rfl⟩
  · exact absurd hid (h0 o hold)
  · exact ⟨t, q, r, hth, hid, by simp [CommitPc.Ordering, hr], rfl⟩

theorem unique_step (ho : Origins S s₀ s) (h0 : ∀ o ∈ s₀.world.db.orders, o.holdId ≠ h)
    (hi : OneOrdering S e h s) (hs : S.Step s m s') :
    (s'.world.db.orders.filter fun o => o.holdId = h).length ≤ 1 := by
  rcases hs.orders with heq | ⟨t, _, _, q, ss, up, ca, _, _, _, hth, _, heq, _⟩
  · exact heq ▸ hi.unique
  · rw [heq, List.filter_append]
    by_cases hq : q.holdId = h
    · have hnil : (s.world.db.orders.filter fun o => o.holdId = h) = [] := by
        rw [List.filter_eq_nil_iff]
        intro o hmem hid
        obtain ⟨t', q', r, hth', hq', hpc, _⟩ := ho.placed_by h0 hmem (by simpa using hid)
        obtain rfl := hi.alone t t' q q' _ _ hth hq trivial hth' hq' hpc
        cases hth.symm.trans hth'
      rw [hnil]
      exact List.length_filter_le _ _
    · have hnil : ([q.order S.uuid ss up ca].filter fun o => o.holdId = h) = [] := by
        simpa [CommitRequest.order] using hq
      rw [hnil, List.append_nil]
      exact hi.unique

theorem answers_step (hi : OneOrdering S e h s) (hs : S.Step s m s') (hgood : S.CommitsOnce h (s.Unordered e h) s m)
    (t : Nat) (q : CommitRequest U) (r : CommitResponse U) (x : U)
    (hth : s'.threads t = some (.commit q (.done r))) (hq : q.holdId = h) (hx : r.orderId = some x) :
    r.placed = some x ∧ x = q.draw ∨ ∃ o ∈ s'.world.db.orders, o.holdId = h ∧ o.id = x := by
  have hold (h₀ : s.threads t = some (.commit q (.done r))) :
      r.placed = some x ∧ x = q.draw ∨ ∃ o ∈ s'.world.db.orders, o.holdId = h ∧ o.id = x := by
    rcases hi.answers t q r x h₀ hq hx with hown | ⟨o, hmem, ho⟩
    · exact .inl hown
    · exact .inr ⟨o, hs.orders_mono hmem, ho⟩
  have hmove := hs.commit hth
  cases hmove with
  | stay h₀ => exact hold h₀
  | start _ hpc => cases hpc
  | turn h₀ _ _ hturn =>
    rcases hturn.answered hx with rfl | ⟨_, hown⟩ | ⟨rfl, hf, hknown⟩
    · exact hold h₀
    · exact .inl hown
    · obtain ⟨o, hmem, ho⟩ := hgood _ h₀ hq hf x hknown
      exact .inr ⟨o, hs.orders_mono hmem, ho⟩

theorem oneOrdering_step (hb : Booted S s₀) (hh : PlainId h)
    (h0 : ∀ o ∈ s₀.world.db.orders, o.holdId ≠ h) (ho : Origins S s₀ s) (hi : OneOrdering S e h s)
    (hs : S.Step s m s') (hgood : S.CommitsOnce h (s.Unordered e h) s m) : OneOrdering S e h s' where
  plain := plain_step hb ho hi hs
  alone := alone_step hi hs hgood
  ledger := ledger_step hh hi hs hgood
  unique := unique_step ho h0 hi hs
  answers := answers_step hi hs hgood

omit [DecidableEq U] in
theorem oneOrder_of_oneOrdering (ho : Origins S s₀ s) (h0 : ∀ o ∈ s₀.world.db.orders, o.holdId ≠ h)
    (hi : OneOrdering S e h s) : s.OneOrder S.uuid e h where
  unique := hi.unique
  ledger o hmem hid v hv := by
    obtain ⟨t, q, r, hth, hq, hpc, he⟩ := ho.placed_by h0 hmem hid
    rw [he]
    exact hi.ledger v hv t q _ hth hq hpc
  answers o hmem hid t q r x hth hq hx := by
    rcases hi.answers t q r x hth hq hx with ⟨hplaced, rfl⟩ | ⟨o', hmem', hid', rfl⟩
    · obtain ⟨t', q', r', hth', hq', hpc', he⟩ := ho.placed_by h0 hmem hid
      obtain rfl := hi.alone t t' q q' _ _ hth hq (by simp [CommitPc.Ordering, hplaced]) hth' hq' hpc'
      obtain ⟨rfl, _⟩ := Thread.commit.inj (Option.some.inj (hth.symm.trans hth'))
      exact he.symm
    · have hf {y : Order U} (hy : y ∈ s.world.db.orders) (hyh : y.holdId = h) :
          y ∈ s.world.db.orders.filter fun o => o.holdId = h :=
        List.mem_filter.mpr ⟨hy, by simpa using hyh⟩
      obtain ⟨z, hz⟩ := List.length_eq_one_iff.mp
        (Nat.le_antisymm hi.unique (List.length_pos_of_mem (hf hmem hid)))
      have h1 := hf hmem hid
      have h2 := hf hmem' hid'
      rw [hz, List.mem_singleton] at h1 h2
      rw [h1, h2]

end Invariant

section Runs

variable {U : Type} [DecidableEq U] {S : Service U} {s₀ s : Sys U} {tr : List (Sys U × Move U)}

/-- In a run whose requests for a hold get past the script once, and whose known keys for it
lead to its own order, the hold has at most one order, and both stores and all answers name it. -/
theorem one_order_of_once_committed_run {e : String} {u : U} (hb : Booted S s₀)
    (horders : ∀ o ∈ s₀.world.db.orders, o.holdId ≠ S.uuid.str u)
    (hrun : Run S.Step s₀ tr s)
    (hgood : ∀ p ∈ tr, S.CommitsOnce (S.uuid.str u) (p.1.Unordered e (S.uuid.str u)) p.1 p.2) :
    s.OneOrder S.uuid e (S.uuid.str u) := by
  have hinv := hrun.invariant (fun v => Origins S s₀ v ∧ OneOrdering S e (S.uuid.str u) v)
    (fun v m => S.CommitsOnce (S.uuid.str u) (v.Unordered e (S.uuid.str u)) v m)
    (fun v m v' hv hg hs => ⟨Service.origins_step hv.1 hs,
      oneOrdering_step hb (S.uuid.str_plain u) horders hv.1 hv.2 hs hg⟩)
    ⟨Service.origins_run hb .nil,
      { plain := fun t _ _ _ hth => by simp [hb.idle t] at hth
        alone := fun t _ _ _ _ _ hth => by simp [hb.idle t] at hth
        ledger := fun _ _ t _ _ hth => by simp [hb.idle t] at hth
        unique := by
          rw [List.filter_eq_nil_iff.mpr fun o ho hid => horders o ho (by simpa using hid)]
          exact Nat.zero_le 1
        answers := fun t _ _ _ hth => by simp [hb.idle t] at hth }⟩ hgood
  exact oneOrder_of_oneOrdering hinv.1 horders hinv.2

end Runs

section Demo

theorem demo_hold_ordered_once : ∃ s : Sys DemoId, (∃ tr, Run demoService.Step demoSys tr s) ∧
    s.world.db.orders.length = 1 ∧ s.OneOrder DemoId.lib demoEvent (DemoId.lib.str .hold) := by
  have hplay : ((demoService.play demoSys (demoSold ++
      served 2 (.commit (demoRetry DemoId.key.str (by decide) .order')) 1)).any fun x =>
      decide (x.2.world.db.orders.length = 1 ∧ (∀ p ∈ x.1, p.2.SpawnsBelow 3) ∧
        ∀ p ∈ x.1, demoService.CommitsOnce (DemoId.lib.str .hold)
          (p.1.world.redis.strings.get (orderHoldKey demoEvent (DemoId.lib.str .hold)) = none ∧
            ∀ t < 3, ∀ th ∈ p.1.threads t, ¬ th.Orders (DemoId.lib.str .hold)) p.1 p.2)) = true := by
    decide +kernel
  obtain ⟨tr, s, hrun, hp⟩ := Service.run_of_play hplay
  obtain ⟨hlen, hspawn, honce⟩ := of_decide_eq_true hp
  have hidle := fun p hp => Service.idle_above_of_mem (p := p) hrun (fun _ => rfl) hspawn hp
  exact ⟨s, ⟨tr, hrun⟩, hlen, one_order_of_once_committed_run demoSys_booted (fun _ h => nomatch h) hrun
    fun p hp => (honce p hp).imp fun hfree => ⟨hfree.1, Sys.every_of_below (hidle p hp) hfree.2⟩⟩

/-- A second request for the hold under a fresh key places a second order. -/
theorem hold_ordered_twice : ¬ ∀ (s₀ s : Sys DemoId) (tr : List (Sys DemoId × Move DemoId))
    (e : String) (u : DemoId), Booted demoService s₀ →
    (∀ o ∈ s₀.world.db.orders, o.holdId ≠ DemoId.lib.str u) → Run demoService.Step s₀ tr s →
    s.OneOrder DemoId.lib e (DemoId.lib.str u) := by
  intro h
  have hplay : ((demoService.play demoSys (demoSold ++
      served 2 (.commit (demoRetry DemoId.key'.str (by decide) .order')) 6)).any fun x =>
      decide (1 < (x.2.world.db.orders.filter fun o =>
        o.holdId = DemoId.lib.str .hold).length)) = true := by
    decide +kernel
  obtain ⟨tr, s, hrun, hp⟩ := Service.run_of_play hplay
  have hone := (h demoSys s tr demoEvent .hold demoSys_booted (fun _ h => nomatch h) hrun).unique
  exact absurd hone (Nat.not_le.mpr (of_decide_eq_true hp))

end Demo

end CrowdTic
