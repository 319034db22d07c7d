import CrowdTic.HoldOrders
import CrowdTic.OrderItems

/-! The hold behind an order. A seat carries the id of the hold that has taken
it until it is free again, and an entry of the ledger the id of a hold whose
seats a commit script has sold, so that an order cannot leave its hold's event. -/

namespace CrowdTic

/-- Nothing is taken or sold, and the seats have keys from which their event can be read. -/
structure Redis.Unsold (r : Redis) : Prop where
  keyed : ∀ e s, r.seat (seatKey e s) ≠ .gone →
    ∃ e' s', PlainId e' ∧ PlainId s' ∧ seatKey e s = seatKey e' s'
  free : ∀ e s, (r.seat (seatKey e s)).holdId = none
  ledger : ∀ e h, r.strings.get (orderHoldKey e h) = none

/-- The hold script is let through and puts the two ids on the seat. -/
def Call.Takes (r : Redis) (k user hold : String) : Call → Prop
  | .hold inv ks a =>
    holdRefusal r inv ks a = none ∧ k ∈ ks ∧ a.userId = user ∧ a.holdId = hold
  | _ => False

/-- The commit script is let through and enters its order for the hold. -/
def Call.Enters (r : Redis) (e hold : String) : Call → Prop
  | .commit _ ks a => CommitRuns r ks a ∧ orderHoldKey e hold = orderHoldKey a.eventId a.holdId
  | _ => False

/-- The seat is held or sold under the two ids. -/
def Redis.Taken (r : Redis) (k user hold : String) : Prop :=
  r.seat k = .held user hold ∨ r.seat k = .sold user hold

section Scripts

variable {r₀ r : Redis} {tr : List (Redis × Call)} {c : Call} {e s h user : String}

theorem gone_exec (hgone : r.seat (seatKey e s) = .gone) : (c.exec r).seat (seatKey e s) = .gone := by
  have hmove := seatMove_exec e s r c
  generalize c.exec r = r' at hmove ⊢
  cases hmove with
  | keep hsame _ => exact hsame.trans hgone
  | take _ hfree _ => simp [hgone, Seat.gone] at hfree
  | free _ hhold _ _ => simp [hgone, Seat.gone] at hhold
  | sell _ _ hheld _ _ => simp [hgone, Seat.gone, Seat.held] at hheld
  | lapse _ hlost => exact hlost

theorem seeded_of_run (hrun : Run CallStep r₀ tr r) (hseat : r.seat (seatKey e s) ≠ .gone) :
    r₀.seat (seatKey e s) ≠ .gone := fun hgone =>
  hseat (hrun.invariant (fun r => r.seat (seatKey e s) = .gone) (fun _ _ => True)
    (fun _ _ _ hr _ hstep => by rw [hstep]; exact gone_exec hr) hgone fun _ _ => trivial)

theorem accepted_of_exec_ne {inv : String} {ks : List String} {a : HoldArgs}
    (hne : (Call.hold inv ks a).exec r ≠ r) : holdRefusal r inv ks a = none := by
  rcases hold_exec_cases r inv ks a with ⟨href, _⟩ | hidle
  · exact href
  · exact absurd hidle hne

theorem taken_exec (ht : (c.exec r).Taken (seatKey e s) user h) :
    r.Taken (seatKey e s) user h ∨ c.Takes r (seatKey e s) user h := by
  have hmove := seatMove_exec e s r c
  cases hmove with
  | keep hsame _ => exact .inl (by rwa [Redis.Taken, hsame] at ht)
  | @take inv ks a hk hfree hseat =>
    have hne : (Call.hold inv ks a).exec r ≠ r := by
      intro hidle
      rw [hidle] at hseat
      simp [hseat, Seat.held] at hfree
    have hids : a.userId = user ∧ a.holdId = h := by
      simpa [Redis.Taken, hseat, Seat.held, Seat.sold] using ht
    exact .inr ⟨accepted_of_exec_ne hne, hk, hids⟩
  | free _ _ hseat _ => simp [Redis.Taken, hseat, Seat.available, Seat.held, Seat.sold] at ht
  | @sell inv ks a _ _ hheld hseat _ =>
    have hids : a.userId = user ∧ a.holdId = h := by
      simpa [Redis.Taken, hseat, Seat.held, Seat.sold] using ht
    exact .inl (.inl (hids.1 ▸ hids.2 ▸ hheld))
  | lapse _ hseat => simp [Redis.Taken, hseat, Seat.gone, Seat.held, Seat.sold] at ht

/-- Whoever has a seat has taken it by a hold of the run. -/
theorem takes_of_taken (hrun : Run CallStep r₀ tr r) (h₀ : r₀.Unsold)
    (ht : r.Taken (seatKey e s) user h) : ∃ p ∈ tr, p.2.Takes p.1 (seatKey e s) user h := by
  induction hrun with
  | nil =>
    have hfree := h₀.free e s
    rcases ht with ht | ht
    · simp [ht, Seat.held] at hfree
    · simp [ht, Seat.sold] at hfree
  | @snoc tr r r' c _ hstep ih =>
    rw [CallStep] at hstep
    subst hstep
    rcases taken_exec ht with hold | hnew
    · obtain ⟨p, hp, htakes⟩ := ih hold
      exact ⟨p, List.mem_append_left _ hp, htakes⟩
    · exact ⟨(r, c), List.mem_concat_self, hnew⟩

/-- Whatever the ledger knows was entered by a commit of the run. -/
theorem enters_of_ledger (hrun : Run CallStep r₀ tr r) (h₀ : r₀.Unsold)
    (hl : r.strings.get (orderHoldKey e h) ≠ none) : ∃ p ∈ tr, p.2.Enters p.1 e h := by
  induction hrun with
  | nil => exact absurd (h₀.ledger e h) hl
  | @snoc tr r r' c _ hstep ih =>
    obtain ⟨v, hv⟩ := Option.ne_none_iff_exists'.mp hl
    rw [CallStep] at hstep
    subst hstep
    rcases ledger_exec hv with hold | ⟨inv, ks, a, rfl, hruns, hkey, _⟩
    · obtain ⟨p, hp, henters⟩ := ih (by simp [hold])
      exact ⟨p, List.mem_append_left _ hp, henters⟩
    · exact ⟨_, List.mem_concat_self, hruns, hkey⟩

end Scripts

section Threads

variable {U : Type} [DecidableEq U] {S : Service U} {s₀ s s' : Sys U} {m : Move U}
  {tr : List (Sys U × Move U)} {t : Nat}

/-- A request that is past its list of seats has one that is not empty. -/
def CommitPc.Seated : CommitPc U → Prop
  | .category ss => ss ≠ []
  | .script ss _ => ss ≠ []
  | _ => True

def Thread.Seated : Thread U → Prop
  | .commit _ pc => pc.Seated
  | _ => True

omit [DecidableEq U] in
theorem CommitRequest.seated_checkSeats (ss : List String) :
    (CommitRequest.checkSeats ss : CommitPc U).Seated := by
  by_cases hss : ss.length = 0
  · rw [checkSeats, if_pos hss]
    trivial
  · rw [checkSeats, if_neg hss]
    exact fun he => hss (List.length_eq_zero_iff.mpr he)

theorem CommitRequest.seated_resume {q : CommitRequest U} {pc : CommitPc U} (w : World U) (f : Fault)
    (scan : Scan U) (h : pc.Seated) : (q.resume S.uuid w f scan pc).Seated := by
  cases pc with
  | idempotency =>
    rw [resume]
    split
    · trivial
    · split
      · trivial
      · next hss => exact fun he => hss (List.length_eq_zero_iff.mpr he)
  | seats =>
    rw [resume]
    split
    · exact seated_checkSeats _
    · exact seated_checkSeats _
  | category ss =>
    simp only [resume]
    split
    · next res _ =>
      by_cases hz : res.categoryId = S.uuid.zero
      · rw [if_pos hz]
        trivial
      · rw [if_neg hz]
        exact h
    · rw [if_pos rfl]
      trivial
  | script ss cat => rw [resume]; split <;> trivial
  | price ss cat => trivial
  | select ss up => rw [resume]; split <;> trivial
  | insert ss up ca => rw [resume]; split <;> trivial
  | done r => trivial

theorem Service.Step.seated (hs : S.Step s m s') (h : s.Every Thread.Seated) :
    s'.Every Thread.Seated := by
  intro t th hth
  cases hs.thread hth with
  | stay hold => exact h t th hold
  | @start req _ _ he =>
    subst he
    cases req <;> trivial
  | @turn th₀ f scan hold _ _ he =>
    subst he
    have hseated := h t th₀ hold
    cases th₀ with
    | commit q pc => exact CommitRequest.seated_resume s.world f scan hseated
    | _ => trivial

theorem seats_of_script {q : CommitRequest U} {ss : List String} {cat : U} (hidle : ∀ i, s₀.threads i = none)
    (hrun : Run S.Step s₀ tr s) (hth : s.threads t = some (.commit q (.script ss cat))) : ss ≠ [] := by
  have hevery : s.Every Thread.Seated :=
    hrun.invariant (fun s => s.Every Thread.Seated) (fun _ _ => True) (fun _ _ _ h _ hs => hs.seated h)
      (fun i th hi => by simp [hidle i] at hi) fun _ _ => trivial
  exact hevery t _ hth

theorem holdId_plain_of_script {q : CommitRequest U} {ss : List String} {cat : U} (hb : Booted S s₀)
    (hrun : Run S.Step s₀ tr s) (hth : s.threads t = some (.commit q (.script ss cat))) :
    PlainId q.holdId := by
  obtain ⟨p, scan, res, hm, hres, _⟩ := commit_at_script (hb.idle t) hrun hth
  obtain ⟨pre, post, rfl, hpre⟩ := hm.run
  obtain ⟨hmem, hid⟩ := (Reservations.find_eq_some_iff _).mp hres
  exact hid ▸ (Service.origins_run hb hpre).holdId_plain hb hmem

theorem Service.Step.hold_stays {q : HoldRequest U} (hs : S.Step s m s')
    (h : ∃ pc, s.threads t = some (.hold q pc)) : ∃ pc, s'.threads t = some (.hold q pc) := by
  obtain ⟨pc, hth⟩ := h
  cases hs with
  | @spawn i req hfree _ =>
    have hi : t ≠ i := by
      intro he
      rw [he, hfree] at hth
      cases hth
    exact ⟨pc, by rw [Sys.threads_spawned, if_neg hi, hth]⟩
  | @exec i th f scan hrun _ _ =>
    by_cases hi : t = i
    · subst hi
      obtain rfl := Option.some.inj (hth.symm.trans hrun)
      exact ⟨_, by rw [Sys.threads_executed, if_pos rfl]; rfl⟩
    · exact ⟨pc, by rw [Sys.threads_executed, if_neg hi, hth]⟩
  | advanceRedis ms => exact ⟨pc, hth⟩
  | advancePostgres us => exact ⟨pc, hth⟩

theorem Service.Made.hold_stays {q : HoldRequest U} {pc : HoldPc U} {p : Sys U × Move U} {f : Fault}
    {scan : Scan U} (hm : Service.Made S s₀ tr t (.hold q pc) p f scan) (hrun : Run S.Step s₀ tr s) :
    ∃ pc', s.threads t = some (.hold q pc') := by
  obtain ⟨pre, post, rfl, _⟩ := hm.run
  obtain ⟨u, _, hstep, hpost⟩ := hrun.cut
  exact hpost.invariant (fun s => ∃ pc', s.threads t = some (.hold q pc')) (fun _ _ => True)
    (fun _ _ _ h _ hs => hs.hold_stays h) (hstep.hold_stays ⟨pc, hm.thread⟩) fun _ _ => trivial

end Threads

section Orders

variable {U : Type} [DecidableEq U] {S : Service U} {s₀ s : Sys U} {tr : List (Sys U × Move U)}
  {e x h user : String}

/-- The hold script has let the request through. -/
def HoldRequest.Accepted (S : Service U) (s₀ : Sys U) (tr : List (Sys U × Move U)) (q : HoldRequest U) :
    Prop :=
  ∃ t p f scan m, Service.Made S s₀ tr t (.hold q (.script m)) p f scan ∧ f.takes = true ∧
    holdRefusal p.1.world.redis q.invKey q.seatKeys (q.args S.uuid S.holdTtl m) = none

theorem HoldRequest.Accepted.append {q : HoldRequest U} (ha : q.Accepted S s₀ tr)
    (tr' : List (Sys U × Move U)) : q.Accepted S s₀ (tr ++ tr') := by
  obtain ⟨t, p, f, scan, m, hm, hrest⟩ := ha
  exact ⟨t, p, f, scan, m, hm.append tr', hrest⟩

/-- An id is drawn once, so that two accepted requests with one hold id are the same. -/
theorem HoldRequest.Accepted.unique {q q' : HoldRequest U} (hb : Booted S s₀) (hrun : Run S.Step s₀ tr s)
    (ha : q.Accepted S s₀ tr) (ha' : q'.Accepted S s₀ tr) (hid : q.holdId S.uuid = q'.holdId S.uuid) :
    q = q' := by
  obtain ⟨t, _, _, _, _, hm, _⟩ := ha
  obtain ⟨t', _, _, _, _, hm', _⟩ := ha'
  obtain ⟨pc, hth⟩ := hm.hold_stays hrun
  obtain ⟨pc', hth'⟩ := hm'.hold_stays hrun
  have hdraw : q.draw = q'.draw := S.uuid.str_inj.mp hid
  obtain rfl := (Service.origins_run hb hrun).apart t t' _ _ hth hth' q.draw (List.mem_singleton.mpr rfl)
    (List.mem_singleton.mpr hdraw)
  exact (Thread.hold.inj (Option.some.inj (hth.symm.trans hth'))).1

theorem hold_of_takes {p : Sys U × Move U} {c : Call} {k : String} (hrun : Run S.Step s₀ tr s) (hp : p ∈ tr)
    (hcall : S.call p.1 p.2 = some c) (ht : c.Takes p.1.world.redis k user h) :
    ∃ q : HoldRequest U, q.Accepted S s₀ tr ∧ k ∈ q.seatKeys ∧ S.uuid.str (q.userId S.uuid) = user ∧
      q.holdId S.uuid = h := by
  obtain ⟨u, m⟩ := p
  cases m with
  | spawn | advancePostgres => cases hcall
  | advanceRedis ms =>
    cases hcall
    exact ht.elim
  | exec t f scan =>
    by_cases hf : f.takes = true
    · rw [Service.call, if_pos hf] at hcall
      obtain ⟨th, hth, hc⟩ := Option.bind_eq_some_iff.mp hcall
      cases th with
      | hold q pc =>
        cases pc <;> cases hc
        obtain ⟨href, hk, hu, hh⟩ := ht
        exact ⟨q, ⟨t, _, f, scan, _, Service.made_of_mem hrun hp rfl hth, hf, href⟩, hk, hu, hh⟩
      | commit q pc =>
        cases pc <;> cases hc
        exact ht.elim
      | release q pc =>
        cases pc <;> cases hc
        exact ht.elim
      | sweep pc =>
        cases pc <;> cases hc
        exact ht.elim
    · rw [Service.call, if_neg hf] at hcall
      cases hcall

theorem commit_of_enters {p : Sys U × Move U} {c : Call} (hrun : Run S.Step s₀ tr s) (hp : p ∈ tr)
    (hcall : S.call p.1 p.2 = some c) (ht : c.Enters p.1.world.redis e h) :
    ∃ (q : CommitRequest U) (t : Nat) (f : Fault) (scan : Scan U) (ss : List String) (cat : U),
      Service.Made S s₀ tr t (.commit q (.script ss cat)) p f scan ∧
        CommitRuns p.1.world.redis (q.seatKeys ss) (q.args S.uuid) ∧
        orderHoldKey e h = orderHoldKey q.queueEventId q.holdId := by
  obtain ⟨u, m⟩ := p
  cases m with
  | spawn | advancePostgres => cases hcall
  | advanceRedis ms =>
    cases hcall
    exact ht.elim
  | exec t f scan =>
    by_cases hf : f.takes = true
    · rw [Service.call, if_pos hf] at hcall
      obtain ⟨th, hth, hc⟩ := Option.bind_eq_some_iff.mp hcall
      cases th with
      | hold q pc =>
        cases pc <;> cases hc
        exact ht.elim
      | commit q pc =>
        cases pc <;> cases hc
        exact ⟨q, t, f, scan, _, _, Service.made_of_mem hrun hp rfl hth, ht⟩
      | release q pc =>
        cases pc <;> cases hc
        exact ht.elim
      | sweep pc =>
        cases pc <;> cases hc
        exact ht.elim
    · rw [Service.call, if_neg hf] at hcall
      cases hcall

/-- A seat that is held or sold is one that an accepted hold of this event has listed. -/
theorem hold_of_taken (hrun : Run S.Step s₀ tr s) (h₀ : s₀.world.redis.Unsold)
    (ht : s.world.redis.Taken (seatKey e x) user h) :
    ∃ q : HoldRequest U, q.Accepted S s₀ tr ∧ q.eventId = e ∧ x ∈ q.seatIds ∧
      S.uuid.str (q.userId S.uuid) = user ∧ q.holdId S.uuid = h := by
  have hredis := Service.run_redis hrun
  obtain ⟨⟨r, c⟩, hp, htakes⟩ := takes_of_taken hredis h₀ ht
  obtain ⟨p, hmem, hcall, rfl⟩ := Service.mem_run_redis hp
  obtain ⟨q, ha, hk, hu, hh⟩ := hold_of_takes hrun hmem hcall htakes
  have hthere : s.world.redis.seat (seatKey e x) ≠ .gone := by
    rcases ht with ht | ht
    · simp [ht, Seat.held, Seat.gone]
    · simp [ht, Seat.sold, Seat.gone]
  obtain ⟨e', x', he', hx', hkey⟩ := h₀.keyed e x (seeded_of_run hredis hthere)
  obtain ⟨y, hy, hyk⟩ := List.mem_map.mp hk
  obtain ⟨rfl, rfl⟩ := seatKey_braced_inj he' hx' hkey
  obtain ⟨he, rfl⟩ := seatKey_braced_inj he' hx' hyk
  exact ⟨q, ha, he, hy, hu, hh⟩

/-- Behind every commit that the script runs stands an accepted hold of the same event,
and no other hold for any of the seats. -/
theorem hold_of_commit {t : Nat} {c : CommitRequest U} {ss : List String} {cat : U} {p : Sys U × Move U}
    {f : Fault} {scan : Scan U} (hb : Booted S s₀) (hrun : Run S.Step s₀ tr s)
    (h₀ : s₀.world.redis.Unsold) (hm : Service.Made S s₀ tr t (.commit c (.script ss cat)) p f scan)
    (hruns : CommitRuns p.1.world.redis (c.seatKeys ss) (c.args S.uuid)) :
    ∃ q : HoldRequest U, q.Accepted S s₀ tr ∧ q.holdId S.uuid = c.holdId ∧ q.eventId = c.queueEventId ∧
      q.userId S.uuid = c.userId S.uuid ∧ ∀ x ∈ ss, x ∈ q.seatIds := by
  obtain ⟨pre, post, rfl, hpre⟩ := hm.run
  have hseat (x : String) (hx : x ∈ ss) : ∃ q : HoldRequest U, q.Accepted S s₀ (pre ++ p :: post) ∧
      q.eventId = c.queueEventId ∧ x ∈ q.seatIds ∧
      S.uuid.str (q.userId S.uuid) = S.uuid.str (c.userId S.uuid) ∧ q.holdId S.uuid = c.holdId := by
    have htaken := commitRefusal_eq_none_iff.mp hruns.2 _ (List.mem_map_of_mem hx)
    obtain ⟨q, ha, hrest⟩ := hold_of_taken hpre h₀ htaken
    exact ⟨q, ha.append _, hrest⟩
  obtain ⟨x, hx⟩ := List.exists_mem_of_ne_nil ss (seats_of_script hb.idle hpre hm.thread)
  obtain ⟨q, ha, he, _, hu, hh⟩ := hseat x hx
  refine ⟨q, ha, hh, he, S.uuid.str_inj.mp hu, fun y hy => ?_⟩
  obtain ⟨q', ha', _, hy', _, hh'⟩ := hseat y hy
  obtain rfl := ha'.unique hb hrun ha (hh'.trans hh.symm)
  exact hy'

theorem hold_of_ledger {t : Nat} {c : CommitRequest U} {ss : List String} {cat : U} {p : Sys U × Move U}
    {f : Fault} {scan : Scan U} (hb : Booted S s₀) (hrun : Run S.Step s₀ tr s)
    (h₀ : s₀.world.redis.Unsold) (hm : Service.Made S s₀ tr t (.commit c (.script ss cat)) p f scan)
    (hl : ledger p.1.world.redis (c.args S.uuid) ≠ none) :
    ∃ q : HoldRequest U, q.Accepted S s₀ tr ∧ q.holdId S.uuid = c.holdId ∧
      q.eventId = c.queueEventId := by
  obtain ⟨pre, post, rfl, hpre⟩ := hm.run
  obtain ⟨⟨r, call⟩, hp', henters⟩ := enters_of_ledger (Service.run_redis hpre) h₀ hl
  obtain ⟨p', hmem, hcall, rfl⟩ := Service.mem_run_redis hp'
  obtain ⟨c', t', f', scan', ss', cat', hm', hruns, hkey⟩ := commit_of_enters hpre hmem hcall henters
  obtain ⟨pre', _, _, hpre'⟩ := hm'.run
  have hplain := holdId_plain_of_script hb hpre hm.thread
  have hplain' := holdId_plain_of_script hb hpre' hm'.thread
  obtain ⟨he, hid⟩ := orderHoldKey_inj_of_plain hplain' hplain hkey
  obtain ⟨q, ha, hh, hq, _⟩ := hold_of_commit hb hpre h₀ hm' hruns
  exact ⟨q, ha.append _, hh.trans hid.symm, hq.trans he.symm⟩

theorem order_made {o : Order U} (hrun : Run S.Step s₀ tr s) (ho : o ∈ s.world.db.orders) :
    o ∈ s₀.world.db.orders ∨ ∃ t c ss up ca p f scan,
      Service.Made S s₀ tr t (.commit c (.insert ss up ca)) p f scan ∧ o = c.order S.uuid ss up ca := by
  induction hrun with
  | nil => exact .inl ho
  | @snoc tr u v m hrun hstep ih =>
    have hold (hu : o ∈ u.world.db.orders) : o ∈ s₀.world.db.orders ∨ ∃ t c ss up ca p f scan,
        Service.Made S s₀ (tr ++ [(u, m)]) t (.commit c (.insert ss up ca)) p f scan ∧
          o = c.order S.uuid ss up ca := by
      refine (ih hu).imp_right fun hmade => ?_
      obtain ⟨t, c, ss, up, ca, p, f, scan, hm, he⟩ := hmade
      exact ⟨t, c, ss, up, ca, p, f, scan, hm.append _, he⟩
    rcases hstep.orders with he | ⟨t, f, scan, c, ss, up, ca, _, rfl, _, hth, _, he, _⟩
    · exact hold (he ▸ ho)
    · rcases List.mem_append.mp (he ▸ ho) with hu | hnew
      · exact hold hu
      · have hmade := Service.made_of_mem (hrun.snoc hstep) List.mem_concat_self rfl hth
        exact .inr ⟨t, c, ss, up, ca, _, f, scan, hmade, List.mem_singleton.mp hnew⟩

/-- Every new order is for the event of an accepted hold of the same hold id. Unless the
commit script has answered a replay, its buyer and its seats are those of the hold, too. -/
theorem order_of_hold (hb : Booted S s₀) (h₀ : s₀.world.redis.Unsold) (hrun : Run S.Step s₀ tr s)
    {o : Order U} (ho : o ∈ s.world.db.orders) (hnew : o ∉ s₀.world.db.orders) :
    ∃ q : HoldRequest U, q.Accepted S s₀ tr ∧ q.holdId S.uuid = o.holdId ∧ q.eventUuid S.uuid = o.eventId ∧
      ∃ t c ss up ca cat p scan, o = c.order S.uuid ss up ca ∧
        Service.Made S s₀ tr t (.commit c (.script ss cat)) p .none scan ∧
        (ledger p.1.world.redis (c.args S.uuid) = none →
          q.userId S.uuid = o.userId ∧ ∀ x ∈ ss, x ∈ q.seatIds) := by
  rcases order_made hrun ho with hold | ⟨t, c, ss, up, ca, p, f, scan, hm, rfl⟩
  · exact absurd hold hnew
  · obtain ⟨pre, post, rfl, hpre⟩ := hm.run
    obtain ⟨p₀, scan₀, cat, hm₀, hok⟩ := commit_ran (hb.idle t) hpre hm.thread
    have hscript := hm₀.append (p :: post)
    by_cases hl : ledger p₀.1.world.redis (c.args S.uuid) = none
    · have hruns := hok.resolve_left (not_not.mpr hl)
      obtain ⟨q, ha, hh, he, hu, hseats⟩ := hold_of_commit hb hrun h₀ hscript hruns
      exact ⟨q, ha, hh, congrArg S.uuid.value he, t, c, ss, up, ca, cat, p₀, scan₀, rfl, hscript,
        fun _ => ⟨hu, hseats⟩⟩
    · obtain ⟨q, ha, hh, he⟩ := hold_of_ledger hb hrun h₀ hscript hl
      exact ⟨q, ha, hh, congrArg S.uuid.value he, t, c, ss, up, ca, cat, p₀, scan₀, rfl, hscript,
        fun hnone => absurd hnone hl⟩

end Orders

section Demo

theorem seat_demoRedis (e s : String) : demoRedis.seat (seatKey e s) =
    if seatKey e s = seatKey demoEvent demoSeat ∨ seatKey e s = seatKey demoEvent demoSeat' then .available
    else .gone := by
  have hne : seatKey e s ≠ inventoryKey demoEvent demoVip := seatKey_ne_inventoryKey _ _ _ _
  by_cases hk : seatKey e s = seatKey demoEvent demoSeat ∨ seatKey e s = seatKey demoEvent demoSeat'
  · simp [Redis.seat, demoRedis, Hashes.hget, ExpMap.get, hne, hk, Hash.setText, Hash.empty, Seat.available]
  · simp [Redis.seat, demoRedis, Hashes.hget, ExpMap.get, hne, hk, Seat.gone]

theorem demo_unsold : demoRedis.Unsold where
  keyed e s hseat := by
    rw [seat_demoRedis] at hseat
    split at hseat
    · next hk =>
      rcases hk with hk | hk
      · exact ⟨demoEvent, demoSeat, by decide +kernel, by decide +kernel, hk⟩
      · exact ⟨demoEvent, demoSeat', by decide +kernel, by decide +kernel, hk⟩
    · exact absurd rfl hseat
  free e s := by
    rw [seat_demoRedis]
    split
    · rfl
    · rfl
  ledger _ _ := rfl

theorem order_of_hold_sold : ∃ tr s, Run demoService.Step demoSys tr s ∧ ∃ o ∈ s.world.db.orders,
    ∃ q : HoldRequest DemoId, q.Accepted demoService demoSys tr ∧ q.holdId DemoId.lib = o.holdId ∧
      q.eventUuid DemoId.lib = o.eventId := by
  have hplay : ((demoService.play demoSys demoSold).any fun x =>
      decide (∃ o ∈ x.2.world.db.orders, o.id = DemoId.order)) = true := by
    decide +kernel
  obtain ⟨tr, s, hrun, hp⟩ := Service.run_of_play hplay
  obtain ⟨o, ho, _⟩ := of_decide_eq_true hp
  obtain ⟨q, ha, hh, he, _⟩ :=
    order_of_hold (Booted.of_empty (fun _ => rfl) rfl rfl) demo_unsold hrun ho List.not_mem_nil
  exact ⟨tr, s, hrun, o, ho, q, ha, hh, he⟩

end Demo

end CrowdTic
