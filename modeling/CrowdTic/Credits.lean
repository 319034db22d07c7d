import CrowdTic.Recovery

/-! The release of one reservation by `DELETE` requests and sweeps. Each of
them reads the row, then runs the release script, then deletes the row, and
nothing keeps two of them from doing so at once. -/

namespace CrowdTic

section Threads

variable {U : Type}

def Thread.releasing : Thread U → Option (Reservation U)
  | .release _ (.script res) => some res
  | .sweep (.script res _) => some res
  | _ => none

def Thread.deleting : Thread U → Option (Reservation U)
  | .release _ (.delete res) => some res
  | .sweep (.delete res _) => some res
  | _ => none

/-- The hold ids of the reservations that the thread has read and has still to release. -/
def Thread.unreleased : Thread U → List String
  | .release _ (.script res) => [res.holdId]
  | .sweep (.script res rest) => res.holdId :: rest.map Reservation.holdId
  | .sweep (.delete _ rest) => rest.map Reservation.holdId
  | _ => []

/-- The thread has read the row of the hold and is not through with it. -/
def Thread.Handles (h : String) (th : Thread U) : Prop :=
  h ∈ th.unreleased ∨ ∃ res ∈ th.deleting, res.holdId = h

instance (h : String) : DecidablePred (Thread.Handles (U := U) h) := fun _ =>
  inferInstanceAs (Decidable (_ ∨ _))

/-- The script call is carried out just when the thread goes on to delete the row. A `DELETE`
stops at every error of the call, a sweep at none. -/
def Thread.Heeds (f : Fault) : Thread U → Prop
  | .release _ _ => f.takes = true → f = .none
  | _ => f.takes = true

instance (f : Fault) : DecidablePred (Thread.Heeds (U := U) f)
  | .release _ _ => inferInstanceAs (Decidable (f.takes = true → f = .none))
  | .hold _ _ | .commit _ _ | .sweep _ => inferInstanceAs (Decidable (f.takes = true))

theorem SweepPc.next_unreleased (batch : List (Reservation U)) :
    (Thread.sweep (SweepPc.next batch)).unreleased = batch.map Reservation.holdId ∧
      (Thread.sweep (SweepPc.next batch)).deleting = none := by
  cases batch <;> exact ⟨rfl, rfl⟩

section Step

variable [DecidableEq U] (S : Service U) (w : World U) (f : Fault) (scan : Scan U)

def Thread.reads : Thread U → List String
  | .release q .get =>
    match f.answer (w.db.getReservation q.holdId) with
    | some (some res) => if q.NotOwner S.uuid res then [] else [res.holdId]
    | _ => []
  | .sweep .fetch =>
    ((f.answer (w.db.expiredReservations scan.reservations SweepPc.batchSize)).getD []).map
      Reservation.holdId
  | _ => []

/-- Everything a call can do to the reservations that a thread has in hand. -/
inductive Thread.Settles : Thread U → Thread U → Prop
  | idle {th th' : Thread U} (hun : th.unreleased = []) (hdel : th.deleting = none)
      (hrel : th.releasing = none) (hdel' : th'.deleting = none)
      (hun' : th'.unreleased = th.reads S w f scan) : Settles th th'
  | released {th th' : Thread U} {res : Reservation U} (hrel : th.releasing = some res)
      (hdel : th.deleting = none) (hdel' : th'.deleting = some res)
      (hun : th.unreleased = res.holdId :: th'.unreleased)
      (hgo : th.Heeds f → f.takes = true) : Settles th th'
  | failed {th th' : Thread U} {res : Reservation U} (hrel : th.releasing = some res)
      (hdel : th.deleting = none) (hdel' : th'.deleting = none)
      (hun : th.unreleased = [res.holdId]) (hun' : th'.unreleased = [])
      (hstop : th.Heeds f → f.takes = false) : Settles th th'
  | deleted {th th' : Thread U} {res : Reservation U} (hrel : th.releasing = none)
      (hdel : th.deleting = some res) (hdel' : th'.deleting = none)
      (hun : th'.unreleased = th.unreleased) : Settles th th'

variable {S w}

theorem Thread.settles_resume (th : Thread U) :
    th.Settles S w f scan (th.resume S w f scan) := by
  cases th with
  | hold q pc => exact .idle rfl rfl rfl rfl rfl
  | commit q pc => exact .idle rfl rfl rfl rfl rfl
  | release q pc =>
    cases pc with
    | get =>
      rcases hr : f.answer (w.db.getReservation q.holdId) with _ | _ | res
      · exact .idle rfl rfl rfl (by simp [Thread.resume, ReleaseRequest.resume, hr, Thread.deleting])
          (by simp [Thread.resume, ReleaseRequest.resume, Thread.reads, hr, Thread.unreleased])
      · exact .idle rfl rfl rfl (by simp [Thread.resume, ReleaseRequest.resume, hr, Thread.deleting])
          (by simp [Thread.resume, ReleaseRequest.resume, Thread.reads, hr, Thread.unreleased])
      · by_cases ho : q.NotOwner S.uuid res <;>
          exact .idle rfl rfl rfl
            (by simp [Thread.resume, ReleaseRequest.resume, hr, ho, Thread.deleting])
            (by simp [Thread.resume, ReleaseRequest.resume, Thread.reads, hr, ho, Thread.unreleased])
    | script res =>
      cases f with
      | none => exact .released rfl rfl rfl rfl fun _ => rfl
      | before msg => exact .failed rfl rfl rfl rfl rfl fun _ => rfl
      | after msg => exact .failed rfl rfl rfl rfl rfl fun h => nomatch h rfl
    | delete res => exact .deleted rfl rfl rfl rfl
    | done res => exact .idle rfl rfl rfl rfl rfl
  | sweep pc =>
    cases pc with
    | fetch =>
      cases f with
      | none =>
        have hn := SweepPc.next_unreleased (w.db.expiredReservations scan.reservations SweepPc.batchSize)
        exact .idle rfl rfl rfl hn.2 hn.1
      | before msg => exact .idle rfl rfl rfl rfl rfl
      | after msg => exact .idle rfl rfl rfl rfl rfl
    | script res rest => exact .released rfl rfl rfl rfl id
    | delete res rest =>
      have hn := SweepPc.next_unreleased rest
      exact .deleted rfl rfl hn.2 hn.1
    | done b => exact .idle rfl rfl rfl rfl rfl

theorem Thread.of_mem_reads {h : String} {th : Thread U} (hscan : scan.Of w.db)
    (hh : h ∈ th.reads S w f scan) : ∃ res ∈ w.db.reservations.rows, res.holdId = h := by
  unfold Thread.reads at hh
  split at hh
  · next q =>
    split at hh
    · next res hr =>
      obtain ⟨_, hfind⟩ := Fault.answer_eq_some_iff.mp hr
      split at hh
      · cases hh
      · obtain rfl := List.mem_singleton.mp hh
        exact ⟨res, ((Reservations.find_eq_some_iff _).mp hfind).1, rfl⟩
    · cases hh
  · obtain ⟨res, hres, rfl⟩ := List.mem_map.mp hh
    cases f with
    | none =>
      exact ⟨res, hscan.reservations.mem_iff.mp ((w.db.expiredReservations_sublist _ _).mem hres), rfl⟩
    | before msg | after msg => cases hres
  · cases hh

theorem Thread.reads_nodup (hscan : scan.Of w.db) (th : Thread U) : (th.reads S w f scan).Nodup := by
  unfold Thread.reads
  split
  · split
    · split
      · exact List.nodup_nil
      · exact List.nodup_singleton _
    · exact List.nodup_nil
  · cases f with
    | none =>
      have hsub := w.db.expiredReservations_sublist scan.reservations SweepPc.batchSize
      exact (hsub.map Reservation.holdId).nodup
        ((hscan.reservations.map _).nodup_iff.mpr w.db.reservations.unique)
    | before msg | after msg => exact List.nodup_nil
  · exact List.nodup_nil

end Step

end Threads

section Rows

variable {U : Type} [DecidableEq U] {S : Service U} {h : String} {s₀ s s' : Sys U} {m : Move U}

/-- No request is going to insert a row for the hold. -/
def Sys.Closed (L : UuidLib U) (h : String) (s : Sys U) : Prop :=
  ∃ u ∈ s.drawn, h = L.str u ∧
    ∀ t q pc, s.threads t = some (.hold q pc) → q.draw = u → ∃ r, pc = .done r

omit [DecidableEq U] in
theorem Origins.closed_of_row (hb : Booted S s₀) (ho : Origins S s₀ s) {res : Reservation U}
    (hres : res ∈ s.world.db.reservations.rows) : s.Closed S.uuid res.holdId := by
  rcases ho.reservations res hres with h0 | ⟨t, q, r, hth, rfl⟩
  · obtain ⟨u, hu, hid⟩ := hb.holds res h0
    refine ⟨u, ho.kept u hu, hid, fun t q pc hth hq => ?_⟩
    exact absurd hu (hq ▸ (ho.drawn t _ hth q.draw (List.mem_singleton.mpr rfl)).2)
  · refine ⟨q.draw, (ho.drawn t _ hth q.draw (List.mem_singleton.mpr rfl)).1, rfl,
      fun t' q' pc hth' hq => ?_⟩
    obtain rfl := ho.apart t t' _ _ hth hth' q.draw (List.mem_singleton.mpr rfl)
      (List.mem_singleton.mpr hq.symm)
    exact ⟨r, (Thread.hold.inj (Option.some.inj (hth'.symm.trans hth))).2⟩

theorem Service.Step.closed (hs : S.Step s m s') (hc : s.Closed S.uuid h) : s'.Closed S.uuid h := by
  obtain ⟨u, hu, hid, hdone⟩ := hc
  refine ⟨u, hs.drawn_mono hu, hid, fun t q pc hth hq => ?_⟩
  cases hs.thread hth with
  | stay hold => exact hdone t q pc hold hq
  | @start req _ hfresh he =>
    cases req <;> cases he
    exact absurd (hq ▸ hu) (hfresh _ (List.mem_singleton.mpr rfl))
  | @turn th₀ f scan hold hrun _ he =>
    cases th₀ <;> cases he
    obtain ⟨r, rfl⟩ := hdone t _ _ hold hq
    cases hrun

theorem Service.Step.row_absent (hs : S.Step s m s') (hc : s.Closed S.uuid h)
    (hn : s.world.db.reservations.find h = none) : s'.world.db.reservations.find h = none := by
  rw [Reservations.find_eq_none_iff] at hn ⊢
  intro res hres hid
  cases hs with
  | @exec t th f scan hth hrun _ =>
    rcases (Service.exec_db S s t th f scan).reservations hres with hold | ⟨q, rfl, rfl⟩
    · exact hn res hold hid
    · obtain ⟨u, _, rfl, hdone⟩ := hc
      obtain ⟨r, hr⟩ := hdone t q _ hth (S.uuid.str_inj.mp hid)
      cases hr
  | _ => exact hn res hres hid

theorem DbMove.deleting {w : World U} {db' : Db U} {th : Thread U} (hm : DbMove S w db' th)
    (hsome : w.db.reservations.find h ≠ none) (hnone : db'.reservations.find h = none) :
    ∃ res, th.deleting = some res ∧ res.holdId = h := by
  obtain ⟨res, hfind⟩ := Option.ne_none_iff_exists'.mp hsome
  obtain ⟨hres, rfl⟩ := (Reservations.find_eq_some_iff _).mp hfind
  rw [Reservations.find_eq_none_iff] at hnone
  cases hm with
  | keep hdb => exact absurd rfl (hnone res (hdb ▸ hres))
  | @mirror q hdb =>
    refine absurd rfl (hnone res ?_)
    rw [Db.insertReservation_eq hdb]
    by_cases hf : w.db.reservations.find (q.holdId S.uuid) = none
    · exact (Reservations.mem_insert _ hf).mpr (.inl hres)
    · rwa [Reservations.insert_of_find_ne_none _ hf]
  | order hdb => exact absurd rfl (hnone res ((Db.orderInserted_insertOrder hdb).reservations ▸ hres))
  | @cancel _ res' hdb | @reap res' _ hdb =>
    refine ⟨res', rfl, ?_⟩
    by_contra hne
    rw [Db.deleteReservation_eq hdb] at hnone
    exact hnone res ((Reservations.mem_delete _).mpr ⟨hres, Ne.symm hne⟩) rfl

theorem Service.Step.deleting (hs : S.Step s m s') (hsome : s.world.db.reservations.find h ≠ none)
    (hnone : s'.world.db.reservations.find h = none) :
    ∃ t th res, s.threads t = some th ∧ th.deleting = some res ∧ res.holdId = h := by
  cases hs with
  | @exec t th f scan hth _ _ =>
    obtain ⟨res, hdel, hid⟩ := (Service.exec_db S s t th f scan).deleting hsome hnone
    exact ⟨t, th, res, hth, hdel, hid⟩
  | _ => exact absurd hnone hsome

theorem Thread.deleted {w : World U} {th : Thread U} {res : Reservation U} (hd : th.deleting = some res)
    (hdb : (w.db.deleteReservation res.holdId).isSome) :
    (th.effect S w).db.reservations.find res.holdId = none := by
  obtain ⟨db', hdb⟩ := Option.isSome_iff_exists.mp hdb
  have hrow : db'.reservations.find res.holdId = none := by
    rw [Db.deleteReservation_eq hdb, Reservations.find_eq_none_iff]
    exact fun x hx => ((Reservations.mem_delete _).mp hx).2
  cases th with
  | hold | commit => cases hd
  | release q pc =>
    cases pc <;> cases hd
    simpa [Thread.effect, ReleaseRequest.effect, hdb] using hrow
  | sweep pc =>
    cases pc <;> cases hd
    simpa [Thread.effect, SweepPc.effect, hdb] using hrow

end Rows

section Condition

variable {U : Type}

/-- The reservation that a move credits back: its release script is carried out. -/
def Sys.credit (s : Sys U) : Move U → Option (Reservation U)
  | .exec t f _ => if f.takes then (s.threads t).bind Thread.releasing else none
  | _ => none

def Sys.credits (h : String) (s : Sys U) (m : Move U) : Bool := (s.credit m).any fun res => res.holdId = h

/-- The seats of the reservation are added to `available` and taken from `held` and from the limit. -/
structure Reservation.Credited (L : UuidLib U) (res : Reservation U) (r r' : Redis) : Prop where
  stock : r'.stock (res.invKey L) =
    ⟨some ((r.stock (res.invKey L)).available.getD 0 + res.seatIds.length),
      some ((r.stock (res.invKey L)).held.getD 0 - res.seatIds.length), (r.stock (res.invKey L)).sold⟩
  limit : r'.counters.get (limitKey (L.str res.eventId) (L.str res.userId)) =
    some ((r.counters.get (limitKey (L.str res.eventId) (L.str res.userId))).getD 0 - res.seatIds.length)

theorem Reservation.credited_release (L : UuidLib U) (res : Reservation U) (r : Redis) :
    res.Credited L r (res.release L r) where
  stock := by
    have hs := stock_releaseWrites r (res.invKey L) (res.seatKeys L) (res.releaseArgs L)
      (j := res.invKey L) (inventoryKey_ne_holdKey _ _ _ _)
    simpa [Reservation.release, releaseSrc, Reservation.seatKeys] using hs
  limit := by
    rw [Reservation.release, releaseSrc, counters_releaseWrites]
    simp [Reservation.releaseArgs, Reservation.seatKeys]

variable [DecidableEq U]

theorem Service.Step.credited {S : Service U} {s s' : Sys U} {m : Move U} {res : Reservation U}
    (hs : S.Step s m s') (hc : s.credit m = some res) :
    res.Credited S.uuid s.world.redis s'.world.redis := by
  cases hs with
  | @exec t th f scan hth _ _ =>
    by_cases hf : f.takes = true
    · have hrel : th.releasing = some res := by simpa [Sys.credit, hf, hth] using hc
      have hredis : (s.executed S t th f scan).world.redis = res.release S.uuid s.world.redis := by
        rw [Sys.executed, if_pos hf, th.effect_redis]
        cases th with
        | hold | commit => cases hrel
        | release q pc => cases pc <;> cases hrel; rfl
        | sweep pc => cases pc <;> cases hrel; rfl
      exact hredis ▸ res.credited_release S.uuid s.world.redis
    · simp [Sys.credit, hf] at hc
  | _ => cases hc

/-- The row of the hold is read only while it is free, its release script is carried out just
when the row is to be deleted next, and the row is then deleted. -/
def Thread.InOrder (S : Service U) (h : String) (free : Prop) (w : World U) (f : Fault)
    (scan : Scan U) (th : Thread U) : Prop :=
  (h ∈ th.reads S w f scan → free) ∧
  (∀ res ∈ th.releasing, res.holdId = h → th.Heeds f) ∧
  ∀ res ∈ th.deleting, res.holdId = h → f.takes = true ∧ (w.db.deleteReservation res.holdId).isSome

instance (S : Service U) (h : String) (free : Prop) [Decidable free] (w : World U) (f : Fault)
    (scan : Scan U) : DecidablePred (Thread.InOrder S h free w f scan) := fun _ =>
  inferInstanceAs (Decidable (_ ∧ _ ∧ _))

def Service.ReleasesInOrder (S : Service U) (h : String) (free : Prop) (s : Sys U) : Move U → Prop
  | .exec t f scan => ∀ th ∈ s.threads t, th.InOrder S h free s.world f scan
  | _ => True

instance (S : Service U) (h : String) (free : Prop) [Decidable free] (s : Sys U) :
    DecidablePred (S.ReleasesInOrder h free s)
  | .exec t f scan => inferInstanceAs (Decidable (∀ th ∈ s.threads t, th.InOrder S h free s.world f scan))
  | .spawn _ _ | .advanceRedis _ | .advancePostgres _ => inferInstanceAs (Decidable True)

theorem Service.ReleasesInOrder.imp {S : Service U} {h : String} {free free' : Prop} {s : Sys U}
    {m : Move U} (hm : S.ReleasesInOrder h free s m) (hi : free → free') :
    S.ReleasesInOrder h free' s m := by
  cases m with
  | exec t f scan =>
    intro th hth
    obtain ⟨hread, hrest⟩ := hm th hth
    exact ⟨fun hh => hi (hread hh), hrest⟩
  | _ => trivial

end Condition

section Invariant

variable {U : Type} [DecidableEq U] {S : Service U} {h : String} {s₀ s s' : Sys U} {m : Move U}
  {n : Nat}

/-- The hold has been credited `n` times, and at most one thread handles it. -/
structure Settling (S : Service U) (h : String) (s : Sys U) (n : Nat) : Prop where
  le_one : n ≤ 1
  apart : ∀ t t' th th', s.threads t = some th → s.threads t' = some th' → th.Handles h →
    th'.Handles h → t = t'
  nodup : ∀ t th, s.threads t = some th → th.unreleased.Nodup
  unreleased : ∀ t th, s.threads t = some th → h ∈ th.unreleased → n = 0
  deleting : ∀ t th, s.threads t = some th → ∀ res ∈ th.deleting, res.holdId = h → n = 1
  settled : n = 1 → (s.Every fun th => ¬ th.Handles h) → s.world.db.reservations.find h = none
  closed : n = 1 ∨ (∃ t th, s.threads t = some th ∧ th.Handles h) → s.Closed S.uuid h

omit [DecidableEq U] in
theorem not_handles {th : Thread U} (hun : th.unreleased = []) (hdel : th.deleting = none) :
    ¬ th.Handles h := by
  simp [Thread.Handles, hun, hdel]

omit [DecidableEq U] in
theorem Settling.of_same (hi : Settling S h s n)
    (hnew : ∀ t th, s'.threads t = some th → s.threads t = some th ∨
      th.unreleased = [] ∧ th.deleting = none)
    (hold : ∀ t th, s.threads t = some th → s'.threads t = some th)
    (hrows : s'.world.db.reservations = s.world.db.reservations)
    (hclosed : s.Closed S.uuid h → s'.Closed S.uuid h) : Settling S h s' n where
  le_one := hi.le_one
  apart t t' th th' hth hth' hh hh' := by
    rcases hnew t th hth with h₀ | ⟨hun, hdel⟩
    · rcases hnew t' th' hth' with h₁ | ⟨hun, hdel⟩
      · exact hi.apart t t' th th' h₀ h₁ hh hh'
      · exact absurd hh' (not_handles hun hdel)
    · exact absurd hh (not_handles hun hdel)
  nodup t th hth := by
    rcases hnew t th hth with h₀ | ⟨hun, _⟩
    · exact hi.nodup t th h₀
    · exact hun ▸ List.nodup_nil
  unreleased t th hth hh := by
    rcases hnew t th hth with h₀ | ⟨hun, _⟩
    · exact hi.unreleased t th h₀ hh
    · rw [hun] at hh
      cases hh
  deleting t th hth res hres hid := by
    rcases hnew t th hth with h₀ | ⟨_, hdel⟩
    · exact hi.deleting t th h₀ res hres hid
    · rw [hdel] at hres
      cases hres
  settled hn hfree := by
    rw [hrows]
    exact hi.settled hn fun t th hth => hfree t th (hold t th hth)
  closed hn := by
    refine hclosed (hi.closed (hn.imp_right ?_))
    rintro ⟨t, th, hth, hh⟩
    rcases hnew t th hth with h₀ | ⟨hun, hdel⟩
    · exact ⟨t, th, h₀, hh⟩
    · exact absurd hh (not_handles hun hdel)

section Exec

variable {t : Nat} {th th' : Thread U} {f : Fault} {scan : Scan U}

omit [DecidableEq U] in
theorem Thread.releasing_mem {res : Reservation U} (hr : th.releasing = some res) :
    res.holdId ∈ th.unreleased := by
  cases th with
  | hold | commit => cases hr
  | release q pc => cases pc <;> cases hr; exact List.mem_singleton.mpr rfl
  | sweep pc => cases pc <;> cases hr; exact List.mem_cons_self

theorem Thread.Settles.handles {w : World U} (hset : th.Settles S w f scan th') (hh : th'.Handles h) :
    th.Handles h ∨ h ∈ th.reads S w f scan := by
  cases hset with
  | idle _ _ _ hdel' hun' => exact .inr (by simpa [Thread.Handles, hdel', hun'] using hh)
  | @released res hrel hdel hdel' hun _ =>
    rcases hh with hh | ⟨x, hx, hid⟩
    · exact .inl (.inl (hun ▸ List.mem_cons_of_mem _ hh))
    · rw [hdel'] at hx
      obtain rfl := Option.some.inj hx
      exact .inl (.inl (hid ▸ Thread.releasing_mem hrel))
  | failed _ _ hdel' _ hun' _ => exact absurd hh (not_handles hun' hdel')
  | deleted _ _ hdel' hun =>
    rcases hh with hh | ⟨x, hx, _⟩
    · exact .inl (.inl (hun ▸ hh))
    · rw [hdel'] at hx
      cases hx

omit [DecidableEq U] in
theorem credits_exec_iff (hth : s.threads t = some th) : s.credits h (.exec t f scan) = true ↔
    f.takes = true ∧ ∃ res, th.releasing = some res ∧ res.holdId = h := by
  by_cases hf : f.takes = true <;> simp [Sys.credits, Sys.credit, hf, hth, Option.any_eq_true]

omit [DecidableEq U] in
theorem Settling.of_credits (hi : Settling S h s n) (hth : s.threads t = some th)
    (hc : s.credits h (.exec t f scan) = true) : n = 0 ∧ th.Handles h := by
  obtain ⟨_, res, hrel, rfl⟩ := (credits_exec_iff hth).mp hc
  have hmem := Thread.releasing_mem hrel
  exact ⟨hi.unreleased t th hth hmem, .inl hmem⟩

theorem Settling.of_reads (hb : Booted S s₀) (ho : Origins S s₀ s) (hi : Settling S h s n)
    (hscan : scan.Of s.world.db) (hfree : s.Every fun th => ¬ th.Handles h)
    (hread : h ∈ th.reads S s.world f scan) : n = 0 ∧ s.Closed S.uuid h := by
  obtain ⟨res, hres, rfl⟩ := Thread.of_mem_reads f scan hscan hread
  refine ⟨?_, ho.closed_of_row hb hres⟩
  by_contra hn
  have hone : n = 1 := by have := hi.le_one; omega
  exact (Reservations.find_eq_none_iff _).mp (hi.settled hone hfree) res hres rfl

theorem executed_cases {i : Nat} {x : Thread U}
    (hx : (s.executed S t th f scan).threads i = some x) :
    i ≠ t ∧ s.threads i = some x ∨ i = t ∧ x = th.resume S s.world f scan := by
  by_cases hi : i = t
  · rw [Sys.threads_executed, if_pos hi] at hx
    exact .inr ⟨hi, (Option.some.inj hx).symm⟩
  · rw [Sys.threads_executed, if_neg hi] at hx
    exact .inl ⟨hi, hx⟩

theorem apart_exec (hi : Settling S h s n) (hth : s.threads t = some th)
    (hord : th.InOrder S h (s.Every fun th => ¬ th.Handles h) s.world f scan) (i j : Nat) (x y : Thread U)
    (hx : (s.executed S t th f scan).threads i = some x)
    (hy : (s.executed S t th f scan).threads j = some y) (hhx : x.Handles h) (hhy : y.Handles h) :
    i = j := by
  have hset := th.settles_resume (S := S) (w := s.world) f scan
  rcases executed_cases hx with ⟨_, hx₀⟩ | ⟨rfl, rfl⟩
  · rcases executed_cases hy with ⟨_, hy₀⟩ | ⟨rfl, rfl⟩
    · exact hi.apart i j x y hx₀ hy₀ hhx hhy
    · rcases hset.handles hhy with hhy | hread
      · exact hi.apart i j x th hx₀ hth hhx hhy
      · exact absurd hhx (hord.1 hread i x hx₀)
  · rcases executed_cases hy with ⟨_, hy₀⟩ | ⟨rfl, rfl⟩
    · rcases hset.handles hhx with hhx | hread
      · exact hi.apart i j th y hth hy₀ hhx hhy
      · exact absurd hhy (hord.1 hread j y hy₀)
    · rfl

theorem nodup_exec (hi : Settling S h s n) (hth : s.threads t = some th)
    (hscan : scan.Of s.world.db) (i : Nat) (x : Thread U) (hx : (s.executed S t th f scan).threads i = some x) :
    x.unreleased.Nodup := by
  rcases executed_cases hx with ⟨_, hx₀⟩ | ⟨rfl, rfl⟩
  · exact hi.nodup i x hx₀
  · have hnd := hi.nodup i th hth
    cases th.settles_resume (S := S) (w := s.world) f scan with
    | idle _ _ _ _ hun' => exact hun' ▸ th.reads_nodup f scan hscan
    | released _ _ _ hun _ => exact (List.nodup_cons.mp (hun ▸ hnd)).2
    | failed _ _ _ _ hun' _ => exact hun' ▸ List.nodup_nil
    | deleted _ _ _ hun => exact hun ▸ hnd

theorem unreleased_exec (hb : Booted S s₀) (ho : Origins S s₀ s) (hi : Settling S h s n)
    (hth : s.threads t = some th) (hscan : scan.Of s.world.db)
    (hord : th.InOrder S h (s.Every fun th => ¬ th.Handles h) s.world f scan) (i : Nat) (x : Thread U)
    (hx : (s.executed S t th f scan).threads i = some x) (hh : h ∈ x.unreleased) :
    n = 0 ∧ s.credits h (.exec t f scan) = false := by
  rcases executed_cases hx with ⟨hit, hx₀⟩ | ⟨rfl, rfl⟩
  · refine ⟨hi.unreleased i x hx₀ hh, Bool.eq_false_iff.mpr fun hc => hit ?_⟩
    exact hi.apart i t x th hx₀ hth (.inl hh) (hi.of_credits hth hc).2
  · have hnone (hrel : th.releasing = none) : s.credits h (.exec i f scan) = false :=
      Bool.eq_false_iff.mpr fun hc => by
        obtain ⟨_, res, hres, _⟩ := (credits_exec_iff hth).mp hc
        cases hrel.symm.trans hres
    cases th.settles_resume (S := S) (w := s.world) f scan with
    | idle _ _ hrel _ hun' =>
      have hread := hun' ▸ hh
      exact ⟨(hi.of_reads hb ho hscan (hord.1 hread) hread).1, hnone hrel⟩
    | @released res hrel _ _ hun _ =>
      have hnd := hi.nodup i th hth
      rw [hun, List.nodup_cons] at hnd
      refine ⟨hi.unreleased i th hth (hun ▸ List.mem_cons_of_mem _ hh), Bool.eq_false_iff.mpr fun hc => ?_⟩
      obtain ⟨_, y, hy, rfl⟩ := (credits_exec_iff hth).mp hc
      obtain rfl := Option.some.inj (hrel.symm.trans hy)
      exact hnd.1 hh
    | failed _ _ _ _ hun' _ =>
      rw [hun'] at hh
      cases hh
    | deleted hrel _ _ hun => exact ⟨hi.unreleased i th hth (hun ▸ hh), hnone hrel⟩

theorem deleting_exec (hi : Settling S h s n) (hth : s.threads t = some th)
    (hord : th.InOrder S h (s.Every fun th => ¬ th.Handles h) s.world f scan) (i : Nat) (x : Thread U)
    (hx : (s.executed S t th f scan).threads i = some x) (res : Reservation U)
    (hres : res ∈ x.deleting) (hid : res.holdId = h) :
    n + (s.credits h (.exec t f scan)).toNat = 1 := by
  rcases executed_cases hx with ⟨hit, hx₀⟩ | ⟨rfl, rfl⟩
  · have hone := hi.deleting i x hx₀ res hres hid
    have hc : s.credits h (.exec t f scan) = false := Bool.eq_false_iff.mpr fun hc =>
      hit (hi.apart i t x th hx₀ hth (.inr ⟨res, hres, hid⟩) (hi.of_credits hth hc).2)
    rw [hone, hc]
    rfl
  · cases th.settles_resume (S := S) (w := s.world) f scan with
    | idle _ _ _ hdel' _ =>
      rw [hdel'] at hres
      cases hres
    | @released y hrel _ hdel' _ hgo =>
      rw [hdel'] at hres
      obtain rfl := Option.some.inj hres
      have hc : s.credits h (.exec i f scan) = true :=
        (credits_exec_iff hth).mpr ⟨hgo (hord.2.1 y hrel hid), y, hrel, hid⟩
      rw [(hi.of_credits hth hc).1, hc]
      rfl
    | failed _ _ hdel' _ _ _ =>
      rw [hdel'] at hres
      cases hres
    | deleted _ _ hdel' _ =>
      rw [hdel'] at hres
      cases hres

theorem settled_exec (hi : Settling S h s n) (hth : s.threads t = some th)
    (hrun : th.finished = false) (hscan : scan.Of s.world.db)
    (hord : th.InOrder S h (s.Every fun th => ¬ th.Handles h) s.world f scan)
    (hn : n + (s.credits h (.exec t f scan)).toNat = 1)
    (hfree : (s.executed S t th f scan).Every fun th => ¬ th.Handles h) :
    (s.executed S t th f scan).world.db.reservations.find h = none := by
  have hself : ¬ (th.resume S s.world f scan).Handles h :=
    hfree t _ (by rw [Sys.threads_executed, if_pos rfl]; rfl)
  by_cases hc : s.credits h (.exec t f scan) = true
  · obtain ⟨htakes, res, hrel, hid⟩ := (credits_exec_iff hth).mp hc
    cases th.settles_resume (S := S) (w := s.world) f scan with
    | idle _ _ hrel' _ _ => cases hrel'.symm.trans hrel
    | released hrel' _ hdel' _ _ =>
      obtain rfl := Option.some.inj (hrel'.symm.trans hrel)
      exact absurd (.inr ⟨_, hdel', hid⟩) hself
    | failed _ _ _ _ _ hstop =>
      rw [hstop (hord.2.1 res hrel hid)] at htakes
      cases htakes
    | deleted hrel' _ _ _ => cases hrel'.symm.trans hrel
  · have hone : n = 1 := by simpa [hc] using hn
    by_cases hh : th.Handles h
    · rcases hh with hh | ⟨res, hdel, rfl⟩
      · exact absurd (hi.unreleased t th hth hh) (by omega)
      · obtain ⟨htakes, hdb⟩ := hord.2.2 res hdel rfl
        simpa [Sys.executed, htakes] using Thread.deleted (S := S) hdel hdb
    · refine (Service.Step.exec hth hrun hscan).row_absent (hi.closed (.inl hone))
        (hi.settled hone fun i x hx => ?_)
      by_cases hit : i = t
      · subst hit
        exact Option.some.inj (hth.symm.trans hx) ▸ hh
      · exact hfree i x (by rw [Sys.threads_executed, if_neg hit]; exact hx)

theorem settling_exec (hb : Booted S s₀) (ho : Origins S s₀ s) (hi : Settling S h s n)
    (hth : s.threads t = some th) (hrun : th.finished = false) (hscan : scan.Of s.world.db)
    (hord : th.InOrder S h (s.Every fun th => ¬ th.Handles h) s.world f scan) :
    Settling S h (s.executed S t th f scan) (n + (s.credits h (.exec t f scan)).toNat) where
  le_one := by
    by_cases hc : s.credits h (.exec t f scan) = true
    · simp [(hi.of_credits hth hc).1, hc]
    · simpa [hc] using hi.le_one
  apart := apart_exec hi hth hord
  nodup := nodup_exec hi hth hscan
  unreleased i x hx hh := by
    obtain ⟨h0, hc⟩ := unreleased_exec hb ho hi hth hscan hord i x hx hh
    rw [h0, hc]
    rfl
  deleting := deleting_exec hi hth hord
  settled := settled_exec hi hth hrun hscan hord
  closed hn := by
    refine (Service.Step.exec hth hrun hscan).closed ?_
    rcases hn with hn | ⟨i, x, hx, hh⟩
    · by_cases hc : s.credits h (.exec t f scan) = true
      · exact hi.closed (.inr ⟨t, th, hth, (hi.of_credits hth hc).2⟩)
      · exact hi.closed (.inl (by simpa [hc] using hn))
    · rcases executed_cases hx with ⟨_, hx₀⟩ | ⟨rfl, rfl⟩
      · exact hi.closed (.inr ⟨i, x, hx₀, hh⟩)
      · rcases (th.settles_resume f scan).handles hh with hh | hread
        · exact hi.closed (.inr ⟨i, th, hth, hh⟩)
        · exact (hi.of_reads hb ho hscan (hord.1 hread) hread).2

end Exec

theorem settling_step (hb : Booted S s₀) (ho : Origins S s₀ s) (hi : Settling S h s n)
    (hs : S.Step s m s') (hord : S.ReleasesInOrder h (s.Every fun th => ¬ th.Handles h) s m) :
    Settling S h s' (n + (s.credits h m).toNat) := by
  cases hs with
  | @spawn t req hfree hfresh =>
    refine hi.of_same (fun i x hx => ?_) (fun i x hx => ?_) rfl (Service.Step.spawn hfree hfresh).closed
    · by_cases hit : i = t
      · rw [Sys.threads_spawned, if_pos hit] at hx
        obtain rfl := Option.some.inj hx
        cases req with
        | release q =>
          refine .inr ?_
          by_cases hq : q.holdId = "" <;> simp [Request.thread, ReleaseRequest.start, hq, Thread.unreleased,
            Thread.deleting]
        | _ => exact .inr ⟨rfl, rfl⟩
      · exact .inl (by rwa [Sys.threads_spawned, if_neg hit] at hx)
    · have hit : i ≠ t := by
        rintro rfl
        cases hfree.symm.trans hx
      rw [Sys.threads_spawned, if_neg hit, hx]
  | exec hth hrun hscan => exact settling_exec hb ho hi hth hrun hscan (hord _ hth)
  | advanceRedis ms =>
    exact hi.of_same (fun _ _ => .inl) (fun _ _ => id) rfl (Service.Step.advanceRedis ms).closed
  | advancePostgres us =>
    exact hi.of_same (fun _ _ => .inl) (fun _ _ => id) rfl (Service.Step.advancePostgres us).closed

end Invariant

section Runs

variable {U : Type} [DecidableEq U] {S : Service U} {h : String} {s₀ s : Sys U}
  {tr : List (Sys U × Move U)}

theorem settling_run (hb : Booted S s₀) (hrun : Run S.Step s₀ tr s)
    (hord : ∀ p ∈ tr, S.ReleasesInOrder h (p.1.Every fun th => ¬ th.Handles h) p.1 p.2) :
    Settling S h s (tr.countP fun p => p.1.credits h p.2) := by
  induction hrun with
  | nil =>
    refine ⟨Nat.zero_le 1, ?_, ?_, ?_, ?_, nofun, ?_⟩ <;> simp [hb.idle]
  | @snoc tr u v m hrun hs ih =>
    obtain ⟨hpre, hlast⟩ := List.forall_mem_append.mp hord
    have hstep := settling_step hb (Service.origins_run hb hrun) (ih hpre) hs
      (hlast (u, m) (List.mem_singleton.mpr rfl))
    rw [List.countP_append, List.countP_singleton]
    cases hc : u.credits h m <;> simpa [hc] using hstep

/-- The hold is credited at most once, and its row is deleted only after that. -/
structure Service.CreditedOnce (S : Service U) (h : String) (tr : List (Sys U × Move U)) : Prop where
  once : (tr.countP fun p => p.1.credits h p.2) ≤ 1
  amount : ∀ p ∈ tr, ∀ res ∈ p.1.credit p.2, ∀ u, S.Step p.1 p.2 u →
    res.Credited S.uuid p.1.world.redis u.world.redis
  deleted : ∀ pre p post u, tr = pre ++ p :: post → S.Step p.1 p.2 u →
    p.1.world.db.reservations.find h ≠ none → u.world.db.reservations.find h = none →
    (pre.countP fun p => p.1.credits h p.2) = 1

/-- In a run whose releases of a hold are in order, the hold is credited once before its row goes. -/
theorem credited_once_of_orderly_run (hb : Booted S s₀) (hrun : Run S.Step s₀ tr s)
    (hord : ∀ p ∈ tr, S.ReleasesInOrder h (p.1.Every fun th => ¬ th.Handles h) p.1 p.2) :
    S.CreditedOnce h tr where
  once := (settling_run hb hrun hord).le_one
  amount _ _ _ hc _ hs := hs.credited hc
  deleted pre p post u he hs hsome hnone := by
    subst he
    obtain ⟨_, hpre, _, _⟩ := hrun.cut
    have hi := settling_run hb hpre fun x hx => hord x (List.mem_append_left _ hx)
    obtain ⟨t, th, res, hth, hdel, hid⟩ := hs.deleting hsome hnone
    exact hi.deleting t th hth res hdel hid

end Runs

section Demo

theorem demo_hold_credited_once : ∃ (s : Sys DemoId) (tr : List (Sys DemoId × Move DemoId)),
    Run demoService.Step demoSys tr s ∧ s.world.db.reservations.find (DemoId.lib.str .hold) = none ∧
    (tr.countP fun p => p.1.credits (DemoId.lib.str .hold) p.2) = 1 ∧
    demoService.CreditedOnce (DemoId.lib.str .hold) tr := by
  have hplay : ((demoService.play demoSys (served 0 (.hold demoHoldRequest) 4 ++
      served 1 (.release demoReleaseRequest) 3 ++ .advancePostgres 600001000 :: served 2 .sweep 1)).any
      fun x => decide (x.2.world.db.reservations.find (DemoId.lib.str .hold) = none ∧
        (x.1.countP fun p => p.1.credits (DemoId.lib.str .hold) p.2) = 1 ∧
        (∀ p ∈ x.1, p.2.SpawnsBelow 3) ∧ ∀ p ∈ x.1, demoService.ReleasesInOrder (DemoId.lib.str .hold)
          (∀ t < 3, ∀ th ∈ p.1.threads t, ¬ th.Handles (DemoId.lib.str .hold)) p.1 p.2)) = true := by
    decide +kernel
  obtain ⟨tr, s, hrun, hp⟩ := Service.run_of_play hplay
  obtain ⟨hgone, hcount, hspawn, hord⟩ := of_decide_eq_true hp
  have hidle := fun p hp => Service.idle_above_of_mem (p := p) hrun (fun _ => rfl) hspawn hp
  exact ⟨s, tr, hrun, hgone, hcount, credited_once_of_orderly_run demoSys_booted hrun
    fun p hp => (hord p hp).imp (Sys.every_of_below (hidle p hp))⟩

/-- Two `DELETE` requests of the owner that both read the row before either deletes it. -/
theorem hold_credited_twice : ¬ ∀ (s₀ s : Sys DemoId) (tr : List (Sys DemoId × Move DemoId)) (h : String),
    Booted demoService s₀ → Run demoService.Step s₀ tr s → demoService.CreditedOnce h tr := by
  intro h
  have hplay : ((demoService.play demoSys (served 0 (.hold demoHoldRequest) 4 ++
      served 1 (.release demoReleaseRequest) 1 ++ served 2 (.release demoReleaseRequest) 2 ++
      [.run 1 .none])).any fun x =>
        decide (1 < x.1.countP fun p => p.1.credits (DemoId.lib.str .hold) p.2)) = true := by
    decide +kernel
  obtain ⟨tr, s, hrun, hp⟩ := Service.run_of_play hplay
  exact absurd (h demoSys s tr _ demoSys_booted hrun).once (Nat.not_le.mpr (of_decide_eq_true hp))

end Demo

end CrowdTic
