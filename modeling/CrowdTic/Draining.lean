import CrowdTic.Decimal
import CrowdTic.Expiry

/-! How far the reaper gets. A row that an order refers to stays in the table
when its sweep is over and is fetched again, so that each such row takes one
place away from the batches to come. -/

namespace CrowdTic

section Rows

variable {U : Type}

def Db.Ordered (db : Db U) (h : String) : Prop := ∃ o ∈ db.orders, o.holdId = h

instance (db : Db U) : DecidablePred db.Ordered := fun h =>
  inferInstanceAs (Decidable (∃ o ∈ db.orders, o.holdId = h))

/-- The rows that cannot be deleted. -/
def Db.pinned (db : Db U) : List (Reservation U) :=
  db.reservations.rows.filter fun r => db.Ordered r.holdId

/-- The move is the call that mirrors a hold. -/
def Move.mirrors (s : Sys U) : Move U → Bool
  | .exec t _ _ =>
    match s.threads t with
    | some (.hold _ .mirror) => true
    | _ => false
  | _ => false

def mirrored (tr : List (Sys U × Move U)) : Nat := tr.countP fun p => p.2.mirrors p.1

@[simp] theorem mirrored_append (tr tr' : List (Sys U × Move U)) :
    mirrored (tr ++ tr') = mirrored tr + mirrored tr' := List.countP_append

variable [DecidableEq U] {S : Service U} {s s' : Sys U} {m : Move U} {tr : List (Sys U × Move U)}

omit [DecidableEq U] in
theorem Db.deleteReservation_cases (db : Db U) (h : String) :
    db.deleteReservation h = none ∧ db.Ordered h ∨
      db.deleteReservation h = some { db with reservations := db.reservations.delete h } ∧
        ∀ r ∈ db.reservations.rows, r.holdId = h → ¬ db.Ordered h := by
  by_cases hc : db.getReservation h ≠ none ∧ ∃ o ∈ db.orders, o.holdId = h
  · exact .inl ⟨by rw [deleteReservation, if_pos hc], hc.2⟩
  · refine .inr ⟨by rw [deleteReservation, if_neg hc], fun r hr hid hord => hc ⟨fun hnone => ?_, hord⟩⟩
    exact db.reservations.find_eq_none_iff.mp hnone r hr hid

/-- What one move does to the rows. -/
inductive RowMove (S : Service U) (s : Sys U) (m : Move U) (rows : List (Reservation U)) : Prop
  | keep (hrows : rows = s.world.db.reservations.rows)
  | add {t : Nat} {q : HoldRequest U} {r : Reservation U} (hth : s.threads t = some (.hold q .mirror))
      (hm : m.mirrors s = true) (hid : r.holdId = q.holdId S.uuid)
      (hrows : rows = s.world.db.reservations.rows ++ [r])
  | drop {h : String} (hrows : rows = s.world.db.reservations.rows.filter fun r => r.holdId ≠ h)
      (hfree : ∀ r ∈ s.world.db.reservations.rows, r.holdId = h → ¬ s.world.db.Ordered h)

omit [DecidableEq U] in
theorem RowMove.of_delete {h : String} {db' : Db U} (hdb : s.world.db.deleteReservation h = some db') :
    RowMove S s m db'.reservations.rows := by
  rcases s.world.db.deleteReservation_cases h with ⟨hnone, _⟩ | ⟨hsome, hfree⟩
  · cases hnone.symm.trans hdb
  · obtain rfl := Option.some.inj (hsome.symm.trans hdb)
    exact .drop rfl hfree

theorem Service.Step.rows (hs : S.Step s m s') : RowMove S s m s'.world.db.reservations.rows := by
  cases hs with
  | @exec t th f scan hth _ _ =>
    have hmove := exec_db S s t th f scan
    generalize (s.executed S t th f scan).world.db = db' at hmove
    cases hmove with
    | keep hdb => exact .keep (by rw [hdb])
    | @mirror q hdb =>
      obtain rfl := Db.insertReservation_eq hdb
      by_cases hf : s.world.db.reservations.find (q.reservation S.uuid S.holdTtl).holdId = none
      · have hrows : (s.world.db.reservations.insert (q.reservation S.uuid S.holdTtl)).rows =
            s.world.db.reservations.rows ++ [q.reservation S.uuid S.holdTtl] := by
          rw [Reservations.insert, dif_pos hf]
        exact .add hth (by simp [Move.mirrors, hth]) rfl hrows
      · exact .keep (by rw [Reservations.insert_of_find_ne_none _ hf])
    | order hdb => exact .keep (by rw [(Db.orderInserted_insertOrder hdb).reservations])
    | cancel hdb => exact .of_delete hdb
    | reap hdb => exact .of_delete hdb
  | _ => exact .keep rfl

theorem Service.Step.ordered_mono {h : String} (hs : S.Step s m s') (ho : s.world.db.Ordered h) :
    s'.world.db.Ordered h := by
  obtain ⟨o, hmem, hid⟩ := ho
  exact ⟨o, hs.orders_mono hmem, hid⟩

theorem Service.Step.mem_pinned {r : Reservation U} (hs : S.Step s m s') (hr : r ∈ s.world.db.pinned) :
    r ∈ s'.world.db.pinned := by
  obtain ⟨hrow, hord⟩ := List.mem_filter.mp hr
  rw [decide_eq_true_eq] at hord
  refine List.mem_filter.mpr ⟨?_, decide_eq_true (hs.ordered_mono hord)⟩
  have hmove := hs.rows
  generalize s'.world.db.reservations.rows = rows at hmove ⊢
  cases hmove with
  | keep hrows => exact hrows ▸ hrow
  | add _ _ _ hrows => exact hrows ▸ List.mem_append_left _ hrow
  | @drop h hrows hfree =>
    refine hrows ▸ List.mem_filter.mpr ⟨hrow, decide_eq_true fun hid => ?_⟩
    exact hfree r hrow hid (hid ▸ hord)

omit [DecidableEq U] in
theorem Db.nodup_rows (db : Db U) : db.reservations.rows.Nodup := .of_map _ db.reservations.unique

theorem pinned_length_le (hrun : Run S.Step s tr s') :
    s.world.db.pinned.length ≤ s'.world.db.pinned.length := by
  have hsub : ∀ r ∈ s.world.db.pinned, r ∈ s'.world.db.pinned := fun r hr =>
    hrun.invariant (fun u => r ∈ u.world.db.pinned) (fun _ _ => True)
      (fun _ _ _ hu _ hs => hs.mem_pinned hu) hr fun _ _ => trivial
  exact (List.subperm_of_subset (s.world.db.nodup_rows.filter _) hsub).length_le

/-- The table grows by holds that are mirrored only. -/
theorem new_rows_le (hrun : Run S.Step s tr s') :
    s'.world.db.reservations.rows.countP (· ∉ s.world.db.reservations.rows) ≤ mirrored tr := by
  induction hrun with
  | nil => simp [mirrored]
  | @snoc tr u v m _ hs ih =>
    have hmove := hs.rows
    rw [mirrored_append]
    generalize v.world.db.reservations.rows = rows at hmove ⊢
    cases hmove with
    | keep hrows => rw [hrows]; omega
    | @add _ _ r _ hm _ hrows =>
      have hone : mirrored [(u, m)] = 1 := by simp [mirrored, hm]
      have hlast : [r].countP (· ∉ s.world.db.reservations.rows) ≤ 1 := List.countP_le_length
      rw [hrows, List.countP_append, hone]
      omega
    | drop hrows _ =>
      have hsub := List.Sublist.countP_le (p := (· ∉ s.world.db.reservations.rows))
        (hrows ▸ List.filter_sublist : rows.Sublist u.world.db.reservations.rows)
      omega

end Rows

section Spent

variable {U : Type} [DecidableEq U] {S : Service U} {s₀ s s' : Sys U} {m : Move U} {h : String}
  {tr : List (Sys U × Move U)}

/-- The hold id was drawn, and whoever drew it has been answered. -/
structure Sys.Spent (S : Service U) (s : Sys U) (h : String) : Prop where
  drawn : ∃ u ∈ s.drawn, h = S.uuid.str u
  done : ∀ t q pc, s.threads t = some (.hold q pc) → q.holdId S.uuid = h → ∃ r, pc = .done r

omit [DecidableEq U] in
theorem Origins.spent (hb : Booted S s₀) (ho : Origins S s₀ s) {r : Reservation U}
    (hr : r ∈ s.world.db.reservations.rows) : s.Spent S r.holdId where
  drawn := by
    rcases ho.reservations r hr with h0 | ⟨t, q, _, hth, rfl⟩
    · obtain ⟨u, hu, hid⟩ := hb.holds r h0
      exact ⟨u, ho.kept u hu, hid⟩
    · exact ⟨q.draw, (ho.drawn t _ hth q.draw (List.mem_singleton.mpr rfl)).1, rfl⟩
  done t q pc hth hid := (ho.reservation_eq hb hth hr hid.symm).2

theorem Service.Step.spent (hs : S.Step s m s') (hh : s.Spent S h) : s'.Spent S h where
  drawn := by
    obtain ⟨u, hu, hid⟩ := hh.drawn
    exact ⟨u, hs.drawn_mono hu, hid⟩
  done t q pc hth hid := by
    cases hs.thread hth with
    | stay hold => exact hh.done t q pc hold hid
    | @start req _ hfresh he =>
      cases req <;> cases he
      obtain ⟨u, hu, hstr⟩ := hh.drawn
      obtain rfl : q.draw = u := S.uuid.str_inj.mp (hid.trans hstr)
      exact absurd hu (hfresh _ (List.mem_singleton.mpr rfl))
    | @turn th₀ f scan hold hrun _ he =>
      cases th₀ <;> cases he
      obtain ⟨r, rfl⟩ := hh.done t q _ hold hid
      cases hrun

/-- An order refers to the hold, or the table has no row of it. -/
def Sys.Settled (s : Sys U) (h : String) : Prop :=
  s.world.db.Ordered h ∨ ∀ r ∈ s.world.db.reservations.rows, r.holdId ≠ h

theorem Service.Step.settled (hs : S.Step s m s') (hspent : s.Spent S h) (hh : s.Settled h) :
    s'.Settled h := by
  rcases hh with hord | hgone
  · exact .inl (hs.ordered_mono hord)
  · refine .inr ?_
    have hmove := hs.rows
    generalize s'.world.db.reservations.rows = rows at hmove ⊢
    cases hmove with
    | keep hrows => exact hrows ▸ hgone
    | @add t q r hth _ hid hrows =>
      intro x hx hxh
      rcases List.mem_append.mp (hrows ▸ hx) with hx | hx
      · exact hgone x hx hxh
      · obtain rfl := List.mem_singleton.mp hx
        obtain ⟨_, hpc⟩ := hspent.done t q _ hth (hid.symm.trans hxh)
        cases hpc
    | drop hrows _ => exact fun x hx => hgone x (List.mem_filter.mp (hrows ▸ hx)).1

end Spent

section Sweep

variable {U : Type} [DecidableEq U] {S : Service U} {s₀ s s' u v : Sys U} {m : Move U} {t n : Nat}
  {tr : List (Sys U × Move U)} {batch : List (Reservation U)}

/-- The rows of the batch whose deletion is yet to come. -/
def SweepPc.left : SweepPc U → List (Reservation U)
  | .script res rest => res :: rest
  | .delete res rest => res :: rest
  | _ => []

def Move.Sound (t : Nat) : Move U → Prop
  | .exec i f _ => i = t → f = .none
  | _ => True

/-- A sweep that is served without faults, whatever other threads do meanwhile. -/
structure Cleared (S : Service U) (s : Sys U) (t : Nat) (batch : List (Reservation U))
    (tr : List (Sys U × Move U)) (s' : Sys U) : Prop where
  run : Run S.Step s tr s'
  fetched : ∃ scan rest, s.threads t = some (.sweep .fetch) ∧ tr = (s, .exec t .none scan) :: rest ∧
    batch = s.world.db.expiredReservations scan.reservations SweepPc.batchSize
  sound : ∀ p ∈ tr, p.2.Sound t
  finished : ∃ b, s'.threads t = some (.sweep (.done b))

theorem Cleared.started (h : Cleared S s t batch tr s') : ∃ scan rest, s.threads t = some (.sweep .fetch) ∧
    scan.Of s.world.db ∧ batch = s.world.db.expiredReservations scan.reservations SweepPc.batchSize ∧
    tr = (s, .exec t .none scan) :: rest ∧
    Run S.Step (s.executed S t (.sweep .fetch) .none scan) rest s' := by
  obtain ⟨scan, rest, hth, rfl, hbatch⟩ := h.fetched
  have hrun : Run S.Step s ([] ++ (s, .exec t .none scan) :: rest) s' := h.run
  obtain ⟨u, _, hstep, hrest⟩ := hrun.cut
  cases hstep with
  | exec hth' _ hscan =>
    obtain rfl := Option.some.inj (hth.symm.trans hth')
    exact ⟨scan, rest, hth, hscan, hbatch, rfl, hrest⟩

structure Clearing (S : Service U) (t : Nat) (batch : List (Reservation U)) (s : Sys U) : Prop where
  spent : ∀ r ∈ batch, s.Spent S r.holdId
  point : ∃ pc, s.threads t = some (.sweep pc) ∧ pc ≠ .fetch ∧
    ∀ r ∈ batch, r ∈ pc.left ∨ s.Settled r.holdId

omit [DecidableEq U] in
theorem SweepPc.left_next (rest : List (Reservation U)) :
    SweepPc.next rest ≠ .fetch ∧ (SweepPc.next rest).left = rest := by
  cases rest with
  | nil => exact ⟨nofun, rfl⟩
  | cons res rest => exact ⟨nofun, rfl⟩

theorem settled_after_delete {res : Reservation U} {rest : List (Reservation U)} {scan : Scan U} :
    (s.executed S t (.sweep (.delete res rest)) .none scan).Settled res.holdId := by
  have hdb : (s.executed S t (.sweep (.delete res rest)) .none scan).world.db =
      (s.world.db.deleteReservation res.holdId).getD s.world.db := rfl
  rw [Sys.Settled, hdb]
  rcases s.world.db.deleteReservation_cases res.holdId with ⟨hnone, hord⟩ | ⟨hsome, _⟩
  · rw [hnone]
    exact .inl hord
  · rw [hsome]
    exact .inr fun r hr hid => (Reservations.mem_delete _).mp hr |>.2 hid

theorem Service.Step.clearing (hs : S.Step u m v) (hm : m.Sound t) (h : Clearing S t batch u) :
    Clearing S t batch v := by
  obtain ⟨pc, hth, hpc, hleft⟩ := h.point
  refine ⟨fun r hr => hs.spent (h.spent r hr), ?_⟩
  have hkept : ∀ r ∈ batch, r ∈ pc.left ∨ v.Settled r.holdId := fun r hr =>
    (hleft r hr).imp_right fun hset => hs.settled (h.spent r hr) hset
  cases hs with
  | @spawn i req hfree _ =>
    have hi : t ≠ i := by
      intro he
      rw [he, hfree] at hth
      cases hth
    exact ⟨pc, by rw [Sys.threads_spawned, if_neg hi, hth], hpc, hkept⟩
  | advanceRedis ms => exact ⟨pc, hth, hpc, hkept⟩
  | advancePostgres us => exact ⟨pc, hth, hpc, hkept⟩
  | @exec i th f scan hth' hrun _ =>
    by_cases hi : t = i
    · subst hi
      obtain rfl := hm rfl
      obtain rfl := Option.some.inj (hth.symm.trans hth')
      have hnow : (u.executed S t (.sweep pc) .none scan).threads t =
          some (.sweep (SweepPc.resume u.world .none scan pc)) := by
        rw [Sys.threads_executed, if_pos rfl]
        rfl
      cases pc with
      | fetch => exact absurd rfl hpc
      | script res rest => exact ⟨_, hnow, nofun, hkept⟩
      | delete res rest =>
        have hnext := SweepPc.left_next rest
        refine ⟨_, hnow, hnext.1, fun r hr => ?_⟩
        rcases hkept r hr with hmem | hset
        · rcases List.mem_cons.mp hmem with rfl | hmem
          · exact .inr settled_after_delete
          · exact .inl (hnext.2.symm ▸ hmem)
        · exact .inr hset
      | done b => cases hrun
    · exact ⟨pc, by rw [Sys.threads_executed, if_neg hi, hth], hpc, hkept⟩

/-- After a sweep each row of its batch has gone for good or belongs to an order. -/
theorem Cleared.settled (hb : Booted S s₀) (hrun : Run S.Step s₀ tr s) {tr' : List (Sys U × Move U)}
    (h : Cleared S s t batch tr' s') {r : Reservation U} (hr : r ∈ batch) :
    s'.Settled r.holdId := by
  obtain ⟨scan, rest, hth, hscan, rfl, rfl, hrest⟩ := h.started
  have ho := Service.origins_run hb hrun
  have hstart : Clearing S t (s.world.db.expiredReservations scan.reservations SweepPc.batchSize)
      (s.executed S t (.sweep .fetch) .none scan) := by
    have hnext := SweepPc.left_next
      (s.world.db.expiredReservations scan.reservations SweepPc.batchSize)
    refine ⟨fun r hr => ?_, _, by rw [Sys.threads_executed, if_pos rfl]; rfl, hnext.1,
      fun r hr => .inl (hnext.2.symm ▸ hr)⟩
    have hrow : r ∈ s.world.db.reservations.rows :=
      hscan.reservations.mem_iff.mp ((s.world.db.expiredReservations_sublist _ _).subset hr)
    exact Service.Step.spent (.exec hth rfl hscan) (ho.spent hb hrow)
  have hend := hrest.invariant (fun u => Clearing S t _ u) (fun _ m => m.Sound t)
    (fun _ _ _ hu hm hs => hs.clearing hm hu) hstart fun p hp => h.sound p (List.mem_cons_of_mem _ hp)
  obtain ⟨pc, hpc, _, hleft⟩ := hend.point
  obtain ⟨b, hdone⟩ := h.finished
  cases hdone.symm.trans hpc
  rcases hleft r hr with hmem | hset
  · cases hmem
  · exact hset

/-- A sweep shortens the table by those rows of its batch that no order refers to. -/
theorem Cleared.rows_le (hb : Booted S s₀) (hrun : Run S.Step s₀ tr s) {tr' : List (Sys U × Move U)}
    (h : Cleared S s t batch tr' s') :
    s'.world.db.reservations.rows.length + batch.length ≤
      s.world.db.reservations.rows.length + mirrored tr' + s'.world.db.pinned.length := by
  have hsettled {r : Reservation U} (hr : r ∈ batch) : s'.Settled r.holdId := h.settled hb hrun hr
  have hnew := new_rows_le h.run
  obtain ⟨scan, rest, hth, hof, hbatch, rfl, _⟩ := h.started
  have hscan := hof.reservations
  have hsub : batch ⊆ s.world.db.reservations.rows := fun r hr =>
    hscan.mem_iff.mp ((s.world.db.expiredReservations_sublist _ _).subset (hbatch ▸ hr))
  have hnodup : batch.Nodup :=
    (hbatch ▸ s.world.db.expiredReservations_sublist _ _ : batch.Sublist scan.reservations).nodup
      (hscan.nodup_iff.mpr s.world.db.nodup_rows)
  generalize hold : s.world.db.reservations.rows = old at hsub hnew
  generalize hnow : s'.world.db.reservations.rows = now at hnew
  have hkept : (now.filter (· ∈ old) ++ batch.filter (· ∉ now)).length ≤ old.length := by
    refine (List.subperm_of_subset (List.Nodup.append ?_ (hnodup.filter _) ?_) ?_).length_le
    · exact (hnow ▸ s'.world.db.nodup_rows : now.Nodup).filter _
    · intro r hr hr'
      simp only [List.mem_filter, decide_eq_true_eq] at hr hr'
      exact hr'.2 hr.1
    · intro r hr
      rcases List.mem_append.mp hr with hr | hr
      · simpa using (List.mem_filter.mp hr).2
      · exact hsub (List.mem_filter.mp hr).1
  have hleft : (batch.filter (· ∈ now)).length ≤ s'.world.db.pinned.length := by
    refine (List.subperm_of_subset (hnodup.filter _) fun r hr => ?_).length_le
    simp only [List.mem_filter, decide_eq_true_eq] at hr
    rcases hsettled hr.1 with hord | hgone
    · exact List.mem_filter.mpr ⟨hnow ▸ hr.2, decide_eq_true hord⟩
    · exact absurd rfl (hgone r (hnow ▸ hr.2))
  have hbatch' := List.length_eq_length_filter_add (l := batch) fun r => decide (r ∈ now)
  have hnow' := List.length_eq_length_filter_add (l := now) fun r => decide (r ∈ old)
  rw [List.length_append] at hkept
  simp only [List.countP_eq_length_filter, decide_not] at hnew hkept
  omega

/-- `n` sweeps of full batches one after the other, with any moves before, during, between and after. -/
inductive Rounds (S : Service U) (s₀ : Sys U) : Nat → List (Sys U × Move U) → Sys U → Prop
  | start : Rounds S s₀ 0 [] s₀
  | moves {n : Nat} {tr tr' : List (Sys U × Move U)} {s s' : Sys U} (h : Rounds S s₀ n tr s)
      (hrun : Run S.Step s tr' s') : Rounds S s₀ n (tr ++ tr') s'
  | full {n t : Nat} {tr tr' : List (Sys U × Move U)} {s s' : Sys U} {batch : List (Reservation U)}
      (h : Rounds S s₀ n tr s) (hclear : Cleared S s t batch tr' s')
      (hfull : batch.length = SweepPc.batchSize) : Rounds S s₀ (n + 1) (tr ++ tr') s'

theorem Rounds.run (h : Rounds S s₀ n tr s) : Run S.Step s₀ tr s := by
  induction h with
  | start => exact .nil
  | moves _ hrun ih => exact ih.append hrun
  | full _ hclear _ ih => exact ih.append hclear.run

theorem Rounds.rows_le (hb : Booted S s₀) (h : Rounds S s₀ n tr s) :
    n * SweepPc.batchSize + s.world.db.reservations.rows.length ≤
      s₀.world.db.reservations.rows.length + mirrored tr + n * s.world.db.pinned.length := by
  induction h with
  | start => simp [mirrored]
  | @moves n tr tr' s s' h hrun ih =>
    have hpinned := Nat.mul_le_mul_left n (pinned_length_le hrun)
    have hnew := new_rows_le hrun
    have hkept : s'.world.db.reservations.rows.countP (· ∈ s.world.db.reservations.rows) ≤
        s.world.db.reservations.rows.length := by
      rw [List.countP_eq_length_filter]
      refine (List.subperm_of_subset (s'.world.db.nodup_rows.filter _) fun r hr => ?_).length_le
      simpa using (List.mem_filter.mp hr).2
    have hsplit := List.length_eq_countP_add_countP (· ∈ s.world.db.reservations.rows)
      (l := s'.world.db.reservations.rows)
    simp only [decide_not] at hnew
    rw [mirrored_append]
    simp only [decide_eq_true_eq, decide_not] at hsplit
    omega
  | @full n t tr tr' s s' batch h hclear hfull ih =>
    have hpinned := Nat.mul_le_mul_left n (pinned_length_le hclear.run)
    have hrows := hclear.rows_le hb h.run
    rw [mirrored_append, Nat.succ_mul, Nat.succ_mul]
    omega

end Sweep

section Served

variable {U : Type} [DecidableEq U] (S : Service U) {s : Sys U} {t : Nat}

def Db.reap (db : Db U) (l : List (Reservation U)) : Db U :=
  l.foldl (fun d r => (d.deleteReservation r.holdId).getD d) db

omit [DecidableEq U] in
theorem Db.reap_ordered {db : Db U} {l : List (Reservation U)}
    (h : ∀ r ∈ l, r ∈ db.reservations.rows ∧ db.Ordered r.holdId) : db.reap l = db := by
  induction l with
  | nil => rfl
  | cons r l ih =>
    obtain ⟨⟨hrow, hord⟩, hrest⟩ := List.forall_mem_cons.mp h
    have hkept : (db.deleteReservation r.holdId).getD db = db := by
      rcases db.deleteReservation_cases r.holdId with ⟨hnone, _⟩ | ⟨_, hfree⟩
      · rw [hnone, Option.getD_none]
      · exact absurd hord (hfree r hrow rfl)
    rw [reap, List.foldl_cons, hkept]
    exact ih hrest

omit [DecidableEq U] in
theorem Db.orders_reap (db : Db U) (l : List (Reservation U)) : (db.reap l).orders = db.orders := by
  induction l generalizing db with
  | nil => rfl
  | cons r l ih =>
    rw [reap, List.foldl_cons]
    refine (ih _).trans ?_
    rcases db.deleteReservation_cases r.holdId with ⟨hnone, _⟩ | ⟨hsome, _⟩
    · rw [hnone, Option.getD_none]
    · rw [hsome, Option.getD_some]

/-- The thread alone has moved, without faults, and nothing else has happened. -/
structure ServedAlone (s : Sys U) (t : Nat) (tr : List (Sys U × Move U)) (s' : Sys U) : Prop where
  run : Run S.Step s tr s'
  alone : ∀ p ∈ tr, ∃ scan pc, p.2 = .exec t .none scan ∧ p.1.threads t = some (.sweep pc)
  others : ∀ i, i ≠ t → s'.threads i = s.threads i

variable {S}

theorem ServedAlone.mirrored_eq {tr : List (Sys U × Move U)} {s' : Sys U} (h : ServedAlone S s t tr s') :
    mirrored tr = 0 := by
  refine List.countP_eq_zero.mpr fun p hp => ?_
  obtain ⟨scan, pc, hmove, hth⟩ := h.alone p hp
  simp [hmove, Move.mirrors, hth]

theorem ServedAlone.cons {pc : SweepPc U} {scan : Scan U} {tr : List (Sys U × Move U)} {s' : Sys U}
    (hth : s.threads t = some (.sweep pc)) (hf : (Thread.sweep pc).finished = false)
    (hscan : scan.Of s.world.db) (h : ServedAlone S (s.executed S t (.sweep pc) .none scan) t tr s') :
    ServedAlone S s t ((s, .exec t .none scan) :: tr) s' where
  run := (Run.single (.exec hth hf hscan)).append h.run
  alone p hp := by
    rcases List.mem_cons.mp hp with rfl | hp
    · exact ⟨scan, pc, rfl, hth⟩
    · exact h.alone p hp
  others i hi := by rw [h.others i hi, Sys.threads_executed, if_neg hi]

/-- By induction on the batch: a sweep can be served to its end, and deletes what can be deleted. -/
theorem served_batch (l : List (Reservation U)) (hth : s.threads t = some (.sweep (.next l))) :
    ∃ tr s', ServedAlone S s t tr s' ∧ s'.threads t = some (.sweep (.done true)) ∧
      s'.world.db = s.world.db.reap l := by
  induction l generalizing s with
  | nil => exact ⟨[], s, ⟨.nil, by simp, fun _ _ => rfl⟩, hth, rfl⟩
  | cons res rest ih =>
    let u := s.executed S t (.sweep (.script res rest)) .none s.scan
    have hu : u.threads t = some (.sweep (.delete res rest)) := by
      rw [Sys.threads_executed, if_pos rfl]
      rfl
    let v := u.executed S t (.sweep (.delete res rest)) .none u.scan
    have hv : v.threads t = some (.sweep (.next rest)) := by
      rw [Sys.threads_executed, if_pos rfl]
      rfl
    obtain ⟨tr, s', hserved, hdone, hdb⟩ := ih hv
    exact ⟨_, s', (hserved.cons hu rfl u.scan_of).cons hth rfl s.scan_of, hdone, hdb⟩

theorem served_sweep {scan : Scan U} (hth : s.threads t = some (.sweep .fetch)) (hscan : scan.Of s.world.db) :
    ∃ tr s', Cleared S s t (s.world.db.expiredReservations scan.reservations SweepPc.batchSize) tr s' ∧
      mirrored tr = 0 ∧ (∀ i, i ≠ t → s'.threads i = s.threads i) ∧ s'.world.db =
        s.world.db.reap (s.world.db.expiredReservations scan.reservations SweepPc.batchSize) := by
  let batch := s.world.db.expiredReservations scan.reservations SweepPc.batchSize
  have hnext : (s.executed S t (.sweep .fetch) .none scan).threads t = some (.sweep (.next batch)) := by
    rw [Sys.threads_executed, if_pos rfl]
    rfl
  obtain ⟨tr, s', hserved, hdone, hdb⟩ := served_batch batch hnext
  have hall := hserved.cons hth rfl hscan
  refine ⟨_, s', ⟨hall.run, ⟨scan, tr, hth, rfl, rfl⟩, fun p hp => ?_, true, hdone⟩, hall.mirrored_eq,
    hall.others, hdb⟩
  obtain ⟨_, _, hmove, _⟩ := hall.alone p hp
  rw [hmove]
  exact fun _ => rfl

/-- The rows that have expired and cannot be deleted. -/
def Db.stuck (db : Db U) : List (Reservation U) := db.pinned.filter fun r => r.expiresAt < db.now

omit [DecidableEq U] in
/-- A query may meet the rows that are stuck first. -/
theorem stuck_first (db : Db U) (h : SweepPc.batchSize ≤ db.stuck.length) : ∃ scan : Scan U,
    scan.Of db ∧ (db.expiredReservations scan.reservations SweepPc.batchSize).length =
        SweepPc.batchSize ∧
      ∀ r ∈ db.expiredReservations scan.reservations SweepPc.batchSize,
        r ∈ db.reservations.rows ∧ db.Ordered r.holdId := by
  let rest := db.reservations.rows.filter fun r => !(r.expiresAt < db.now && db.Ordered r.holdId)
  have hstuck : db.stuck =
      db.reservations.rows.filter fun r => r.expiresAt < db.now && db.Ordered r.holdId := by
    rw [Db.stuck, Db.pinned, List.filter_filter]
  have hexpired : (db.stuck.filter fun r => r.expiresAt < db.now) = db.stuck :=
    List.filter_eq_self.mpr fun r hr => (List.mem_filter.mp hr).2
  have hbatch : db.expiredReservations (db.stuck ++ rest) SweepPc.batchSize =
      db.stuck.take SweepPc.batchSize := by
    rw [Db.expiredReservations, List.filter_append, hexpired, List.take_append_of_le_length h]
  refine ⟨⟨db.orders, db.stuck ++ rest⟩, ⟨.refl _, hstuck ▸ List.filter_append_perm _ _⟩, ?_, ?_⟩
  · rw [hbatch, List.length_take]
    omega
  · intro r hr
    have hmem := (List.mem_filter.mp (List.mem_of_mem_take (hbatch ▸ hr))).1
    obtain ⟨hrow, hord⟩ := List.mem_filter.mp hmem
    exact ⟨hrow, by simpa using hord⟩

end Served

section Drain

variable {U : Type} [DecidableEq U] {S : Service U} {s₀ s : Sys U} {n : Nat} {tr : List (Sys U × Move U)}

/-- Sweeps without faults make progress, whatever else happens: each one that fetches a full batch takes
that many rows less the ordered ones off the table, and each other one settles all rows that have expired. -/
theorem sweeps_drain (hb : Booted S s₀) (h : Rounds S s₀ n tr s) :
    n * SweepPc.batchSize + s.world.db.reservations.rows.length ≤
        s₀.world.db.reservations.rows.length + mirrored tr + n * s.world.db.pinned.length ∧
      ∀ t batch tr' s', Cleared S s t batch tr' s' → batch.length < SweepPc.batchSize →
        ∀ r ∈ s.world.db.reservations.rows, r.expiresAt < s.world.db.now → s'.Settled r.holdId := by
  refine ⟨h.rows_le hb, fun t batch tr' s' hclear hshort r hr hexp => ?_⟩
  refine hclear.settled hb h.run ?_
  obtain ⟨scan, _, _, hscan, rfl, _, _⟩ := hclear.started
  rw [Db.expiredReservations, List.length_take] at hshort
  rw [Db.expiredReservations, List.take_of_length_le (by omega)]
  exact List.mem_filter.mpr ⟨hscan.reservations.mem_iff.mpr hr, decide_eq_true hexp⟩

/-- Once a whole batch of expired rows belongs to orders, any number of sweeps
may find nothing else, and the table stays as it is. -/
theorem sweeps_starve (hfree : ∃ k, ∀ t, k ≤ t → s.threads t = none)
    (hstuck : SweepPc.batchSize ≤ s.world.db.stuck.length) (n : Nat) :
    ∃ tr s', Rounds S s n tr s' ∧ mirrored tr = 0 ∧ s'.world.db = s.world.db := by
  suffices hgo : ∃ tr s', Rounds S s n tr s' ∧ mirrored tr = 0 ∧ s'.world.db = s.world.db ∧
      ∃ k, ∀ t, k ≤ t → s'.threads t = none by
    obtain ⟨tr, s', hrounds, hnone, hdb, _⟩ := hgo
    exact ⟨tr, s', hrounds, hnone, hdb⟩
  induction n with
  | zero => exact ⟨[], s, .start, rfl, rfl, hfree⟩
  | succ n ih =>
    obtain ⟨tr, u, hrounds, hnone, hdb, k, hk⟩ := ih
    obtain ⟨scan, hscan, hfull, hpinned⟩ := stuck_first u.world.db (hdb ▸ hstuck)
    have hspawn : S.Step u (.spawn k .sweep) (u.spawned S k .sweep) := .spawn (hk k le_rfl) (by simp [Request.draws])
    have hth : (u.spawned S k .sweep).threads k = some (.sweep .fetch) := by
      rw [Sys.threads_spawned, if_pos rfl]
      rfl
    obtain ⟨tr', s', hclear, hnone', hothers, hreap⟩ := served_sweep (S := S) hth hscan
    have hone : mirrored [(u, Move.spawn k (Request.sweep (U := U)))] = 0 := rfl
    refine ⟨_, s', (hrounds.moves (.single hspawn)).full hclear hfull, ?_, ?_, k + 1, fun t ht => ?_⟩
    · rw [mirrored_append, mirrored_append, hnone, hone, hnone']
    · rw [hreap]
      exact (Db.reap_ordered hpinned).trans hdb
    · rw [hothers t (by omega), Sys.threads_spawned, if_neg (by omega)]
      exact hk t (by omega)

end Drain

section Demo

def numberedPrefix : String := "550e8400-e29b-41d4-a716-"
def numberedStr (u : Fin 200) : String := numberedPrefix ++ Decimal.padded 12 u.val

theorem numberedStr_inj {u v : Fin 200} (h : numberedStr u = numberedStr v) : u = v := by
  have hl := congrArg String.toList h
  rw [numberedStr, numberedStr, String.toList_append, String.toList_append] at hl
  have hpadded := String.toList_inj.mp (List.append_cancel_left hl)
  exact Fin.ext (Decimal.padded_inj hpadded)

theorem plain_append {a b : String} (ha : PlainId a) (hb : PlainId b) : PlainId (a ++ b) := by
  rw [PlainId, String.toList_append, List.mem_append, not_or]
  exact ⟨ha, hb⟩

theorem padded_plain (w n : Nat) : PlainId (Decimal.padded w n) := by
  rw [PlainId, Decimal.padded, String.toList_ofList, List.leftpad, List.mem_append, not_or,
    Decimal.toList_toString]
  refine ⟨fun hp => ?_, fun hp => ?_⟩
  · cases List.eq_of_mem_replicate hp
  · cases Nat.isDigit_of_mem_toDigits (by omega) (by omega) hp

theorem numberedStr_plain (u : Fin 200) : PlainId (numberedStr u) :=
  plain_append (by decide +kernel) (padded_plain 12 u)

def numberedLib : UuidLib (Fin 200) where
  parse s := (((List.finRange 200).find? fun u => numberedStr u = s).map (·, true)).getD (0, false)
  str := numberedStr
  zero := 0
  parse_str u := by
    cases hf : (List.finRange 200).find? fun v => numberedStr v = numberedStr u with
    | none =>
      have hnot := List.find?_eq_none.mp hf u (List.mem_finRange u)
      exact absurd (decide_eq_true rfl) hnot
    | some v =>
      obtain rfl : v = u := numberedStr_inj (by simpa using List.find?_some hf)
      rfl
  str_plain := numberedStr_plain

def numberedService : Service (Fin 200) := ⟨numberedLib, demoTtl⟩

def numberedRow (u : Fin 200) : Reservation (Fin 200) where
  holdId := numberedStr u
  userId := 0
  eventId := 1
  categoryId := 2
  seatIds := [u]
  expiresAt := 1790000000000000

def numberedOrder (u : Fin 200) : Order (Fin 200) where
  id := u
  holdId := numberedStr u
  userId := 0
  eventId := 1
  totalAmount := 1500000
  status := .paid
  idempotencyKey := u
  createdAt := 1790000000000000

/-- Holds that have expired, and orders for some of them. -/
def numberedDb (holds orders : List (Fin 200)) (h : holds.Nodup) : Db (Fin 200) where
  users u := u.val = 0
  events u := if u.val = 1 then some ⟨10, by decide⟩ else none
  categories u := if u.val = 2 then some ⟨1500000⟩ else none
  seats _ := some ⟨2, .available, 1⟩
  reservations := ⟨holds.map numberedRow, by
    rw [List.map_map]
    exact h.map fun _ _ he => numberedStr_inj he⟩
  orders := orders.map numberedOrder
  orderItems := []
  payments := []
  now := 1790000600000000

def hundred : List (Fin 200) := (List.finRange 200).take 100

theorem hundred_nodup : hundred.Nodup := (List.nodup_finRange 200).sublist (List.take_sublist _ _)

def numberedSys (orders : List (Fin 200)) : Sys (Fin 200) :=
  ⟨⟨demoRedis, numberedDb hundred orders hundred_nodup⟩, fun _ => none, List.finRange 200⟩

theorem numberedSys_booted (orders : List (Fin 200)) : Booted numberedService (numberedSys orders) where
  idle _ := rfl
  holds res hres := by
    obtain ⟨u, _, rfl⟩ := List.mem_map.mp hres
    exact ⟨u, List.mem_finRange u, rfl⟩
  orders o _ := List.mem_finRange o.id

theorem numberedSys_expired {orders : List (Fin 200)} {r : Reservation (Fin 200)}
    (hr : r ∈ hundred.map numberedRow) : r.expiresAt < (numberedSys orders).world.db.now := by
  obtain ⟨u, _, rfl⟩ := List.mem_map.mp hr
  have hlt : (1790000000000000 : Int) < 1790000600000000 := by decide
  exact hlt

theorem hundred_rows : (hundred.map numberedRow).length = 100 := by
  rw [List.length_map]
  decide

/-- A hundred holds without an order have expired, and one sweep deletes them all. -/
theorem sweeps_drain_hundred : ∃ tr s, Rounds numberedService (numberedSys []) 1 tr s ∧
    s.world.db.reservations.rows = [] := by
  let u := (numberedSys []).spawned numberedService 0 .sweep
  have hspawn : numberedService.Step (numberedSys []) (.spawn 0 .sweep) u := .spawn rfl (by simp [Request.draws])
  obtain ⟨tr, s, hclear, hnone, _, hdb⟩ :=
    served_sweep (S := numberedService) (s := u) (t := 0) (by rfl) u.scan_of
  have hbatch : u.world.db.expiredReservations u.scan.reservations SweepPc.batchSize =
      (hundred.map numberedRow).take 100 :=
    congrArg (List.take 100) (List.filter_eq_self.mpr fun r hr => decide_eq_true (numberedSys_expired hr))
  have hfull : ((hundred.map numberedRow).take 100).length = SweepPc.batchSize := by
    rw [List.length_take, hundred_rows]
    rfl
  have hrounds := (Rounds.start.moves (.single hspawn)).full hclear (hbatch ▸ hfull)
  refine ⟨_, s, hrounds, List.eq_nil_of_length_eq_zero ?_⟩
  have hbound := (sweeps_drain (numberedSys_booted []) hrounds).1
  have hpinned : s.world.db.pinned.length = 0 := by
    have horders : s.world.db.orders = [] := by
      rw [hdb, Db.orders_reap]
      rfl
    simp [Db.pinned, Db.Ordered, horders]
  have hold : (numberedSys []).world.db.reservations.rows.length = 100 := hundred_rows
  have hmirrored : mirrored ([] ++ [(numberedSys [], Move.spawn 0 Request.sweep)] ++ tr) = 0 := by
    rw [mirrored_append, hnone]
    rfl
  have hsize : SweepPc.batchSize = 100 := rfl
  rw [hpinned, hold, hmirrored, hsize] at hbound
  omega

/-- A hundred holds with orders have expired. -/
theorem sweeps_starve_hundred : ∃ tr s, Rounds numberedService (numberedSys hundred) 7 tr s ∧
    mirrored tr = 0 ∧ s.world.db = (numberedSys hundred).world.db := by
  refine sweeps_starve ⟨0, fun _ _ => rfl⟩ ?_ 7
  have hall : (numberedSys hundred).world.db.stuck = hundred.map numberedRow := by
    rw [Db.stuck, Db.pinned, List.filter_filter]
    refine List.filter_eq_self.mpr fun r hr => ?_
    have hlate := @numberedSys_expired hundred _ hr
    obtain ⟨u, hu, rfl⟩ := List.mem_map.mp hr
    have hord : (numberedSys hundred).world.db.Ordered (numberedRow u).holdId :=
      ⟨numberedOrder u, List.mem_map_of_mem hu, rfl⟩
    rw [Bool.and_eq_true, decide_eq_true_eq, decide_eq_true_eq]
    exact ⟨hlate, hord⟩
  rw [hall, hundred_rows]
  exact le_rfl

end Demo

end CrowdTic
