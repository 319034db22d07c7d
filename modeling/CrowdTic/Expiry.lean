import CrowdTic.Recovery
import Mathlib.Algebra.BigOperators.Group.List.Basic

/-! An expired hold and the sweep that picks it up. The seat hashes carry the
time to live of the hold, so a seat that has timed out is gone, and a release
does not bring it back. -/

namespace CrowdTic

def Redis.availableAt (r : Redis) (inv : String) : Int := (r.stock inv).available.getD 0

section Sweep

variable {U : Type} (L : UuidLib U)

theorem Reservation.seat_release (res : Reservation U) (r : Redis) (e s : String) :
    (res.release L r).seat (seatKey e s) =
      if seatKey e s ∈ res.seatKeys L ∧ (r.seat (seatKey e s)).holdId = some res.holdId then .available
      else r.seat (seatKey e s) :=
  seat_releaseWrites r _ _ _ (seatKey_ne_holdKey _ _ _ _)

theorem Reservation.availableAt_release (res : Reservation U) (r : Redis) (e c : String) :
    (res.release L r).availableAt (inventoryKey e c) = r.availableAt (inventoryKey e c) +
      (if res.invKey L = inventoryKey e c then res.seatIds.length else 0 : Nat) := by
  have hs := stock_releaseWrites r (res.invKey L) (res.seatKeys L) (res.releaseArgs L)
    (inventoryKey_ne_holdKey e c _ _)
  rw [Redis.availableAt, Reservation.release, releaseSrc, hs]
  by_cases hi : inventoryKey e c = res.invKey L
  · simp [hi, Reservation.seatKeys, Redis.availableAt]
  · simp [hi, Ne.symm hi, Redis.availableAt]

def credit (inv : String) (batch : List (Reservation U)) : Nat :=
  (batch.map fun res => if res.invKey L = inv then res.seatIds.length else 0).sum

variable {L}

theorem credit_cons {inv : String} {res : Reservation U} {rest : List (Reservation U)} :
    credit L inv (res :: rest) = (if res.invKey L = inv then res.seatIds.length else 0) +
      credit L inv rest := rfl

theorem credit_erase [DecidableEq U] {inv : String} {batch : List (Reservation U)} {res : Reservation U}
    (h : res ∈ batch) : credit L inv batch =
      (if res.invKey L = inv then res.seatIds.length else 0) + credit L inv (batch.erase res) :=
  (List.sum_map_erase _ h).symm

def SweepPc.pending : SweepPc U → List (Reservation U)
  | .script res rest => res :: rest
  | .delete _ rest => rest
  | _ => []

/-- The sweep of the thread goes on without faults, or time passes. -/
def Move.Sweeps (t : Nat) : Move U → Prop
  | .exec i f _ => i = t ∧ f = .none
  | .spawn _ _ => False
  | _ => True

instance (t : Nat) : DecidablePred (Move.Sweeps (U := U) t)
  | .exec i f _ => inferInstanceAs (Decidable (i = t ∧ f = .none))
  | .spawn _ _ => inferInstanceAs (Decidable False)
  | .advanceRedis _ | .advancePostgres _ => inferInstanceAs (Decidable True)

end Sweep

section Swept

variable {U : Type} [DecidableEq U] {S : Service U} {s u v : Sys U} {m : Move U} {t : Nat}
  {tr : List (Sys U × Move U)} {batch : List (Reservation U)}

inductive SweepMove (L : UuidLib U) : List (Reservation U) → Redis → List (Reservation U) → Redis → Prop
  | idle {l : List (Reservation U)} {r : Redis} : SweepMove L l r l r
  | wait {l : List (Reservation U)} {r : Redis} (ms : Nat) : SweepMove L l r l (r.advance ms)
  | release {res : Reservation U} {l : List (Reservation U)} {r : Redis} :
      SweepMove L (res :: l) r l (res.release L r)

def Sys.SweepsAt (s : Sys U) (t : Nat) (l : List (Reservation U)) : Prop :=
  ∃ pc, s.threads t = some (.sweep pc) ∧ pc ≠ .fetch ∧ pc.pending = l

omit [DecidableEq U] in
theorem SweepPc.next_pending (batch : List (Reservation U)) :
    SweepPc.next batch ≠ .fetch ∧ (SweepPc.next batch).pending = batch := by
  cases batch <;> simp [SweepPc.next, SweepPc.pending]

theorem Service.Step.sweeps {l : List (Reservation U)} (hs : S.Step u m v) (hm : m.Sweeps t)
    (hat : u.SweepsAt t l) : ∃ l', v.SweepsAt t l' ∧
      SweepMove S.uuid l u.world.redis l' v.world.redis ∧ (l' = l ∨ ∃ res scan rest,
        m = .exec t .none scan ∧ u.threads t = some (.sweep (.script res rest)) ∧ l = res :: l') := by
  obtain ⟨pc, hth, hpc, rfl⟩ := hat
  cases hs with
  | spawn => exact hm.elim
  | advanceRedis ms => exact ⟨_, ⟨pc, hth, hpc, rfl⟩, .wait ms, .inl rfl⟩
  | advancePostgres us => exact ⟨_, ⟨pc, hth, hpc, rfl⟩, .idle, .inl rfl⟩
  | @exec i th f scan hth' hrun _ =>
    obtain ⟨rfl, rfl⟩ := hm
    obtain rfl := Option.some.inj (hth.symm.trans hth')
    have hnow : (u.executed S i (.sweep pc) .none scan).threads i =
        some (.sweep (SweepPc.resume u.world .none scan pc)) := by
      rw [Sys.threads_executed, if_pos rfl]
      rfl
    cases pc with
    | fetch => exact absurd rfl hpc
    | script res rest =>
      have hat' : (u.executed S i (.sweep (.script res rest)) .none scan).SweepsAt i rest :=
        ⟨_, hnow, nofun, rfl⟩
      exact ⟨rest, hat', .release, .inr ⟨res, scan, rest, rfl, hth, rfl⟩⟩
    | delete res rest =>
      have hn := SweepPc.next_pending rest
      exact ⟨rest, ⟨_, hnow, hn.1, hn.2⟩, .idle, .inl rfl⟩
    | done b => cases hrun

/-- What each release of a sweep and the passing of time keep, holds after the sweep's moves. -/
theorem sweep_invariant {l : List (Reservation U)} (P : List (Reservation U) → Redis → Prop)
    (hwait : ∀ l r ms, P l r → P l (r.advance ms))
    (hrelease : ∀ res l r, P (res :: l) r → P l (res.release S.uuid r))
    (hrun : Run S.Step u tr v) (hm : ∀ p ∈ tr, p.2.Sweeps t) (hat : u.SweepsAt t l)
    (hP : P l u.world.redis) : ∃ l', v.SweepsAt t l' ∧ P l' v.world.redis := by
  refine hrun.invariant (fun w => ∃ l', w.SweepsAt t l' ∧ P l' w.world.redis) (fun _ m => m.Sweeps t)
    ?_ ⟨l, hat, hP⟩ hm
  rintro w m w' ⟨l', hat', hP'⟩ hm hs
  obtain ⟨l'', hat'', hmove, _⟩ := hs.sweeps hm hat'
  refine ⟨l'', hat'', ?_⟩
  generalize w.world.redis = r at hmove hP'
  generalize w'.world.redis = r' at hmove ⊢
  cases hmove with
  | idle => exact hP'
  | wait ms => exact hwait _ _ ms hP'
  | release => exact hrelease _ _ _ hP'

theorem released_between {l l' : List (Reservation U)} {res : Reservation U} (hrun : Run S.Step u tr v)
    (hm : ∀ p ∈ tr, p.2.Sweeps t) (hat : u.SweepsAt t l) (hres : res ∈ l) (hat' : v.SweepsAt t l')
    (hdone : res ∉ l') : ∃ p ∈ tr, ∃ scan rest, p.2 = .exec t .none scan ∧
      p.1.threads t = some (.sweep (.script res rest)) := by
  have hinv : ∃ l', v.SweepsAt t l' ∧ (res ∈ l' ∨ ∃ p ∈ tr, ∃ scan rest, p.2 = .exec t .none scan ∧
      p.1.threads t = some (.sweep (.script res rest))) := by
    clear hat' hdone
    induction hrun with
    | nil => exact ⟨l, hat, .inl hres⟩
    | @snoc tr w v m hrun hs ih =>
      obtain ⟨hpre, hlast⟩ := List.forall_mem_append.mp hm
      obtain ⟨l', hat', hl'⟩ := ih hpre
      obtain ⟨l'', hat'', _, hcases⟩ := hs.sweeps (hlast (w, m) (List.mem_singleton.mpr rfl)) hat'
      refine ⟨l'', hat'', ?_⟩
      rcases hl' with hmem | ⟨p, hp, hrel⟩
      · rcases hcases with rfl | ⟨x, scan, rest, rfl, hth, rfl⟩
        · exact .inl hmem
        · rcases List.mem_cons.mp hmem with rfl | hmem
          · exact .inr ⟨_, List.mem_concat_self, scan, rest, rfl, hth⟩
          · exact .inl hmem
      · exact .inr ⟨p, List.mem_append_left _ hp, hrel⟩
  obtain ⟨l'', ⟨pc, hth, _, rfl⟩, hcases⟩ := hinv
  obtain ⟨pc', hth', _, rfl⟩ := hat'
  cases hth.symm.trans hth'
  exact hcases.resolve_left hdone

/-- A sweep that fetches its batch in a state and goes through it without faults, while time passes. -/
structure Swept (S : Service U) (s : Sys U) (t : Nat) (batch : List (Reservation U))
    (tr : List (Sys U × Move U)) (s' : Sys U) : Prop where
  fetched : ∃ scan, s.threads t = some (.sweep .fetch) ∧ scan.Of s.world.db ∧
    batch = s.world.db.expiredReservations scan.reservations SweepPc.batchSize ∧
    Run S.Step (s.executed S t (.sweep .fetch) .none scan) tr s'
  sweeps : ∀ p ∈ tr, p.2.Sweeps t
  finished : ∃ b, s'.threads t = some (.sweep (.done b))

variable {s' : Sys U}

theorem Swept.run (h : Swept S s t batch tr s') : ∃ u, Run S.Step u tr s' ∧ u.SweepsAt t batch ∧
    u.world.redis = s.world.redis := by
  obtain ⟨scan, _, _, rfl, hrun⟩ := h.fetched
  have hn := SweepPc.next_pending
    (s.world.db.expiredReservations scan.reservations SweepPc.batchSize)
  exact ⟨_, hrun, ⟨_, by rw [Sys.threads_executed, if_pos rfl]; rfl, hn.1, hn.2⟩, rfl⟩

theorem Swept.finished_at (h : Swept S s t batch tr s') : s'.SweepsAt t [] := by
  obtain ⟨b, hth⟩ := h.finished
  exact ⟨_, hth, nofun, rfl⟩

omit [DecidableEq U] in
theorem Sys.SweepsAt.unique {l l' : List (Reservation U)} (h : s.SweepsAt t l) (h' : s.SweepsAt t l') :
    l = l' := by
  obtain ⟨pc, hth, _, rfl⟩ := h
  obtain ⟨pc', hth', _, rfl⟩ := h'
  cases hth.symm.trans hth'
  rfl

theorem Swept.nodup (h : Swept S s t batch tr s') : (batch.map Reservation.holdId).Nodup := by
  obtain ⟨scan, _, hscan, rfl, _⟩ := h.fetched
  exact ((s.world.db.expiredReservations_sublist _ _).map _).nodup
    ((hscan.reservations.map _).nodup_iff.mpr s.world.db.reservations.unique)

theorem Swept.availableAt {e c : String} (h : Swept S s t batch tr s')
    (hinv : s.world.redis.hashes.ttl (inventoryKey e c) = none) :
    s'.world.redis.availableAt (inventoryKey e c) = s.world.redis.availableAt (inventoryKey e c) +
      credit S.uuid (inventoryKey e c) batch := by
  obtain ⟨u, hrun, hat, hredis⟩ := h.run
  obtain ⟨l, hat', _, hl⟩ := sweep_invariant
    (fun l r => r.hashes.ttl (inventoryKey e c) = none ∧
      r.availableAt (inventoryKey e c) + credit S.uuid (inventoryKey e c) l =
        s.world.redis.availableAt (inventoryKey e c) + credit S.uuid (inventoryKey e c) batch)
    (fun l r ms hr => by
      have hlapsed := ExpMap.lapsed_of_ttl_none hr.1 (r.now + ms)
      refine ⟨by simp [hlapsed, hr.1], ?_⟩
      rw [Redis.availableAt, stock_advance r ms _ hlapsed]
      exact hr.2)
    (fun res l r hr => by
      have hshaped : (Call.release (res.invKey S.uuid) (res.seatKeys S.uuid)
          (res.releaseArgs S.uuid)).Shaped := res.seatKeys_shaped S.uuid
      refine ⟨inventory_ttl_exec hshaped hr.1, ?_⟩
      rw [res.availableAt_release, ← hr.2, credit_cons]
      push_cast
      omega)
    hrun h.sweeps hat ⟨hredis ▸ hinv, by rw [hredis]⟩
  obtain rfl := hat'.unique h.finished_at
  simpa [credit] using hl

end Swept

section Outstanding

/-- The call ends the hold: it releases it or commits it. -/
def Call.Ends (holdId : String) (r : Redis) : Call → Prop
  | .release _ _ a => a.holdId = holdId
  | .commit _ ks a => a.holdId = holdId ∧ CommitRuns r ks a
  | _ => False

instance (holdId : String) (r : Redis) : DecidablePred (Call.Ends holdId r)
  | .release _ _ a => inferInstanceAs (Decidable (a.holdId = holdId))
  | .commit _ ks a => inferInstanceAs (Decidable (a.holdId = holdId ∧ CommitRuns r ks a))
  | .hold _ _ _ | .advance _ => inferInstanceAs (Decidable False)

theorem held_or_gone_exec {r : Redis} {c : Call} {e s user hold : String}
    (h : r.seat (seatKey e s) = .held user hold ∨ r.seat (seatKey e s) = .gone)
    (hc : ¬ c.Ends hold r) : (c.exec r).seat (seatKey e s) = .held user hold ∨
      (c.exec r).seat (seatKey e s) = .gone := by
  have hm := seatMove_exec e s r c
  cases hm with
  | keep hseat _ => rwa [hseat]
  | take _ hfree _ => rcases h with h | h <;> simp [h, Seat.held, Seat.gone] at hfree
  | free _ hhold _ _ =>
    rcases h with h | h
    · rw [h] at hhold
      exact absurd (Option.some.inj hhold).symm hc
    · simp [h, Seat.gone] at hhold
  | sell _ hruns hheld _ _ =>
    rcases h with h | h <;> rw [h] at hheld
    · simp only [Seat.held, Seat.mk.injEq, Option.some.injEq, true_and] at hheld
      exact absurd ⟨hheld.2.symm, hruns⟩ hc
    · simp [Seat.gone, Seat.held] at hheld
  | lapse _ hseat => exact .inr hseat

theorem available_exec {r : Redis} {c : Call} {e s : String} (h : r.seat (seatKey e s) = .available)
    (httl : r.hashes.ttl (seatKey e s) = none) (hc : ∀ inv ks a, c ≠ .hold inv ks a) :
    (c.exec r).seat (seatKey e s) = .available ∧ (c.exec r).hashes.ttl (seatKey e s) = none := by
  have hm := seatMove_exec e s r c
  cases hm with
  | keep hseat htt => exact ⟨hseat.trans h, htt.trans httl⟩
  | take _ _ _ => exact absurd rfl (hc _ _ _)
  | free _ _ hseat htt => exact ⟨hseat, htt⟩
  | sell _ _ hheld _ _ => simp [h, Seat.available, Seat.held] at hheld
  | lapse hl _ =>
    rw [ExpMap.lapsed_of_ttl_none httl] at hl
    cases hl

variable {U : Type} [DecidableEq U] {S : Service U} {q : HoldRequest U} {s : Sys U}

/-- The hold succeeded in an earlier call of a run, and no call has ended it since. -/
def Outstanding (S : Service U) (q : HoldRequest U) (s : Sys U) : Prop :=
  ∃ s₀ s₁ tr₁ tr₂ t m scan, s₀.threads t = none ∧ s₀.world.redis.hashes.ttl q.invKey = none ∧
    Run S.Step s₀ tr₁ s₁ ∧ s₁.threads t = some (.hold q (.script m)) ∧
    holdRefusal s₁.world.redis q.invKey q.seatKeys (q.args S.uuid S.holdTtl m) = none ∧
    Run S.Step (s₁.executed S t (.hold q (.script m)) .none scan) tr₂ s ∧
    ∀ p ∈ tr₂, ∀ c ∈ S.call p.1 p.2, ¬ c.Ends (q.holdId S.uuid) p.1.world.redis

theorem Outstanding.seatIds_ne_nil (h : Outstanding S q s) : q.seatIds ≠ [] := by
  obtain ⟨_, _, _, _, _, _, _, h0, _, hrun, hth, _⟩ := h
  exact hold_counted h0 hrun hth

theorem Outstanding.seat (h : Outstanding S q s) {k : String} (hk : k ∈ q.seatKeys) :
    s.world.redis.seat k = .held (S.uuid.str (q.userId S.uuid)) (q.holdId S.uuid) ∨
      s.world.redis.seat k = .gone := by
  obtain ⟨_, s₁, _, tr₂, t, m, scan, _, _, _, hth, href, hrun, hopen⟩ := h
  obtain ⟨sid, _, rfl⟩ := List.mem_map.mp hk
  have hheld : (s₁.executed S t (.hold q (.script m)) .none scan).world.redis.seat
      (seatKey q.eventId sid) = .held (S.uuid.str (q.userId S.uuid)) (q.holdId S.uuid) := by
    have hw : (s₁.executed S t (.hold q (.script m)) .none scan).world.redis =
        holdWrites s₁.world.redis q.invKey q.seatKeys (q.args S.uuid S.holdTtl m) :=
      holdSrc_accepted href
    rw [hw, seat_holdWrites, if_pos hk]
    rfl
  exact (Service.run_redis hrun).invariant
    (fun r => r.seat (seatKey q.eventId sid) =
        .held (S.uuid.str (q.userId S.uuid)) (q.holdId S.uuid) ∨ r.seat (seatKey q.eventId sid) = .gone)
    (fun r c => ¬ c.Ends (q.holdId S.uuid) r)
    (fun r c r' hr hc hstep => hstep ▸ held_or_gone_exec hr hc) (.inl hheld) fun p hp => by
      obtain ⟨x, hx, hcall, hr⟩ := Service.mem_run_redis hp
      exact hr ▸ hopen x hx _ hcall

theorem Outstanding.inventory_ttl (h : Outstanding S q s) : s.world.redis.hashes.ttl q.invKey = none := by
  obtain ⟨_, s₁, _, _, _, m, _, _, h0, hrun, _, _, hrun', _⟩ := h
  have hshaped : (Call.hold q.invKey q.seatKeys (q.args S.uuid S.holdTtl m)).Shaped := by
    intro k hk
    obtain ⟨sid, _, rfl⟩ := List.mem_map.mp hk
    exact ⟨sid, rfl⟩
  exact Service.inventory_ttl_run hrun' (inventory_ttl_exec hshaped (Service.inventory_ttl_run hrun h0))

/-- The seats of the hold are on sale again, and the inventory counts them
beside what the sweep has credited for other reservations. -/
structure Returned (S : Service U) (q : HoldRequest U) (batch : List (Reservation U)) (r r' : Redis) :
    Prop where
  seats : ∀ k ∈ q.seatKeys, r'.seat k = .available
  takeable : ∀ ks : List String, (∀ k ∈ ks, k ∈ q.seatKeys) →
    (ks.find? fun k => r'.hashes.hget k .status ≠ some "AVAILABLE") = none
  available : r'.availableAt q.invKey = r.availableAt q.invKey + q.seatKeys.toFinset.card +
    credit S.uuid q.invKey (batch.erase (q.reservation S.uuid S.holdTtl))

/-- The row names the keys that the hold has used, each seat once, and no
seat hash has timed out. -/
def HoldRequest.Reapable (L : UuidLib U) (q : HoldRequest U) (r : Redis) : Prop :=
  q.CanonicalIds L ∧ L.Canonical q.categoryId ∧ q.seatIds.Nodup ∧ ∀ k ∈ q.seatKeys, r.seat k ≠ .gone

instance (L : UuidLib U) (q : HoldRequest U) (r : Redis) : Decidable (q.Reapable L r) :=
  inferInstanceAs (Decidable (_ ∧ _ ∧ _ ∧ _))

variable {s' : Sys U} {batch : List (Reservation U)} {t : Nat} {tr : List (Sys U × Move U)}

theorem seat_before_release (ho : Outstanding S q s) (hs : Swept S s t batch tr s')
    {pre post : List (Sys U × Move U)} {p : Sys U × Move U} (htr : tr = pre ++ p :: post)
    {rest : List (Reservation U)}
    (hth : p.1.threads t = some (.sweep (.script (q.reservation S.uuid S.holdTtl) rest)))
    {sid : String} (hk : seatKey q.eventId sid ∈ q.seatKeys) :
    (p.1.world.redis.seat (seatKey q.eventId sid) = .held (S.uuid.str (q.userId S.uuid)) (q.holdId S.uuid) ∨
      p.1.world.redis.seat (seatKey q.eventId sid) = .gone) ∧
      ∀ x ∈ rest, x.holdId ≠ q.holdId S.uuid := by
  subst htr
  obtain ⟨u, hrun, hat, hredis⟩ := hs.run
  obtain ⟨_, hpre, _, _⟩ := hrun.cut
  obtain ⟨l, hat', hnd, hseat⟩ := sweep_invariant
    (fun l r => (l.map Reservation.holdId).Nodup ∧ (q.reservation S.uuid S.holdTtl ∈ l →
      r.seat (seatKey q.eventId sid) = .held (S.uuid.str (q.userId S.uuid)) (q.holdId S.uuid) ∨
        r.seat (seatKey q.eventId sid) = .gone))
    (fun l r ms hr => ⟨hr.1, fun hmem => held_or_gone_exec (c := .advance ms) (hr.2 hmem) id⟩)
    (fun x l r hr => by
      obtain ⟨hx, hnd⟩ := List.nodup_cons.mp hr.1
      refine ⟨hnd, fun hmem => ?_⟩
      refine held_or_gone_exec (c := .release (x.invKey S.uuid) (x.seatKeys S.uuid) (x.releaseArgs S.uuid))
        (hr.2 (List.mem_cons_of_mem _ hmem)) fun hid => hx ?_
      exact List.mem_map.mpr ⟨_, hmem, Eq.symm hid⟩)
    hpre (fun x hx => hs.sweeps x (List.mem_append_left _ hx)) hat
    ⟨hs.nodup, fun _ => hredis ▸ ho.seat hk⟩
  obtain rfl : l = q.reservation S.uuid S.holdTtl :: rest := hat'.unique ⟨_, hth, nofun, rfl⟩
  refine ⟨hseat List.mem_cons_self, fun x hx hid => (List.nodup_cons.mp hnd).1 ?_⟩
  exact List.mem_map.mpr ⟨x, hx, hid⟩

theorem swept_seat_available_iff (ho : Outstanding S q s) (hs : Swept S s t batch tr s')
    {pre post : List (Sys U × Move U)} {p : Sys U × Move U} (htr : tr = pre ++ p :: post)
    {scan : Scan U} {rest : List (Reservation U)} (hmove : p.2 = .exec t .none scan)
    (hth : p.1.threads t = some (.sweep (.script (q.reservation S.uuid S.holdTtl) rest)))
    {k : String} (hk : k ∈ q.seatKeys) : s'.world.redis.seat k = .available ↔
      p.1.world.redis.seat k ≠ .gone ∧ k ∈ (q.reservation S.uuid S.holdTtl).seatKeys S.uuid := by
  obtain ⟨sid, _, rfl⟩ := List.mem_map.mp hk
  obtain ⟨hbefore, hothers⟩ := seat_before_release ho hs htr hth hk
  subst htr
  obtain ⟨_, hrun, hat, _⟩ := hs.run
  obtain ⟨w, _, hstep, hpost⟩ := hrun.cut
  have hsweeps := fun x hx => hs.sweeps x (List.mem_append_right pre (List.mem_cons_of_mem p hx))
  obtain ⟨hredis, hat'⟩ : w.world.redis = (q.reservation S.uuid S.holdTtl).release S.uuid p.1.world.redis ∧
      w.SweepsAt t rest := by
    rw [hmove] at hstep
    cases hstep with
    | exec hth' _ _ =>
      obtain rfl := Option.some.inj (hth.symm.trans hth')
      exact ⟨rfl, .delete _ rest, by rw [Sys.threads_executed, if_pos rfl]; rfl, nofun, rfl⟩
  have hpair := seat_ttl_releaseWrites p.1.world.redis ((q.reservation S.uuid S.holdTtl).invKey S.uuid)
    ((q.reservation S.uuid S.holdTtl).seatKeys S.uuid) ((q.reservation S.uuid S.holdTtl).releaseArgs S.uuid)
    (seatKey_ne_holdKey q.eventId sid _ _)
  by_cases hfreed : p.1.world.redis.seat (seatKey q.eventId sid) ≠ .gone ∧
      seatKey q.eventId sid ∈ (q.reservation S.uuid S.holdTtl).seatKeys S.uuid
  · have hheld := hbefore.resolve_right hfreed.1
    rw [if_pos hfreed.2, released, if_pos (by rw [hheld]; rfl)] at hpair
    obtain ⟨_, _, hav, _⟩ := sweep_invariant
      (fun _ r => r.seat (seatKey q.eventId sid) = .available ∧ r.hashes.ttl (seatKey q.eventId sid) = none)
      (fun _ _ ms hr => available_exec (c := .advance ms) hr.1 hr.2 (by simp))
      (fun x _ _ hr => available_exec
        (c := .release (x.invKey S.uuid) (x.seatKeys S.uuid) (x.releaseArgs S.uuid)) hr.1 hr.2 (by simp))
      hpost hsweeps hat' (hredis ▸ Prod.mk.inj hpair)
    exact iff_of_true hav hfreed
  · have hkept : w.world.redis.seat (seatKey q.eventId sid) =
          .held (S.uuid.str (q.userId S.uuid)) (q.holdId S.uuid) ∨
        w.world.redis.seat (seatKey q.eventId sid) = .gone := by
      rw [hredis, Reservation.seat_release, if_neg]
      · exact hbefore
      · rintro ⟨hkey, hid⟩
        refine hfreed ⟨fun hgone => ?_, hkey⟩
        simp [hgone, Seat.gone] at hid
    obtain ⟨_, _, _, hseat⟩ := sweep_invariant
      (fun l r => (∀ x ∈ l, x.holdId ≠ q.holdId S.uuid) ∧ (r.seat (seatKey q.eventId sid) =
          .held (S.uuid.str (q.userId S.uuid)) (q.holdId S.uuid) ∨ r.seat (seatKey q.eventId sid) = .gone))
      (fun _ _ ms hr => ⟨hr.1, held_or_gone_exec (c := .advance ms) hr.2 id⟩)
      (fun x _ _ hr => ⟨fun y hy => hr.1 y (List.mem_cons_of_mem _ hy), held_or_gone_exec
        (c := .release (x.invKey S.uuid) (x.seatKeys S.uuid) (x.releaseArgs S.uuid)) hr.2
          (hr.1 x List.mem_cons_self)⟩)
      hpost hsweeps hat' ⟨hothers, hkept⟩
    refine iff_of_false (fun hav => ?_) hfreed
    rcases hseat with hseat | hseat <;> simp [hseat, Seat.held, Seat.gone, Seat.available] at hav

theorem swept_availableAt (ho : Outstanding S q s) (hs : Swept S s t batch tr s')
    (hres : q.reservation S.uuid S.holdTtl ∈ batch) :
    s'.world.redis.availableAt q.invKey = s.world.redis.availableAt q.invKey +
      (if (q.reservation S.uuid S.holdTtl).invKey S.uuid = q.invKey then
        (S.uuid.parsed q.seatIds).length else 0 : Nat) +
      credit S.uuid q.invKey (batch.erase (q.reservation S.uuid S.holdTtl)) := by
  have hc : credit S.uuid q.invKey batch = _ := credit_erase hres
  have hlen : (q.reservation S.uuid S.holdTtl).seatIds.length = (S.uuid.parsed q.seatIds).length := rfl
  have ha : s'.world.redis.availableAt q.invKey = s.world.redis.availableAt q.invKey +
      credit S.uuid q.invKey batch := hs.availableAt ho.inventory_ttl
  rw [ha, hc, hlen]
  push_cast
  omega

omit [DecidableEq U] in
theorem seatKeys_card_eq_iff : q.seatKeys.toFinset.card = q.seatIds.length ↔ q.seatIds.Nodup := by
  have hlen : q.seatKeys.length = q.seatIds.length := List.length_map _
  have hnd : q.seatKeys.Nodup ↔ q.seatIds.Nodup := by
    refine ⟨List.Nodup.of_map _, fun h => h.map fun a b hab => ?_⟩
    exact (seatKey_inj _ _ _).mp hab
  rw [← hnd, ← hlen]
  exact Multiset.toFinset_card_eq_card_iff_nodup (m := (q.seatKeys : Multiset String))

/-- A sweep puts an outstanding hold back into the pool exactly when, at its release call, no
seat hash has timed out and the row names each key of the hold once. -/
theorem expired_hold_returned_iff (ho : Outstanding S q s) (hs : Swept S s t batch tr s')
    (hres : q.reservation S.uuid S.holdTtl ∈ batch) :
    ∃ p ∈ tr, ∃ scan rest, p.2 = .exec t .none scan ∧
      p.1.threads t = some (.sweep (.script (q.reservation S.uuid S.holdTtl) rest)) ∧
      (Returned S q batch s.world.redis s'.world.redis ↔ q.Reapable S.uuid p.1.world.redis) := by
  have hne := ho.seatIds_ne_nil
  have hav := swept_availableAt ho hs hres
  obtain ⟨u, hrun, hat, _⟩ := hs.run
  obtain ⟨p, hp, scan, rest, hmove, hth⟩ :=
    released_between hrun hs.sweeps hat hres hs.finished_at List.not_mem_nil
  refine ⟨p, hp, scan, rest, hmove, hth, ?_⟩
  obtain ⟨pre, post, htr⟩ := List.append_of_mem hp
  constructor
  · intro h
    have hseat := fun k hk => (swept_seat_available_iff ho hs htr hmove hth hk).mp (h.seats k hk)
    have hcan := (reservation_covers_iff hne).mp fun k hk => (hseat k hk).2
    have hpos : 0 < q.seatKeys.toFinset.card := by
      obtain ⟨sid, hsid⟩ := List.exists_mem_of_ne_nil _ hne
      exact Finset.card_pos.mpr ⟨_, List.mem_toFinset.mpr (List.mem_map.mpr ⟨sid, hsid, rfl⟩)⟩
    have hparsed := S.uuid.length_parsed hcan.2
    have hgain := h.available
    by_cases hinv : (q.reservation S.uuid S.holdTtl).invKey S.uuid = q.invKey
    · rw [if_pos hinv] at hav
      have hcat := (braced_inj (S.uuid.str_plain _) (S.uuid.str_plain _)
        (by simpa [HoldRequest.invKey, Reservation.invKey, inventoryKey, String.append_assoc]
          using hinv.symm)).2
      exact ⟨hcan, hcat ▸ S.uuid.canonical_str _, seatKeys_card_eq_iff.mp (by omega),
        fun k hk => (hseat k hk).1⟩
    · rw [if_neg hinv] at hav
      omega
  · rintro ⟨hcan, hcat, hnd, hthere⟩
    have hseats : ∀ k ∈ q.seatKeys, s'.world.redis.seat k = .available := fun k hk =>
      (swept_seat_available_iff ho hs htr hmove hth hk).mpr
        ⟨hthere k hk, (reservation_covers_iff hne).mpr hcan k hk⟩
    refine ⟨hseats, fun ks hks => ?_, ?_⟩
    · rw [List.find?_eq_none]
      intro k hk
      have hst := congrArg Seat.status (hseats k (hks k hk))
      simpa [Redis.seat, Seat.available] using hst
    · have hparsed := S.uuid.length_parsed hcan.2
      have hinv : (q.reservation S.uuid S.holdTtl).invKey S.uuid = q.invKey :=
        congrArg₂ inventoryKey hcan.1 hcat
      rw [if_pos hinv, hparsed, ← seatKeys_card_eq_iff.mpr hnd] at hav
      exact hav

end Outstanding

section Demo

def demoExpiry (cues : List (Cue DemoId)) (p : List (Sys DemoId × Move DemoId) → Sys DemoId → Bool) :
    Bool :=
  (demoService.play demoSys (served 0 (.hold demoHoldRequest) 2)).any fun x =>
    (demoService.play (x.2.executed demoService 0 (.hold demoHoldRequest (.script 4)) .none x.2.scan)
        cues).any fun y =>
      (demoService.play (y.2.executed demoService 1 (.sweep .fetch) .none y.2.scan)
          [.advanceRedis 1, .run 1 .none, .run 1 .none]).any fun z =>
        decide (x.2.threads 0 = some (.hold demoHoldRequest (.script 4)) ∧
          holdRefusal x.2.world.redis demoHoldRequest.invKey demoHoldRequest.seatKeys
            (demoHoldRequest.args DemoId.lib demoTtl 4) = none ∧
          (∀ c ∈ y.1, ∀ d ∈ demoService.call c.1 c.2,
            ¬ d.Ends (demoHoldRequest.holdId DemoId.lib) c.1.world.redis) ∧
          y.2.threads 1 = some (.sweep .fetch) ∧
          demoHoldRequest.reservation DemoId.lib demoTtl ∈
            y.2.world.db.expiredReservations y.2.scan.reservations SweepPc.batchSize ∧
          (∀ c ∈ z.1, c.2.Sweeps 1) ∧ z.2.threads 1 = some (.sweep (.done true)) ∧
          p z.1 z.2 = true)

theorem of_demoExpiry (cues : List (Cue DemoId)) (p : List (Sys DemoId × Move DemoId) → Sys DemoId → Bool)
    (h : demoExpiry cues p = true) : ∃ s batch tr s', Outstanding demoService demoHoldRequest s ∧
      Swept demoService s 1 batch tr s' ∧ demoHoldRequest.reservation DemoId.lib demoTtl ∈ batch ∧
      p tr s' = true := by
  unfold demoExpiry at h
  obtain ⟨tr₁, s₁, hrun₁, h1⟩ := Service.run_of_play h
  obtain ⟨tr₂, s, hrun₂, h2⟩ := Service.run_of_play h1
  obtain ⟨tr₃, s', hrun₃, h3⟩ := Service.run_of_play h2
  obtain ⟨hth, href, hopen, hfetch, hres, hsweeps, hdone, hp⟩ := of_decide_eq_true h3
  have hout : Outstanding demoService demoHoldRequest s :=
    ⟨demoSys, s₁, tr₁, tr₂, 0, 4, _, rfl, by decide, hrun₁, hth, href, hrun₂, hopen⟩
  exact ⟨s, _, tr₃, s', hout, ⟨⟨s.scan, hfetch, s.scan_of, rfl, hrun₃⟩, hsweeps, true, hdone⟩, hres, hp⟩

theorem demo_hold_returned : ∃ (s s' : Sys DemoId) (batch : List (Reservation DemoId)),
    Outstanding demoService demoHoldRequest s ∧ (∃ t tr, Swept demoService s t batch tr s') ∧
    Returned demoService demoHoldRequest batch s.world.redis s'.world.redis := by
  obtain ⟨s, batch, tr, s', ho, hs, hres, hp⟩ := of_demoExpiry
    [.run 0 .none, .advanceRedis 599000, .advancePostgres 600001000, .spawn 1 .sweep]
    (fun tr _ => decide (∀ c ∈ tr, demoHoldRequest.Reapable DemoId.lib c.1.world.redis)) (by decide +kernel)
  obtain ⟨c, hc, _, _, _, _, hiff⟩ := expired_hold_returned_iff ho hs hres
  exact ⟨s, s', batch, ho, ⟨1, tr, hs⟩, hiff.mpr (of_decide_eq_true hp c hc)⟩

/-- The seat hash has timed out when the sweep comes, and the seat stays gone. -/
theorem timed_out_hold_not_returned : ¬ ∀ (q : HoldRequest DemoId) (s s' : Sys DemoId) (t : Nat)
    (batch : List (Reservation DemoId)) (tr : List (Sys DemoId × Move DemoId)),
    Outstanding demoService q s → Swept demoService s t batch tr s' →
    q.reservation DemoId.lib demoTtl ∈ batch →
    Returned demoService q batch s.world.redis s'.world.redis := by
  intro h
  obtain ⟨s, batch, tr, s', ho, hs, hres, hp⟩ := of_demoExpiry
    [.run 0 .none, .advanceRedis 601000, .advancePostgres 601000000, .spawn 1 .sweep]
    (fun _ s' => decide (s'.world.redis.seat (seatKey demoEvent demoSeat) = .gone))
    (by decide +kernel)
  have hav := (h demoHoldRequest s s' 1 batch tr ho hs hres).seats (seatKey demoEvent demoSeat)
    (List.mem_singleton.mpr rfl)
  rw [of_decide_eq_true hp] at hav
  simp [Seat.gone, Seat.available] at hav

end Demo

end CrowdTic
