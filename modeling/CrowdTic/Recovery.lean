import CrowdTic.Origins

/-! The row that mirrors a hold, and the seat keys that a release and the
reaper rebuild from it. The hold script locks keys made of the client's
strings, and the row keeps UUIDs. -/

namespace CrowdTic

section Keys

variable {U : Type}

/-- The ids that name the seat keys print as they were sent. -/
def HoldRequest.CanonicalIds (L : UuidLib U) (q : HoldRequest U) : Prop :=
  L.Canonical q.eventId ∧ ∀ s ∈ q.seatIds, L.Canonical s

instance [DecidableEq U] (L : UuidLib U) (q : HoldRequest U) : Decidable (q.CanonicalIds L) :=
  inferInstanceAs (Decidable (_ ∧ _))

theorem HoldRequest.CanonicalIds.seatKeys_eq {L : UuidLib U} {q : HoldRequest U}
    (h : q.CanonicalIds L) (ttl : ℕ+) : (q.reservation L ttl).seatKeys L = q.seatKeys := by
  have hmap := congrArg (List.map (seatKey q.eventId)) (L.map_str_parsed h.2)
  rw [List.map_map] at hmap
  rw [HoldRequest.seatKeys, ← hmap]
  exact List.map_congr_left fun u _ => congrArg (seatKey · (L.str u)) h.1

theorem reservation_covers_iff {L : UuidLib U} {ttl : ℕ+} {q : HoldRequest U} (hne : q.seatIds ≠ []) :
    (∀ k ∈ q.seatKeys, k ∈ (q.reservation L ttl).seatKeys L) ↔ q.CanonicalIds L := by
  constructor
  · intro h
    have hkey : ∀ s ∈ q.seatIds, L.Canonical q.eventId ∧ L.Canonical s := by
      intro s hs
      obtain ⟨u, _, hu⟩ := List.mem_map.mp (h (seatKey q.eventId s) (List.mem_map.mpr ⟨s, hs, rfl⟩))
      have hi := seatKey_braced_inj (L.str_plain _) (L.str_plain u) hu.symm
      exact ⟨hi.1 ▸ L.canonical_str _, hi.2 ▸ L.canonical_str u⟩
    obtain ⟨s, hs⟩ := List.exists_mem_of_ne_nil _ hne
    exact ⟨(hkey s hs).1, fun x hx => (hkey x hx).2⟩
  · exact fun h k hk => h.seatKeys_eq ttl ▸ hk

theorem reservation_seatKeys_perm_iff {L : UuidLib U} {ttl : ℕ+} {q : HoldRequest U}
    (hne : q.seatIds ≠ []) :
    ((q.reservation L ttl).seatKeys L).Perm q.seatKeys ↔ q.CanonicalIds L := by
  constructor
  · exact fun h => (reservation_covers_iff hne).mp fun k hk => h.mem_iff.mpr hk
  · exact fun h => h.seatKeys_eq ttl ▸ .refl _

/-- A row with the hold id exists, and the keys rebuilt from it are the locked ones. -/
def Recoverable (L : UuidLib U) (db : Db U) (holdId : String) (seatKeys : List String) : Prop :=
  ∃ res ∈ db.reservations.rows, res.holdId = holdId ∧ (res.seatKeys L).Perm seatKeys

instance (L : UuidLib U) (db : Db U) (holdId : String) (ks : List String) :
    Decidable (Recoverable L db holdId ks) := inferInstanceAs (Decidable (∃ _ ∈ _, _))

theorem not_recoverable {L : UuidLib U} {db : Db U} {h : String} {ks : List String}
    (hnew : db.reservations.find h = none) : ¬ Recoverable L db h ks := by
  rintro ⟨res, hres, hid, _⟩
  exact (Reservations.find_eq_none_iff _).mp hnew res hres hid

theorem recoverable_inserted_iff [DecidableEq U] {L : UuidLib U} {db db' : Db U} {r : Reservation U}
    {ks : List String} (hnew : db.reservations.find r.holdId = none)
    (h : db.insertReservation r = some db') :
    Recoverable L db' r.holdId ks ↔ (r.seatKeys L).Perm ks := by
  have hmem (x : Reservation U) : x ∈ db'.reservations.rows ↔ x ∈ db.reservations.rows ∨ x = r := by
    rw [Db.insertReservation_eq h]
    exact Reservations.mem_insert _ hnew
  constructor
  · rintro ⟨res, hres, hid, hperm⟩
    rcases (hmem res).mp hres with hold | rfl
    · exact absurd hid ((Reservations.find_eq_none_iff _).mp hnew res hold)
    · exact hperm
  · exact fun hperm => ⟨r, (hmem r).mpr (.inr rfl), rfl, hperm⟩

/-- The row breaks no constraint, and its `INSERT` is carried out. -/
def HoldRequest.Mirrors (S : Service U) (q : HoldRequest U) (db : Db U) (f : Fault) : Prop :=
  f.takes = true ∧ db.now < (q.reservation S.uuid S.holdTtl).expiresAt ∧
    db.RefersToRows (q.reservation S.uuid S.holdTtl)

instance (S : Service U) (q : HoldRequest U) (db : Db U) (f : Fault) :
    Decidable (q.Mirrors S db f) := inferInstanceAs (Decidable (_ ∧ _ ∧ _))

end Keys

section Runs

variable {U : Type} [DecidableEq U] {S : Service U} {s₀ s : Sys U} {tr : List (Sys U × Move U)}
  {t : Nat} {q : HoldRequest U}

theorem hold_counted {m : Nat} (h0 : s₀.threads t = none) (hrun : Run S.Step s₀ tr s)
    (hth : s.threads t = some (.hold q (.script m))) : q.seatIds ≠ [] := by
  rcases Service.hold_came hrun h0 hth with hq | ⟨_, _, _, _, _, hturn⟩
  · rcases q.start_cases S.uuid with hq' | ⟨_, hq'⟩ <;> simp [hq'] at hq
  · cases hturn with
    | counted hne => exact hne

theorem hold_locked (h0 : s₀.threads t = none) (hrun : Run S.Step s₀ tr s)
    (hth : s.threads t = some (.hold q .mirror)) : q.seatIds ≠ [] ∧
      ∃ p ∈ tr, ∃ scan m, p.2 = .exec t .none scan ∧ p.1.threads t = some (.hold q (.script m)) ∧
        holdRefusal p.1.world.redis q.invKey q.seatKeys (q.args S.uuid S.holdTtl m) = none := by
  rcases Service.hold_came hrun h0 hth with hq | ⟨pc, p, f, scan, hm, hturn⟩
  · rcases q.start_cases S.uuid with hq' | ⟨_, hq'⟩ <;> simp [hq'] at hq
  · cases hturn with
    | @locked m hf href =>
      obtain ⟨_, _, _, hpre⟩ := hm.run
      exact ⟨hold_counted h0 hpre hm.thread, p, hm.mem, scan, m, hf ▸ hm.move, hm.thread, href⟩

/-- When a hold is answered 201, its script has locked the listed keys, and the
database can give them back exactly when the row was inserted and all ids are canonical. -/
theorem held_recoverable_iff (hb : Booted S s₀) (hrun : Run S.Step s₀ tr s)
    {p : Sys U × Move U} (hp : p ∈ tr) {f : Fault} {scan : Scan U} {pc : HoldPc U}
    (hmove : p.2 = .exec t f scan) (hth : p.1.threads t = some (.hold q pc))
    {h : String} {x : Int} {n : ℕ+} {k : Nat}
    (hans : q.resume S.uuid S.holdTtl p.1.world f scan pc = .done (.held h x n k)) :
    (∃ p₀ ∈ tr, ∃ scan₀ m, p₀.2 = .exec t .none scan₀ ∧
        p₀.1.threads t = some (.hold q (.script m)) ∧
        holdRefusal p₀.1.world.redis q.invKey q.seatKeys (q.args S.uuid S.holdTtl m) = none) ∧
      (Recoverable S.uuid (p.1.executed S t (.hold q pc) f scan).world.db h q.seatKeys ↔
        q.Mirrors S p.1.world.db f ∧ q.CanonicalIds S.uuid) := by
  have hm := Service.made_of_mem hrun hp hmove hth
  obtain ⟨pre, post, rfl, hpre⟩ := hm.run
  have hturn : HoldRequest.Turn S.uuid S.holdTtl q p.1.world f scan pc _ :=
    HoldRequest.turn_resume f scan pc
  rw [hans] at hturn
  cases hturn with
  | stay => exact absurd hm.running (by simp [Thread.finished])
  | answered =>
    obtain ⟨hne, p₀, hp₀, hscript⟩ := hold_locked (hb.idle t) hpre hth
    refine ⟨⟨p₀, List.mem_append_left _ hp₀, hscript⟩, ?_⟩
    have hnew : p.1.world.db.getReservation (q.reservation S.uuid S.holdTtl).holdId = none :=
      Service.holdId_unused hb (Service.origins_run hb hpre) hth nofun
    rw [← reservation_seatKeys_perm_iff (L := S.uuid) hne, HoldRequest.Mirrors,
      ← Db.insertReservation_isSome_iff hnew]
    by_cases hf : f.takes = true
    · cases hdb : p.1.world.db.insertReservation (q.reservation S.uuid S.holdTtl) with
      | none =>
        simpa [Sys.executed, Thread.effect, HoldRequest.effect, hf, hdb] using not_recoverable hnew
      | some db' =>
        have hr : Recoverable S.uuid db' _ q.seatKeys ↔ _ := recoverable_inserted_iff hnew hdb
        simpa [Sys.executed, Thread.effect, HoldRequest.effect, hf, hdb] using hr
    · simpa [Sys.executed, hf] using not_recoverable hnew

end Runs

section Demo

theorem demoSys_booted : Booted demoService demoSys := .of_empty (fun _ => rfl) rfl rfl

theorem demo_hold_recoverable : ∃ s : Sys DemoId,
    (∃ tr, Run demoService.Step demoSys tr s) ∧ s.threads 0 = some (.hold demoHoldRequest .mirror) ∧
    Recoverable DemoId.lib (s.executed demoService 0 (.hold demoHoldRequest .mirror) .none s.scan).world.db
      (demoHoldRequest.holdId DemoId.lib) demoHoldRequest.seatKeys := by
  have hplay : ((demoService.play demoSys (served 0 (.hold demoHoldRequest) 3)).any fun x =>
      decide (x.2.threads 0 = some (.hold demoHoldRequest .mirror) ∧
        demoHoldRequest.Mirrors demoService x.2.world.db .none)) = true := by
    decide +kernel
  obtain ⟨tr, s, hrun, hp⟩ := Service.run_of_play hplay
  obtain ⟨hth, hmirrors⟩ := of_decide_eq_true hp
  exact ⟨s, ⟨tr, hrun⟩, hth, (held_recoverable_iff demoSys_booted
    (hrun.snoc (.exec hth rfl s.scan_of)) List.mem_concat_self
    rfl hth rfl).2.mpr ⟨hmirrors, by decide +kernel⟩⟩

def demoSeeded : Sys DemoId :=
  { demoSys with world := { demoSys.world with redis := { demoRedis with
      hashes := ExpMap.put demoRedis.hashes (seatKey demoEvent (demoVip ++ ":A-0001"))
        (Hash.empty.setText .status (some "AVAILABLE")) none } } }

def demoSeededRequest : HoldRequest DemoId :=
  { demoHoldRequest with seatIds := [demoVip ++ ":A-0001"] }

theorem seeded_hold_not_recoverable : ¬ ∀ (s₀ s : Sys DemoId) (tr : List (Sys DemoId × Move DemoId))
    (p : Sys DemoId × Move DemoId) (t : Nat) (f : Fault) (scan : Scan DemoId)
    (q : HoldRequest DemoId) (pc : HoldPc DemoId) (h : String) (x : Int) (n : ℕ+) (k : Nat),
    Booted demoService s₀ → Run demoService.Step s₀ tr s → p ∈ tr → p.2 = .exec t f scan →
    p.1.threads t = some (.hold q pc) →
    q.resume DemoId.lib 600 p.1.world f scan pc = .done (.held h x n k) →
    Recoverable DemoId.lib (p.1.executed demoService t (.hold q pc) f scan).world.db h q.seatKeys := by
  intro h
  have hplay : ((demoService.play demoSeeded (served 0 (.hold demoSeededRequest) 3)).any fun x =>
      decide (x.2.threads 0 = some (.hold demoSeededRequest .mirror) ∧
        ¬ Recoverable DemoId.lib (x.2.executed demoService 0 (.hold demoSeededRequest .mirror) .none
          x.2.scan).world.db (demoSeededRequest.holdId DemoId.lib) demoSeededRequest.seatKeys)) = true := by
    decide +kernel
  obtain ⟨tr, s, hrun, hp⟩ := Service.run_of_play hplay
  obtain ⟨hth, hlost⟩ := of_decide_eq_true hp
  exact hlost (h demoSeeded _ _ _ 0 .none s.scan _ _ _ _ _ _ (.of_empty (fun _ => rfl) rfl rfl)
    (hrun.snoc (.exec hth rfl s.scan_of)) List.mem_concat_self
    rfl hth rfl)

end Demo

end CrowdTic
