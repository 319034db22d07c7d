import CrowdTic.CommitHandler
import CrowdTic.HoldHandler
import CrowdTic.ReleaseHandler

/-! The booking service as a system of threads. Each request and each sweep is
a thread, on whatever instance it runs, and a step of the system is one call
of one thread to a store, or time passing in a store. -/

namespace CrowdTic

structure Service (U : Type) where
  uuid : UuidLib U
  holdTtl : ℕ+

inductive Request (U : Type)
  | hold (q : HoldRequest U)
  | commit (q : CommitRequest U)
  | release (q : ReleaseRequest)
  | sweep

inductive Thread (U : Type)
  | hold (q : HoldRequest U) (pc : HoldPc U)
  | commit (q : CommitRequest U) (pc : CommitPc U)
  | release (q : ReleaseRequest) (pc : ReleasePc U)
  | sweep (pc : SweepPc U)
  deriving DecidableEq

structure Sys (U : Type) where
  world : World U
  threads : Nat → Option (Thread U)
  /-- The UUIDs that have been drawn, which are not drawn again. -/
  drawn : List U

inductive Move (U : Type)
  | spawn (t : Nat) (req : Request U)
  | exec (t : Nat) (f : Fault) (scan : Scan U)
  | advanceRedis (ms : Nat)
  | advancePostgres (us : Nat)

variable {U : Type}

def Request.draws : Request U → List U
  | .hold q => [q.draw]
  | .commit q => [q.draw]
  | _ => []

def Request.thread (L : UuidLib U) : Request U → Thread U
  | .hold q => .hold q (q.start L)
  | .commit q => .commit q .idempotency
  | .release q => .release q q.start
  | .sweep => .sweep .start

def Move.fault : Move U → Fault
  | .exec _ f _ => f
  | _ => .none

namespace Thread

def finished : Thread U → Bool
  | .hold _ (.done _) => true
  | .commit _ (.done _) => true
  | .release _ (.done _) => true
  | .sweep (.done _) => true
  | _ => false

def call (S : Service U) : Thread U → Option Call
  | .hold q (.script m) => some (.hold q.invKey q.seatKeys (q.args S.uuid S.holdTtl m))
  | .commit q (.script seatIds catId) =>
    some (.commit (q.invKey S.uuid catId) (q.seatKeys seatIds) (q.args S.uuid))
  | .release _ (.script res) =>
    some (.release (res.invKey S.uuid) (res.seatKeys S.uuid) (res.releaseArgs S.uuid))
  | .sweep (.script res _) =>
    some (.release (res.invKey S.uuid) (res.seatKeys S.uuid) (res.releaseArgs S.uuid))
  | _ => none

variable [DecidableEq U]

def effect (S : Service U) (w : World U) : Thread U → World U
  | .hold q pc => q.effect S.uuid S.holdTtl w pc
  | .commit q pc => q.effect S.uuid w pc
  | .release _ pc => ReleaseRequest.effect S.uuid w pc
  | .sweep pc => SweepPc.effect S.uuid w pc

def resume (S : Service U) (w : World U) (f : Fault) (scan : Scan U) : Thread U → Thread U
  | .hold q pc => .hold q (q.resume S.uuid S.holdTtl w f scan pc)
  | .commit q pc => .commit q (q.resume S.uuid w f scan pc)
  | .release q pc => .release q (q.resume S.uuid w f pc)
  | .sweep pc => .sweep (SweepPc.resume w f scan pc)

theorem effect_redis (S : Service U) (w : World U) (th : Thread U) :
    (th.effect S w).redis = ((th.call S).map fun c => c.exec w.redis).getD w.redis := by
  cases th with
  | hold q pc => cases pc <;> rfl
  | commit q pc => cases pc <;> rfl
  | release q pc => cases pc <;> rfl
  | sweep pc => cases pc <;> rfl

end Thread

namespace Sys

variable [DecidableEq U] (S : Service U) (s : Sys U)

def setThread (t : Nat) (th : Thread U) : Sys U :=
  { s with threads := fun i => if i = t then some th else s.threads i }

def spawned (t : Nat) (req : Request U) : Sys U :=
  { s.setThread t (req.thread S.uuid) with drawn := req.draws ++ s.drawn }

def executed (t : Nat) (th : Thread U) (f : Fault) (scan : Scan U) : Sys U :=
  { s.setThread t (th.resume S s.world f scan) with
    world := if f.takes then th.effect S s.world else s.world }

omit [DecidableEq U] in
@[simp] theorem threads_spawned (t : Nat) (req : Request U) (i : Nat) :
    (s.spawned S t req).threads i = if i = t then some (req.thread S.uuid) else s.threads i := rfl

@[simp] theorem threads_executed (t : Nat) (th : Thread U) (f : Fault) (scan : Scan U) (i : Nat) :
    (s.executed S t th f scan).threads i =
      if i = t then some (th.resume S s.world f scan) else s.threads i := rfl

def advanceRedis (ms : Nat) : Sys U :=
  { s with world := { s.world with redis := s.world.redis.advance ms } }

def advancePostgres (us : Nat) : Sys U :=
  { s with world := { s.world with db := { s.world.db with now := s.world.db.now + us } } }

end Sys

variable [DecidableEq U]

/-- A scan meets the rows of the two tables in any order. -/
structure Scan.Of (scan : Scan U) (db : Db U) : Prop where
  orders : scan.orders.Perm db.orders
  reservations : scan.reservations.Perm db.reservations.rows

def Sys.scan (s : Sys U) : Scan U := ⟨s.world.db.orders, s.world.db.reservations.rows⟩

omit [DecidableEq U] in
theorem Sys.scan_of (s : Sys U) : s.scan.Of s.world.db := ⟨.refl _, .refl _⟩

namespace Service

variable (S : Service U)

inductive Step : Sys U → Move U → Sys U → Prop
  | spawn {s : Sys U} {t : Nat} {req : Request U} (hfree : s.threads t = none)
      (hfresh : ∀ u ∈ req.draws, u ∉ s.drawn) : Step s (.spawn t req) (s.spawned S t req)
  | exec {s : Sys U} {t : Nat} {th : Thread U} {f : Fault} {scan : Scan U}
      (hth : s.threads t = some th) (hrun : th.finished = false) (hscan : scan.Of s.world.db) :
      Step s (.exec t f scan) (s.executed S t th f scan)
  | advanceRedis {s : Sys U} (ms : Nat) : Step s (.advanceRedis ms) (s.advanceRedis ms)
  | advancePostgres {s : Sys U} (us : Nat) : Step s (.advancePostgres us) (s.advancePostgres us)

def call (s : Sys U) : Move U → Option Call
  | .exec t f _ => if f.takes then (s.threads t).bind (Thread.call S) else none
  | .advanceRedis ms => some (.advance ms)
  | _ => none

variable {S} {s s' : Sys U} {m : Move U}

theorem exec_redis {t : Nat} {th : Thread U} {f : Fault} {scan : Scan U}
    (hth : s.threads t = some th) : (s.executed S t th f scan).world.redis =
      ((S.call s (.exec t f scan)).map fun c => c.exec s.world.redis).getD s.world.redis := by
  by_cases hf : f.takes = true
  · simp [Sys.executed, call, hf, hth, th.effect_redis]
  · simp [Sys.executed, call, hf]

theorem Step.redis_idle (h : S.Step s m s') (hc : S.call s m = none) :
    s'.world.redis = s.world.redis := by
  cases h with
  | spawn => rfl
  | exec hth _ _ => rw [exec_redis hth, hc]; rfl
  | advanceRedis ms => simp [call] at hc
  | advancePostgres us => rfl

theorem Step.redis_call {c : Call} (h : S.Step s m s') (hc : S.call s m = some c) :
    CallStep s.world.redis c s'.world.redis := by
  cases h with
  | spawn => simp [call] at hc
  | exec hth _ _ => rw [CallStep, exec_redis hth, hc]; rfl
  | advanceRedis ms => cases hc; rfl
  | advancePostgres us => simp [call] at hc

theorem run_redis {tr : List (Sys U × Move U)} (h : Run S.Step s tr s') :
    Run CallStep s.world.redis
      (tr.filterMap fun p => (S.call p.1 p.2).map (p.1.world.redis, ·)) s'.world.redis :=
  h.simulate (fun s => s.world.redis) S.call (fun _ _ _ => Step.redis_idle)
    fun _ _ _ _ => Step.redis_call

omit [DecidableEq U] in
theorem mem_run_redis {tr : List (Sys U × Move U)} {r : Redis} {c : Call}
    (h : (r, c) ∈ tr.filterMap fun p => (S.call p.1 p.2).map (p.1.world.redis, ·)) :
    ∃ p ∈ tr, S.call p.1 p.2 = some c ∧ p.1.world.redis = r := by
  obtain ⟨p, hp, hpc⟩ := List.mem_filterMap.mp h
  obtain ⟨c', hc', he⟩ := Option.map_eq_some_iff.mp hpc
  obtain ⟨hr, rfl⟩ := Prod.mk.inj he
  exact ⟨p, hp, hc', hr⟩

omit [DecidableEq U] in
theorem call_shaped {c : Call} (h : S.call s m = some c) : c.Shaped := by
  have hmap {e : String} {ss : List String} : ∀ k ∈ ss.map (seatKey e), ∃ x, k = seatKey e x := by
    intro k hk
    obtain ⟨x, _, rfl⟩ := List.mem_map.mp hk
    exact ⟨x, rfl⟩
  cases m with
  | spawn | advancePostgres => cases h
  | advanceRedis ms =>
    cases h
    trivial
  | exec t f scan =>
    rw [call] at h
    split at h
    · obtain ⟨th, _, hcall⟩ := Option.bind_eq_some_iff.mp h
      cases th with
      | hold q pc =>
        cases pc <;> cases hcall
        exact hmap
      | commit q pc =>
        cases pc <;> cases hcall
        exact hmap
      | release q pc =>
        cases pc <;> cases hcall
        exact Reservation.seatKeys_shaped S.uuid _
      | sweep pc =>
        cases pc <;> cases hcall
        exact Reservation.seatKeys_shaped S.uuid _
    · cases h

theorem inventory_ttl_run {tr : List (Sys U × Move U)} {e i : String} (hrun : Run S.Step s tr s')
    (h : s.world.redis.hashes.ttl (inventoryKey e i) = none) :
    s'.world.redis.hashes.ttl (inventoryKey e i) = none :=
  (run_redis hrun).invariant (fun r => r.hashes.ttl (inventoryKey e i) = none) (fun _ c => c.Shaped)
    (fun _ _ _ hr hc hstep => hstep ▸ inventory_ttl_exec hc hr) h fun _ hp => by
      obtain ⟨_, _, hcall, _⟩ := mem_run_redis hp
      exact call_shaped hcall

end Service

/-- A move of a run that is played out. Scans meet the rows as they are stored. -/
inductive Cue (U : Type)
  | spawn (t : Nat) (req : Request U)
  | run (t : Nat) (f : Fault)
  | advanceRedis (ms : Nat)
  | advancePostgres (us : Nat)

namespace Service

variable (S : Service U)

def cue (s : Sys U) : Cue U → Option (Move U × Sys U)
  | .spawn t req =>
    if (s.threads t).isNone ∧ ∀ u ∈ req.draws, u ∉ s.drawn then
      some (.spawn t req, s.spawned S t req)
    else none
  | .run t f =>
    match s.threads t with
    | none => none
    | some th =>
      if th.finished then none else some (.exec t f s.scan, s.executed S t th f s.scan)
  | .advanceRedis ms => some (.advanceRedis ms, s.advanceRedis ms)
  | .advancePostgres us => some (.advancePostgres us, s.advancePostgres us)

def play (s : Sys U) : List (Cue U) → Option (List (Sys U × Move U) × Sys U)
  | [] => some ([], s)
  | a :: as =>
    match cue S s a with
    | none => none
    | some (m, u) => (play u as).map fun x => ((s, m) :: x.1, x.2)

variable {S}

theorem cue_step {s s' : Sys U} {a : Cue U} {m : Move U} (h : S.cue s a = some (m, s')) :
    S.Step s m s' := by
  cases a with
  | spawn t req =>
    by_cases hc : (s.threads t).isNone ∧ ∀ u ∈ req.draws, u ∉ s.drawn
    · rw [cue, if_pos hc] at h
      cases h
      exact .spawn (Option.isNone_iff_eq_none.mp hc.1) hc.2
    · rw [cue, if_neg hc] at h
      cases h
  | run t f =>
    cases hth : s.threads t with
    | none => simp [cue, hth] at h
    | some th =>
      cases hf : th.finished with
      | true => simp [cue, hth, hf] at h
      | false =>
        simp only [cue, hth, hf, Bool.false_eq_true, if_false, Option.some.injEq] at h
        cases h
        exact .exec hth hf s.scan_of
  | advanceRedis ms => cases h; exact .advanceRedis ms
  | advancePostgres us => cases h; exact .advancePostgres us

theorem play_run {s s' : Sys U} {as : List (Cue U)} {tr : List (Sys U × Move U)}
    (h : S.play s as = some (tr, s')) : Run S.Step s tr s' := by
  induction as generalizing s tr with
  | nil => cases h; exact .nil
  | cons a as ih =>
    cases ht : S.cue s a with
    | none => simp [play, ht] at h
    | some x =>
      rw [play, ht] at h
      obtain ⟨y, hy, he⟩ := Option.map_eq_some_iff.mp h
      cases he
      exact (Run.single (cue_step ht)).append (ih hy)

theorem run_of_play {s : Sys U} {as : List (Cue U)} {p : List (Sys U × Move U) × Sys U → Bool}
    (h : (S.play s as).any p = true) : ∃ tr s', Run S.Step s tr s' ∧ p (tr, s') = true := by
  obtain ⟨x, hx, hp⟩ := (Option.any_eq_true _ _).mp h
  exact ⟨x.1, x.2, play_run hx, hp⟩

theorem runs_of_play {s : Sys U} {as bs : List (Cue U)}
    {p : List (Sys U × Move U) × Sys U → List (Sys U × Move U) × Sys U → Bool}
    (h : ((S.play s as).any fun x => (S.play x.2 bs).any (p x)) = true) :
    ∃ tr s' tr' s'', Run S.Step s tr s' ∧ Run S.Step s' tr' s'' ∧ p (tr, s') (tr', s'') = true := by
  obtain ⟨tr, s', hrun, hp⟩ := run_of_play h
  obtain ⟨tr', s'', hrun', hp'⟩ := run_of_play hp
  exact ⟨tr, s', tr', s'', hrun, hrun', hp'⟩

end Service

section Demo

inductive DemoId
  | zero | event | vip | regular | user | user' | hold | hold' | seat | seat' | order | order'
  | key | key'
  deriving DecidableEq

namespace DemoId

def str : DemoId → String
  | zero => "00000000-0000-0000-0000-000000000000"
  | event => "550e8400-e29b-41d4-a716-446655440010"
  | vip => "550e8400-e29b-41d4-a716-446655440020"
  | regular => "550e8400-e29b-41d4-a716-446655440021"
  | user => "550e8400-e29b-41d4-a716-446655440030"
  | user' => "550e8400-e29b-41d4-a716-446655440031"
  | hold => "550e8400-e29b-41d4-a716-446655440040"
  | hold' => "550e8400-e29b-41d4-a716-446655440041"
  | seat => "550e8400-e29b-41d4-a716-446655440050"
  | seat' => "550e8400-e29b-41d4-a716-446655440051"
  | order => "550e8400-e29b-41d4-a716-446655440060"
  | order' => "550e8400-e29b-41d4-a716-446655440061"
  | key => "550e8400-e29b-41d4-a716-446655440070"
  | key' => "550e8400-e29b-41d4-a716-446655440071"

def all : List DemoId :=
  [zero, event, vip, regular, user, user', hold, hold', seat, seat', order, order', key, key']

def lib : UuidLib DemoId where
  parse s := ((all.find? fun u => u.str = s).map (·, true)).getD (zero, false)
  str := str
  zero := zero
  parse_str u := by cases u <;> decide +kernel
  str_plain u := by cases u <;> decide +kernel

end DemoId

def demoService : Service DemoId := ⟨DemoId.lib, demoTtl⟩

def demoDb : Db DemoId where
  users u := u = .user ∨ u = .user'
  events u := if u = .event then some ⟨4, by decide⟩ else none
  categories
    | .vip => some ⟨1500000⟩
    | .regular => some ⟨500000⟩
    | _ => none
  seats
    | .seat => some ⟨.vip, .available, 1⟩
    | .seat' => some ⟨.regular, .available, 1⟩
    | _ => none
  reservations := ⟨[], List.nodup_nil⟩
  orders := []
  orderItems := []
  payments := []
  now := 1790000000000000

def demoSys : Sys DemoId := ⟨⟨demoRedis, demoDb⟩, fun _ => none, []⟩

def demoHoldRequest : HoldRequest DemoId where
  eventId := DemoId.event.str
  categoryId := DemoId.vip.str
  seatIds := [DemoId.seat.str]
  idempotencyKey := DemoId.key.str
  required := by decide
  queueUserId := DemoId.user.str
  queueEventId := DemoId.event.str
  draw := .hold
  nowMs := 1790000000000

def demoCommitRequest : CommitRequest DemoId where
  holdId := DemoId.hold.str
  idempotencyKey := DemoId.key.str
  seatIds := [DemoId.seat.str]
  required := by decide
  queueUserId := DemoId.user.str
  queueEventId := DemoId.event.str
  draw := .order
  nowMs := 1790000001000

def demoReleaseRequest : ReleaseRequest := ⟨DemoId.hold.str, DemoId.user.str⟩

def demoRetry (k : String) (hk : k ≠ "") (draw : DemoId) : CommitRequest DemoId :=
  { demoCommitRequest with
    idempotencyKey := k
    required := ⟨by decide, hk⟩
    draw := draw }

/-- A request or a sweep that is served without faults by `n` calls. -/
def served (t : Nat) (req : Request DemoId) (n : Nat) : List (Cue DemoId) :=
  .spawn t req :: List.replicate n (.run t .none)

def demoSold : List (Cue DemoId) :=
  served 0 (.hold demoHoldRequest) 4 ++ served 1 (.commit demoCommitRequest) 6

end Demo

end CrowdTic
