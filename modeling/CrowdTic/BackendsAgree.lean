import CrowdTic.RoomRuns

/-! The two backends of the waiting room side by side. The KV fallback keeps
the queues that Redis keeps, as long as no score is taken twice, nobody joins a
queue that they are in, and admissions ask for whole numbers of users. -/

namespace CrowdTic

open Ranked

def RoomConfig.on (cfg : RoomConfig) (b : Backend) : RoomConfig := { cfg with backend := b }

/-- The same member, on KV with the score in whole milliseconds. -/
def SamePlace (x y : Entry) : Prop := y.member = x.member ∧ y.score = ⌊x.score⌋

/-- A room on Redis and its room on KV. -/
structure Twin (r k : Room) : Prop where
  pool : k.pool = r.pool
  active : List.Forall₂ SamePlace r.active k.active
  admitted : k.admitted = r.admitted
  bucket : k.bucket = r.bucket

section Queues

variable {q q' : List Entry}

theorem members_samePlace (h : List.Forall₂ SamePlace q q') : members q' = members q := by
  induction h with
  | nil => rfl
  | cons hxy _ ih => exact congrArg₂ List.cons hxy.1 ih

theorem samePlace_drop (h : List.Forall₂ SamePlace q q') (n : Nat) :
    List.Forall₂ SamePlace (q.drop n) (q'.drop n) := List.forall₂_drop n h

/-- A score apart from the others by its floor decides alike on both backends. -/
theorem stays_samePlace {e e' x y : Entry} (he : SamePlace e e') (hxy : SamePlace x y)
    (hapart : ⌊x.score⌋ ≠ ⌊e.score⌋) : Backend.stays .redis e x = Backend.stays .kv e' y := by
  have hkv : Backend.stays .kv e' y = decide (⌊x.score⌋ < ⌊e.score⌋) := by
    show decide (y.score ≤ e'.score) = _
    rw [hxy.2, he.2]
    refine decide_eq_decide.mpr ?_
    rw [Int.cast_le]
    exact ⟨fun hle => lt_of_le_of_ne hle hapart, le_of_lt⟩
  rw [hkv]
  rcases lt_or_gt_of_ne hapart with hlt | hgt
  · rw [decide_eq_true hlt]
    exact Backend.stays_of_score (lt_of_not_ge fun hle => hlt.not_ge (Int.floor_le_floor hle))
  · rw [decide_eq_false hgt.not_gt]
    have hlex : LexLE e x := .inl (lt_of_not_ge fun hle => hgt.not_ge (Int.floor_le_floor hle))
    show (!decide (LexLE e x)) = false
    rw [decide_eq_true hlex, Bool.not_true]

theorem stays_of_apart {e x : Entry} (h : x.score ≠ e.score) :
    Backend.stays .redis e x = Backend.stays .kv e x := by
  rcases lt_or_gt_of_ne h with hlt | hgt
  · rw [Backend.stays_of_score hlt, Backend.stays_of_score hlt]
  · have hlex : LexLE e x := .inl hgt
    have hredis : Backend.stays .redis e x = false := by
      show (!decide (LexLE e x)) = false
      rw [decide_eq_true hlex, Bool.not_true]
    rw [hredis]
    exact (decide_eq_false (not_le.mpr hgt)).symm

end Queues

section Calls

variable {cfg : RoomConfig} {r k : Room} {now : Nat}

theorem Twin.lengths (h : Twin r k) : k.active.length = r.active.length := h.active.length_eq.symm

theorem Twin.joinsActive (h : Twin r k) :
    k.joinsActive (cfg.on .kv) now = r.joinsActive (cfg.on .redis) now := by
  simp only [Room.joinsActive, h.lengths]
  rfl

/-- The user is not in the queue yet, nor is the floor of the new score, and the fraction of the score
has not been rounded up to a whole millisecond. -/
def Room.Apart (cfg : RoomConfig) (r : Room) (now : Nat) (user : String) (draw : Draw) : Prop :=
  if r.joinsActive cfg now = true then
    user ∉ members r.active ∧ (∀ x ∈ r.active, ⌊x.score⌋ ≠ ⌊r.tailScore cfg now draw⌋) ∧
      ⌊r.tailScore cfg now draw⌋ = (now + r.active.length : Nat)
  else user ∉ members r.pool ∧ ∀ x ∈ r.pool, x.score ≠ draw.val

instance (cfg : RoomConfig) (r : Room) (now : Nat) (user : String) (draw : Draw) :
    Decidable (r.Apart cfg now user draw) :=
  inferInstanceAs (Decidable (if r.joinsActive cfg now = true then
    user ∉ members r.active ∧ (∀ x ∈ r.active, ⌊x.score⌋ ≠ ⌊r.tailScore cfg now draw⌋) ∧
      ⌊r.tailScore cfg now draw⌋ = (now + r.active.length : Nat)
  else user ∉ members r.pool ∧ ∀ x ∈ r.pool, x.score ≠ draw.val))

theorem tailScore_floor (cfg : RoomConfig) (h : Twin r k) {draw : Draw}
    (hfloor : ⌊r.tailScore (cfg.on .redis) now draw⌋ = (now + r.active.length : Nat)) :
    k.tailScore (cfg.on .kv) now draw = ⌊r.tailScore (cfg.on .redis) now draw⌋ := by
  have hkv : k.tailScore (cfg.on .kv) now draw = now + k.active.length := rfl
  rw [hkv, h.lengths, hfloor]
  push_cast
  rfl

theorem Twin.handleJoin (h : Twin r k) (hr : r.Ordered .redis) (hk : k.Ordered .kv) {user : String}
    {draw : Draw} (ha : r.Apart (cfg.on .redis) now user draw) :
    Twin (r.handleJoin (cfg.on .redis) now user draw) (k.handleJoin (cfg.on .kv) now user draw) := by
  have hmembers := members_samePlace h.active
  have hkeptR := @handleJoin_kept (cfg.on .redis) r now user draw
  have hkeptK := @handleJoin_kept (cfg.on .kv) k now user draw
  have hmark := hkeptK.1.trans (h.admitted.trans hkeptR.1.symm)
  have hbucket := hkeptK.2.trans (h.bucket.trans hkeptR.2.symm)
  by_cases hj : r.joinsActive (cfg.on .redis) now = true
  · rw [Room.Apart, if_pos hj] at ha
    obtain ⟨hpoolR, hactiveR⟩ := handleJoin_active user draw hr hj
    obtain ⟨hpoolK, hactiveK⟩ := handleJoin_active user draw hk (h.joinsActive.trans hj)
    have hactiveR := hactiveR.resolve_right fun hin => ha.1 hin.1
    have hactiveK := hactiveK.resolve_right fun hin => ha.1 (hmembers ▸ hin.1)
    refine ⟨by rw [hpoolK, hpoolR, h.pool], ?_, hmark, hbucket⟩
    rw [hactiveR, hactiveK, placed, placed, zrem_of_absent ha.1, zrem_of_absent (hmembers ▸ ha.1)]
    have hplace : SamePlace ⟨user, r.tailScore (cfg.on .redis) now draw⟩
        ⟨user, k.tailScore (cfg.on .kv) now draw⟩ := ⟨rfl, tailScore_floor cfg h ha.2.2⟩
    exact forall₂_place h.active hplace fun x hx y hxy => stays_samePlace hplace hxy (ha.2.1 x hx)
  · have hj := Bool.eq_false_iff.mpr hj
    rw [Room.Apart, if_neg (by simp [hj])] at ha
    obtain ⟨hactiveR, hpoolR⟩ := handleJoin_pool user draw hr hj
    obtain ⟨hactiveK, hpoolK⟩ := handleJoin_pool user draw hk (h.joinsActive.trans hj)
    have hpoolR := hpoolR.resolve_right fun hin => ha.1 hin.1
    have hpoolK := hpoolK.resolve_right fun hin => ha.1 (h.pool ▸ hin.1)
    refine ⟨?_, by rw [hactiveR, hactiveK]; exact h.active, hmark, hbucket⟩
    rw [hpoolR, hpoolK, h.pool, placed, placed, zrem_of_absent ha.1]
    have hself : List.Forall₂ Eq r.pool r.pool := List.forall₂_same.mpr fun _ _ => rfl
    exact (List.forall₂_eq_eq_eq ▸ forall₂_place hself rfl fun x hx y hxy =>
      hxy ▸ stays_of_apart (ha.2 x hx) : _ = _).symm

theorem Twin.handleStatus (h : Twin r k) (user : String) :
    k.handleStatus (cfg.on .kv) now user = r.handleStatus (cfg.on .redis) now user := by
  have hadmits : k.admits now = r.admits now := by
    unfold Room.admits Room.watermark
    rw [h.admitted]
  simp only [Room.handleStatus, hadmits, rank, Room.watermark, members_samePlace h.active, h.pool,
    h.admitted, h.lengths]
  rfl

theorem Twin.maybeShufflePool (h : Twin r k) (hr : r.Ordered .redis) (hk : k.Ordered .kv)
    (draws : Nat → Draw) : Twin (r.maybeShufflePool (cfg.on .redis) now draws)
      (k.maybeShufflePool (cfg.on .kv) now draws) := by
  by_cases hidle : r.pool = [] ∨ r.active ≠ []
  · have hidleK : k.pool = [] ∨ k.active ≠ [] := by
      refine hidle.imp (fun hp => h.pool.trans hp) fun ha he => ha ?_
      have hlen := h.lengths
      rw [he] at hlen
      exact List.length_eq_zero_iff.mp hlen.symm
    rw [maybeShufflePool_idle now draws hidle, maybeShufflePool_idle now draws hidleK]
    exact h
  · obtain ⟨hp, ha⟩ := not_or.mp hidle
    have ha := not_not.mp ha
    have haK : k.active = [] := List.length_eq_zero_iff.mp (by rw [h.lengths, ha]; rfl)
    have hpK : k.pool ≠ [] := fun he => hp (h.pool ▸ he)
    have hR := @maybeShufflePool_shuffled (cfg.on .redis) r now draws hr hp ha
    have hK := @maybeShufflePool_shuffled (cfg.on .kv) k now draws hk hpK haK
    refine ⟨hK.pool.trans hR.pool.symm, ?_, hK.admitted.trans hR.admitted.symm,
      hK.bucket.trans (h.bucket.trans hR.bucket.symm)⟩
    rw [maybeShufflePool_active now draws hr hp ha, maybeShufflePool_active now draws hk hpK haK, h.pool]
    refine List.forall₂_map_right_iff.mpr (List.forall₂_map_left_iff.mpr ?_)
    exact List.forall₂_same.mpr fun x _ => ⟨rfl, by simp⟩

/-- The batch of the body is no fraction. -/
def BatchField.Whole (b : BatchField) : Prop := ∀ n, b = .truthy (some n) → ∃ m : ℤ, n = m

theorem BatchField.Whole.want {b : BatchField} (h : b.Whole) (size : Nat) : ∃ m : ℤ, b.want size = m := by
  have hmin (x y : ℤ) : ∃ m : ℤ, min (x : ℚ) y = m := ⟨min x y, by push_cast; rfl⟩
  unfold BatchField.want
  split
  · rename_i n
    obtain ⟨m, rfl⟩ := h n rfl
    refine ⟨min (max 1 (min admitBatch m)) size, ?_⟩
    push_cast
    rfl
  · exact ⟨min admitBatch size, by push_cast; rfl⟩

theorem popCount_whole {b : BatchField} (h : b.Whole) (size : Nat) :
    Backend.popCount .kv (b.want size) = Backend.popCount .redis (b.want size) := by
  obtain ⟨m, hm⟩ := h.want size
  show ⌊_⌋.toNat = ⌈_⌉.toNat
  rw [hm, Int.floor_intCast, Int.ceil_intCast]

theorem Twin.popFront (h : Twin r k) (hk : k.Ordered .kv) {b : BatchField} (hb : b.Whole) (size : Nat)
    (remaining : Int) :
    let outR := r.popFront (cfg.on .redis) now (b.want size) remaining
    let outK := k.popFront (cfg.on .kv) now (b.want size) remaining
    outK.reply = outR.reply ∧ outK.popped = outR.popped ∧ Twin outR.room outK.room := by
  have hfront : Backend.front .kv k.active = k.active := front_of_sorted hk.active
  have hmark : k.watermark now = r.watermark now := by rw [Room.watermark, Room.watermark, h.admitted]
  have husers (n : Nat) : Ranked.members (k.active.take n) = Ranked.members (r.active.take n) := by
    rw [members, members, List.map_take, List.map_take]
    exact congrArg (List.take n) (members_samePlace h.active)
  have hfrontR : Backend.front .redis r.active = r.active := rfl
  simp only [Room.popFront, RoomConfig.on, popCount_whole hb, hfront, hfrontR, husers, hmark, true_and]
  exact ⟨h.pool, samePlace_drop h.active _, rfl, h.bucket⟩

theorem Twin.handleAdmit (h : Twin r k) (hr : r.Ordered .redis) (hk : k.Ordered .kv) {q : AdmitRequest}
    (hq : q.batch.Whole) :
    let outR := r.handleAdmit (cfg.on .redis) now q
    let outK := k.handleAdmit (cfg.on .kv) now q
    outK.reply = outR.reply ∧ outK.popped = outR.popped ∧ Twin outR.room outK.room := by
  have hs : Twin (r.maybeShufflePool (cfg.on .redis) now q.draws)
    (k.maybeShufflePool (cfg.on .kv) now q.draws) := h.maybeShufflePool hr hk q.draws
  have hks : (k.maybeShufflePool (cfg.on .kv) now q.draws).Ordered .kv :=
    @Room.Ordered.maybeShufflePool (cfg.on .kv) k now q.draws hk
  intro outR outK
  unfold outR outK Room.handleAdmit
  by_cases ha : q.authorized (cfg.on .redis) = false
  · have haK : q.authorized (cfg.on .kv) = false := ha
    rw [if_pos ha, if_pos haK]
    exact ⟨rfl, rfl, h⟩
  have haK : ¬ q.authorized (cfg.on .kv) = false := ha
  rw [if_neg ha, if_neg haK]
  generalize r.maybeShufflePool (cfg.on .redis) now q.draws = r₁ at hs ⊢
  generalize k.maybeShufflePool (cfg.on .kv) now q.draws = k₁ at hs hks ⊢
  dsimp only
  rw [hs.lengths, hs.bucket]
  by_cases hz : r₁.active.length = 0
  · rw [if_pos hz, if_pos hz]
    exact ⟨rfl, rfl, hs⟩
  rw [if_neg hz, if_neg hz]
  have hrate : (cfg.on .kv).rate = (cfg.on .redis).rate := rfl
  have hfl : (cfg.on .kv).fl = (cfg.on .redis).fl := rfl
  rw [hrate, hfl]
  generalize tokenBucketConsume (cfg.on .redis).fl (cfg.on .redis).rate (Expiring.live r₁.bucket now) now
    (q.batch.want r₁.active.length) = out
  have hpaid : Twin { r₁ with bucket := some ⟨out.2, some (now + 120000)⟩ }
      { k₁ with bucket := some ⟨out.2, some (now + 120000)⟩ } := ⟨hs.pool, hs.active, hs.admitted, rfl⟩
  by_cases hallowed : out.1.allowed = false
  · rw [if_pos hallowed, if_pos hallowed]
    exact ⟨rfl, rfl, hpaid⟩
  · rw [if_neg hallowed, if_neg hallowed]
    exact hpaid.popFront ⟨hks.active, hks.pool, hks.activeOnce, hks.poolOnce⟩ hq _ _

theorem Twin.handleScheduled (h : Twin r k) (hr : r.Ordered .redis) (hk : k.Ordered .kv)
    (draws : Nat → Draw) : Twin (r.handleScheduled (cfg.on .redis) now draws)
      (k.handleScheduled (cfg.on .kv) now draws) := by
  have hsale : (cfg.on .kv).onSaleAt = (cfg.on .redis).onSaleAt := rfl
  unfold Room.handleScheduled
  rw [hsale]
  cases (cfg.on .redis).onSaleAt with
  | none => exact h
  | some t =>
    dsimp only
    by_cases ht : now < t
    · rw [if_pos ht, if_pos ht]
      exact h
    · rw [if_neg ht, if_neg ht]
      exact h.maybeShufflePool hr hk draws

theorem Twin.joinReply (h : Twin r k) (hr : r.Ordered .redis) (hk : k.Ordered .kv) {user : String}
    {draw : Draw} (ha : r.Apart (cfg.on .redis) now user draw) :
    k.joinReply (cfg.on .kv) now user draw = r.joinReply (cfg.on .redis) now user draw := by
  have hafter := h.handleJoin hr hk ha
  have hrank (u : String) : rank (k.handleJoin (cfg.on .kv) now user draw).active u =
      rank (r.handleJoin (cfg.on .redis) now user draw).active u := by
    unfold rank
    rw [members_samePlace hafter.active]
  simp only [Room.joinReply, h.joinsActive, hafter.pool]
  by_cases hj : r.joinsActive (cfg.on .redis) now = true
  · simp only [hj, if_true, hrank, hafter.lengths]
    rfl
  · simp only [hj]
    rfl

end Calls

section Runs

variable {cfg : RoomConfig} {s t : RoomSys} {m : RoomMove}

/-- Joins keep apart from the users and the scores of their queue, and batches are whole numbers. -/
def KeepsApart (cfg : RoomConfig) (s : RoomSys) : RoomMove → Prop
  | .join user draw => s.room.Apart (cfg.on .redis) s.clock user draw
  | .admission q => q.batch.Whole
  | _ => True

structure TwinSys (s t : RoomSys) : Prop where
  room : Twin s.room t.room
  clock : t.clock = s.clock
  popped : t.popped = s.popped

theorem TwinSys.exec (h : TwinSys s t) (hs : s.room.Ordered .redis) (ht : t.room.Ordered .kv)
    (hm : KeepsApart cfg s m) : TwinSys (s.exec (cfg.on .redis) m) (t.exec (cfg.on .kv) m) := by
  obtain ⟨room, clock, popped⟩ := t
  obtain ⟨hroom, rfl, rfl⟩ := h
  cases m with
  | tick ms => exact ⟨hroom, rfl, rfl⟩
  | join user draw => exact ⟨hroom.handleJoin hs ht hm, rfl, rfl⟩
  | status user => exact ⟨hroom, rfl, rfl⟩
  | admission q =>
    obtain ⟨-, hpopped, hout⟩ := @Twin.handleAdmit cfg s.room room s.clock hroom hs ht q hm
    exact ⟨hout, rfl, congrArg (s.popped ++ ·) hpopped⟩
  | cron draws =>
    exact ⟨hroom.handleScheduled hs ht draws, rfl, rfl⟩

/-- Two systems that walk together, each with its queues in order. -/
structure Abreast (s t : RoomSys) : Prop where
  twin : TwinSys s t
  redis : s.room.Ordered .redis
  kv : t.room.Ordered .kv

theorem Abreast.exec (h : Abreast s t) (hm : KeepsApart cfg s m) :
    Abreast (s.exec (cfg.on .redis) m) (t.exec (cfg.on .kv) m) where
  twin := h.twin.exec h.redis h.kv hm
  redis := @ordered_exec (cfg.on .redis) s h.redis m
  kv := @ordered_exec (cfg.on .kv) t h.kv m

theorem Abreast.after (ms : List RoomMove) (h : Abreast s t)
    (hapart : ∀ p ∈ s.trace (cfg.on .redis) ms, KeepsApart cfg p.1 p.2) :
    Abreast (s.after (cfg.on .redis) ms) (t.after (cfg.on .kv) ms) := by
  induction ms generalizing s t with
  | nil => exact h
  | cons m ms ih =>
    have hfirst := hapart (s, m) List.mem_cons_self
    exact ih (h.exec hfirst) fun p hp => hapart p (List.mem_cons_of_mem _ hp)

theorem Abreast.start (clock : Nat) : Abreast (.start clock) (.start clock) where
  twin := ⟨⟨rfl, .nil, rfl, rfl⟩, rfl, rfl⟩
  redis := ordered_start _ clock
  kv := ordered_start _ clock

/-- However the calls of an event follow each other, Redis and the KV fallback keep the same queues
and let the same users go, and the next call is answered alike, as long as the joins keep apart and
the batches are whole numbers. -/
theorem backends_agree (cfg : RoomConfig) (clock : Nat) (ms : List RoomMove)
    (hapart : ∀ p ∈ (RoomSys.start clock).trace (cfg.on .redis) ms, KeepsApart cfg p.1 p.2) :
    let s := (RoomSys.start clock).after (cfg.on .redis) ms
    let t := (RoomSys.start clock).after (cfg.on .kv) ms
    t.room.pool = s.room.pool ∧ members t.room.active = members s.room.active ∧ t.popped = s.popped ∧
      (∀ user, t.room.handleStatus (cfg.on .kv) t.clock user =
        s.room.handleStatus (cfg.on .redis) s.clock user) ∧
      (∀ user draw, s.room.Apart (cfg.on .redis) s.clock user draw →
        t.room.joinReply (cfg.on .kv) t.clock user draw =
          s.room.joinReply (cfg.on .redis) s.clock user draw) ∧
      ∀ q : AdmitRequest, q.batch.Whole →
        (t.room.handleAdmit (cfg.on .kv) t.clock q).reply =
          (s.room.handleAdmit (cfg.on .redis) s.clock q).reply := by
  have h := Abreast.after ms (Abreast.start clock) hapart
  intro s t
  have hroom : Twin s.room t.room := h.twin.room
  have hclock : t.clock = s.clock := h.twin.clock
  rw [hclock]
  refine ⟨hroom.pool, members_samePlace hroom.active, h.twin.popped, hroom.handleStatus, ?_, ?_⟩
  · exact fun user draw ha => hroom.joinReply h.redis h.kv ha
  · exact fun q hq => (hroom.handleAdmit h.redis h.kv hq).1

/-- Two users of the lottery, and one who joins behind them. -/
def demoAbreast : List RoomMove :=
  [.join "alice-01" demoDraw, .join "bobby-01" demoLowDraw, .tick 1000, .cron fun _ => demoDraw,
    .join "carol-01" demoDraw, demoAdmit 2]

theorem backends_agree_lottery :
    ((RoomSys.start 0).after ((demoRoom .redis).on .kv) demoAbreast).popped =
      ((RoomSys.start 0).after ((demoRoom .redis).on .redis) demoAbreast).popped := by
  refine (backends_agree (demoRoom .redis) 0 demoAbreast ?_).2.2.1
  intro p hp
  simp only [demoAbreast, RoomSys.trace, Run.record, List.mem_cons, List.not_mem_nil, or_false] at hp
  rcases hp with rfl | rfl | rfl | rfl | rfl | rfl
  · show Room.Apart _ _ _ _ _
    decide +kernel
  · show Room.Apart _ _ _ _ _
    decide +kernel
  · trivial
  · trivial
  · show Room.Apart _ _ _ _ _
    decide +kernel
  · intro n hn
    obtain rfl : 2 = n := Option.some.inj (BatchField.truthy.inj hn)
    exact ⟨2, rfl⟩

end Runs

end CrowdTic
