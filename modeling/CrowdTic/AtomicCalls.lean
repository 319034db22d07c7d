import CrowdTic.RoomCommands
import CrowdTic.RoomRuns

/-! Calls whose commands nobody comes between do on Redis what the calls of the
waiting room do as single steps, so every run of such steps is a run of
commands. -/

namespace CrowdTic

open Ranked

inductive Alone (cfg : RoomConfig) (now : Nat) :
    Option RoomCall → Room → List (Visit String) → Room → Prop
  | ended (r : Room) : Alone cfg now none r [] r
  | turn (poolFirst : Bool) {c : RoomCall} {r r' : Room} {visits : List (Visit String)} :
      Alone cfg now (c.turn cfg r now poolFirst).next (c.turn cfg r now poolFirst).room visits r' →
      Alone cfg now (some c) r (visits ++ (c.turn cfg r now poolFirst).visits) r'

section Calls

variable {cfg : RoomConfig} {now : Nat} {c : RoomCall} {r room r' : Room} {next : Option RoomCall}
  {visits : List (Visit String)}

theorem Alone.step {out : List (Visit String)} (ht : c.turn cfg r now true = ⟨room, next, out⟩)
    (h : Alone cfg now next room visits r') : Alone cfg now (some c) r (visits ++ out) r' := by
  have hrest : Alone cfg now (c.turn cfg r now true).next (c.turn cfg r now true).room visits r' := by
    rwa [ht]
  have hturn := Alone.turn true hrest
  rwa [ht] at hturn

theorem Alone.silent (ht : c.turn cfg r now true = ⟨room, next, []⟩)
    (h : Alone cfg now next room visits r') : Alone cfg now (some c) r visits r' := by
  have hstep := h.step ht
  rwa [List.append_nil] at hstep

theorem alone_join (hb : cfg.backend = .redis) (user : String) (draw : Draw) :
    Alone cfg now (some (.join user (.card now draw))) r [.enters user]
      (r.handleJoin cfg now user draw) := by
  by_cases hj : r.joinsActive cfg now = true
  · have hcard : (RoomCall.join user (.card now draw)).turn cfg r now true =
        ⟨r, some (.join user (.addActive (r.tailScore cfg now draw))), []⟩ := by
      simp only [RoomCall.turn, JoinPc.turn, if_pos hj, Room.tailScore, hb]
    have hroom : r.handleJoin cfg now user draw =
        { r with
          active := zadd r.active user (r.tailScore cfg now draw)
          pool := zrem r.pool user } := by
      simp only [Room.handleJoin, hb, if_pos hj]
    have hadd : Alone cfg now (some (.join user (.addActive (r.tailScore cfg now draw)))) r
        ([] ++ [.enters user]) _ := .step rfl (.silent rfl (.silent rfl (.silent rfl (.ended _))))
    rw [hroom]
    exact .silent hcard hadd
  · have hcard : (RoomCall.join user (.card now draw)).turn cfg r now true =
        ⟨r, some (.join user (.addPool draw.val)), []⟩ := by
      simp only [RoomCall.turn, JoinPc.turn, if_neg hj]
    have hroom : r.handleJoin cfg now user draw = { r with pool := zadd r.pool user draw.val } := by
      simp only [Room.handleJoin, hb, if_neg hj]
    have hadd : Alone cfg now (some (.join user (.addPool draw.val))) r ([] ++ [.enters user]) _ :=
      .step rfl (.silent rfl (.silent rfl (.ended _)))
    rw [hroom]
    exact .silent hcard hadd

theorem alone_pipe (draws : Nat → Draw) {waiting : Option BatchField} (adds : List (String × Nat))
    (h : Alone cfg now (shuffleDone waiting)
      { r with
        active := adds.foldl (fun q x => zadd q x.1 x.2) r.active
        pool := []
        admitted := some ⟨0, some (now + 3600000)⟩ } visits r') :
    Alone cfg now (some (.shuffle (.pipe adds) draws waiting)) r visits r' := by
  induction adds generalizing r with
  | nil => exact .silent rfl (.silent rfl h)
  | cons x adds ih => exact .silent rfl (ih h)

theorem alone_shuffle (hb : cfg.backend = .redis) {draws : Nat → Draw} {waiting : Option BatchField}
    (h : Alone cfg now (shuffleDone waiting) (r.maybeShufflePool cfg now draws) visits r') :
    Alone cfg now (some (.shuffle .sizes draws waiting)) r visits r' := by
  refine .silent rfl (.silent rfl ?_)
  rw [ShufflePc.decided]
  rw [Room.maybeShufflePool] at h
  by_cases hp : r.pool.length = 0
  · rw [if_pos hp] at h ⊢
    exact h
  · rw [if_neg hp] at h ⊢
    by_cases ha : 0 < r.active.length
    · rw [if_pos ha] at h ⊢
      exact h
    · rw [if_neg ha] at h ⊢
      have hrange : (RoomCall.shuffle .range draws waiting).turn cfg r now true =
          ⟨r, some (.shuffle (.pipe ((shuffleInPlace draws (members r.pool)).zipIdx.map
            fun x => (x.1, now + x.2))) draws waiting), []⟩ := by
        simp only [RoomCall.turn, ShufflePc.turn, if_neg hp]
      refine .silent hrange (alone_pipe draws _ ?_)
      rw [List.foldl_map]
      simpa only [hb] using h

theorem alone_mark (batch : BatchField) (popped : Nat) :
    Alone cfg now (some (.admission batch (.getMark popped))) r []
      { r with admitted := some ⟨r.watermark now + popped, some (now + 3600000)⟩ } :=
  .silent rfl (.silent rfl (.ended _))

/-- The loop of single `ZPOPMIN`s pops what one with the count would. -/
theorem alone_popOne (batch : BatchField) (left popped : Nat) :
    Alone cfg now (some (.admission batch (.popOne left popped))) r
      ((members (r.active.take (left + 1))).reverse.map .leaves)
      { r with
        active := r.active.drop (left + 1)
        admitted := some ⟨r.watermark now + (popped + (r.active.take (left + 1)).length),
          some (now + 3600000)⟩ } := by
  induction left generalizing r popped with
  | zero =>
    obtain ⟨pool, active, admitted, bucket⟩ := r
    cases active with
    | nil => exact .silent rfl (alone_mark batch popped)
    | cons x l =>
      have hmark : Alone cfg now (some (.admission batch (.getMark (popped + 1))))
          ⟨pool, l, admitted, bucket⟩ [] _ := alone_mark batch (popped + 1)
      have hstep : Alone cfg now (some (.admission batch (.popOne 0 popped)))
          ⟨pool, x :: l, admitted, bucket⟩ ([] ++ [.leaves x.member]) _ := hmark.step rfl
      exact hstep
  | succ left ih =>
    obtain ⟨pool, active, admitted, bucket⟩ := r
    cases active with
    | nil => exact .silent rfl (alone_mark batch popped)
    | cons x l =>
      have hrest := ih (r := ⟨pool, l, admitted, bucket⟩) (popped + 1)
      have hstep : Alone cfg now (some (.admission batch (.popOne (left + 1) popped)))
          ⟨pool, x :: l, admitted, bucket⟩ _ _ := hrest.step rfl
      simpa [members, Room.watermark, Nat.add_assoc, Nat.add_comm 1] using hstep

theorem alone_popMin (hb : cfg.backend = .redis) (batch : BatchField) {want : ℚ} (hw : 1 ≤ want)
    (remaining : Int) :
    Alone cfg now (some (.admission batch (.popMin want))) r
      ((r.popFront cfg now want remaining).popped.reverse.map .leaves)
      (r.popFront cfg now want remaining).room := by
  simp only [Room.popFront, hb, Backend.front]
  by_cases hd : want.den = 1
  · have hturn : (RoomCall.admission batch (.popMin want)).turn cfg r now true =
        r.popMin (Backend.redis.popCount want) .getMark batch := by
      simp only [RoomCall.turn, AdmitPc.turn, if_pos hd]
    have hmark := (alone_mark batch _).step hturn
    exact hmark
  · have hturn : (RoomCall.admission batch (.popMin want)).turn cfg r now true =
        ⟨r, some (.admission batch (.popOne (Backend.redis.popCount want - 1) 0)), []⟩ := by
      simp only [RoomCall.turn, AdmitPc.turn, if_neg hd]
    have hcount : Backend.redis.popCount want - 1 + 1 = Backend.redis.popCount want :=
      Nat.sub_add_cancel (popCount_pos .redis hw)
    have hloop : Alone cfg now _ r _ _ := alone_popOne batch (Backend.redis.popCount want - 1) 0
    rw [hcount] at hloop
    refine .silent hturn ?_
    simpa [members] using hloop

theorem alone_admission (hb : cfg.backend = .redis) {q : AdmitRequest}
    (ha : q.authorized cfg = true) :
    Alone cfg now (some (.shuffle .sizes q.draws (some q.batch))) r
      ((r.handleAdmit cfg now q).popped.reverse.map .leaves) (r.handleAdmit cfg now q).room := by
  refine alone_shuffle hb ?_
  rw [Room.handleAdmit, if_neg (by simp [ha])]
  generalize r.maybeShufflePool cfg now q.draws = r₁
  dsimp only
  by_cases hlen : r₁.active.length = 0
  · have hturn : (RoomCall.admission q.batch .card).turn cfg r₁ now true = ⟨r₁, none, []⟩ := by
      simp only [RoomCall.turn, AdmitPc.turn, if_pos hlen]
    rw [if_pos hlen]
    exact .silent hturn (.ended _)
  · have hturn : (RoomCall.admission q.batch .card).turn cfg r₁ now true =
        ⟨r₁, some (.admission q.batch (.getBucket (q.batch.want r₁.active.length))), []⟩ := by
      simp only [RoomCall.turn, AdmitPc.turn, if_neg hlen]
    rw [if_neg hlen]
    refine .silent hturn (.silent rfl (.silent rfl ?_))
    by_cases hno : (tokenBucketConsume cfg.fl cfg.rate (Expiring.live r₁.bucket now) now
        (q.batch.want r₁.active.length)).1.allowed = false
    · rw [if_pos hno, if_neg (by simp [hno])]
      exact .ended _
    · rw [if_neg hno, if_pos (by simpa using hno)]
      exact alone_popMin hb q.batch (one_le_want q.batch hlen) _

end Calls

section Runs

/-- The atomic calls and the commands have come to the same room with nobody in between. -/
structure Agrees (s : RoomSys) (c : CommandSys) : Prop where
  room : c.room = s.room
  clock : c.clock = s.clock
  idle : c.calls = []
  popped : c.visits.filterMap Visit.leaver = s.popped.reverse

variable {cfg : RoomConfig} {s : RoomSys} {c : CommandSys} {tr : List (RoomSys × RoomMove)}

theorem goOn_alone (call : RoomCall) (next : Option RoomCall) (h : c.calls = [call]) :
    c.goOn 0 next = next.toList := by
  cases next <;> simp [CommandSys.goOn, h]

theorem run_alone {now : Nat} {next : Option RoomCall} {r r' : Room} {visits : List (Visit String)}
    (h : Alone cfg now next r visits r') (past : List (Visit String)) :
    ∃ tr, Run (CommandStep cfg) ⟨r, now, next.toList, past⟩ tr ⟨r', now, [], visits ++ past⟩ := by
  induction h generalizing past with
  | ended r => exact ⟨[], .nil⟩
  | @turn poolFirst call r r' visits _ ih =>
    obtain ⟨tr, hrun⟩ := ih ((call.turn cfg r now poolFirst).visits ++ past)
    have hfirst : CommandStep cfg ⟨r, now, [call], past⟩ (.run 0 poolFirst)
        ⟨(call.turn cfg r now poolFirst).room, now, (call.turn cfg r now poolFirst).next.toList,
          (call.turn cfg r now poolFirst).visits ++ past⟩ := by
      rw [CommandStep, ← goOn_alone (c := ⟨r, now, [call], past⟩) call _ rfl]
      rfl
    rw [List.append_assoc]
    exact ⟨_, (Run.single hfirst).append hrun⟩

theorem Agrees.call (h : Agrees s c) (popped : List String) {m : CommandMove} {call : RoomCall}
    {r : Room} {visits : List (Visit String)} (hm : c.exec cfg m = c.begin call)
    (ha : Alone cfg s.clock (some call) s.room visits r)
    (hv : visits.filterMap Visit.leaver = popped.reverse) :
    ∃ tr c', Run (CommandStep cfg) c tr c' ∧ Agrees ⟨r, s.clock, s.popped ++ popped⟩ c' := by
  obtain ⟨room, clock, calls, past⟩ := c
  obtain ⟨rfl, rfl, rfl, hpast⟩ := h
  obtain ⟨tr, hrun⟩ := run_alone ha past
  have hfirst : CommandStep cfg ⟨s.room, s.clock, [], past⟩ m ⟨s.room, s.clock, [call], past⟩ := hm.symm
  refine ⟨_, _, (Run.single hfirst).append hrun, rfl, rfl, rfl, ?_⟩
  rw [List.filterMap_append, hv, hpast, List.reverse_append]

theorem Agrees.exec (hb : cfg.backend = .redis) (h : Agrees s c) (m : RoomMove) :
    ∃ tr c', Run (CommandStep cfg) c tr c' ∧ Agrees (s.exec cfg m) c' := by
  have hstay : ∃ tr c', Run (CommandStep cfg) c tr c' ∧ Agrees s c' := ⟨[], c, .nil, h⟩
  cases m with
  | tick ms =>
    have hfirst : CommandStep cfg c (.tick ms) { c with clock := c.clock + ms } := rfl
    exact ⟨_, _, .single hfirst, h.room, congrArg (· + ms) h.clock, h.idle, h.popped⟩
  | status user => exact hstay
  | join user draw =>
    have hm : c.exec cfg (.join user draw) = c.begin (.join user (.card s.clock draw)) := by
      rw [← h.clock]
      rfl
    have hcall := h.call [] hm (alone_join hb user draw) rfl
    rwa [List.append_nil] at hcall
  | admission q =>
    cases ha : q.authorized cfg with
    | false =>
      simpa only [RoomSys.exec, handleAdmit_unauthorized ha, List.append_nil] using hstay
    | true =>
      have hm : c.exec cfg (.admission q) = c.begin (.shuffle .sizes q.draws (some q.batch)) :=
        if_pos ha
      exact h.call _ hm (alone_admission hb ha) (Visit.leavers_leaves _)
  | cron draws =>
    simp only [RoomSys.exec, Room.handleScheduled]
    cases hon : cfg.onSaleAt with
    | none => exact hstay
    | some t =>
      by_cases ht : s.clock < t
      · simpa only [if_pos ht] using hstay
      · have hm : c.exec cfg (.cron draws) = c.begin (.shuffle .sizes draws none) := by
          refine if_pos ?_
          rw [h.clock, hon]
          simpa using ht
        have hshuffle : Alone cfg s.clock (some (.shuffle .sizes draws none)) s.room [] _ :=
          alone_shuffle hb (.ended _)
        have hcall := h.call [] hm hshuffle rfl
        simpa only [if_neg ht, List.append_nil] using hcall

/-- Every run of atomic calls on Redis is a run of their commands. -/
theorem commands_of_run (hb : cfg.backend = .redis) {clock : Nat}
    (hrun : Run (RoomStep cfg) (.start clock) tr s) :
    ∃ tr' c, Run (CommandStep cfg) (.start clock) tr' c ∧ Agrees s c := by
  induction hrun with
  | nil => exact ⟨[], _, .nil, rfl, rfl, rfl, rfl⟩
  | snoc _ hstep ih =>
    obtain ⟨tr', c, hc, hagrees⟩ := ih
    obtain ⟨tr'', c', hc', hnext⟩ := hagrees.exec hb _
    exact ⟨_, c', hc.append hc', hstep ▸ hnext⟩

end Runs

end CrowdTic
