import CrowdTic.RoomSteps
import CrowdTic.Runs

/-! Runs of the waiting room of one event: calls in any order, under a clock
that never goes back. Every call moves the line of pool, active queue and
popped users. -/

namespace CrowdTic

open Ranked

/-- The room with the clock, and the users that admissions have removed, the first one in front. -/
structure RoomSys where
  room : Room
  clock : Nat
  popped : List String

inductive RoomMove
  | tick (ms : Nat)
  | join (user : String) (draw : Draw)
  | status (user : String)
  | admission (request : AdmitRequest)
  | cron (draws : Nat → Draw)

def RoomMove.joiner : RoomMove → Option String
  | .join user _ => some user
  | _ => none

namespace RoomSys

def start (clock : Nat) : RoomSys := ⟨.empty, clock, []⟩

def exec (cfg : RoomConfig) (s : RoomSys) : RoomMove → RoomSys
  | .tick ms => { s with clock := s.clock + ms }
  | .join user draw => { s with room := s.room.handleJoin cfg s.clock user draw }
  | .status _ => s
  | .admission request =>
    let out := s.room.handleAdmit cfg s.clock request
    { s with room := out.room, popped := s.popped ++ out.popped }
  | .cron draws => { s with room := s.room.handleScheduled cfg s.clock draws }

def line (s : RoomSys) : Line String := ⟨members s.room.pool, members s.room.active, s.popped⟩

end RoomSys

def RoomStep (cfg : RoomConfig) (s : RoomSys) (m : RoomMove) (s' : RoomSys) : Prop :=
  s' = s.exec cfg m

/-- The states in which the user joins. -/
def joinsOf (user : String) (tr : List (RoomSys × RoomMove)) : List RoomSys :=
  (tr.filter fun p => p.2.joiner = some user).map Prod.fst

section Steps

variable {cfg : RoomConfig} {s s' : RoomSys} {tr : List (RoomSys × RoomMove)}

theorem clock_le_exec (m : RoomMove) : s.clock ≤ (s.exec cfg m).clock := by
  cases m with
  | tick ms => exact Nat.le_add_right _ _
  | _ => exact Nat.le_refl _

theorem Room.Ordered.handleScheduled {r : Room} {now : Nat} {draws : Nat → Draw}
    (h : r.Ordered cfg.backend) : (r.handleScheduled cfg now draws).Ordered cfg.backend := by
  unfold Room.handleScheduled
  cases cfg.onSaleAt with
  | none => exact h
  | some t =>
    by_cases ht : now < t
    · simpa only [ht, if_true] using h
    · simpa only [ht, if_false] using h.maybeShufflePool now draws

theorem handleAdmit_unauthorized {r : Room} {now : Nat} {q : AdmitRequest}
    (ha : q.authorized cfg = false) : r.handleAdmit cfg now q = ⟨.unauthorized, r, []⟩ := by
  rw [Room.handleAdmit, if_pos ha]

theorem Room.Ordered.handleAdmit {r : Room} {now : Nat} {q : AdmitRequest}
    (h : r.Ordered cfg.backend) : (r.handleAdmit cfg now q).room.Ordered cfg.backend := by
  cases ha : q.authorized cfg with
  | false => exact (handleAdmit_unauthorized ha).symm ▸ h
  | true =>
    have hs := h.maybeShufflePool now q.draws
    have hadmits := handleAdmit_admits now h ha
    generalize r.handleAdmit cfg now q = out at hadmits ⊢
    cases hadmits with
    | idle reply bucket _ _ => exact ⟨hs.active, hs.pool, hs.activeOnce, hs.poolOnce⟩
    | pops reply admitted bucket k _ _ _ =>
      refine ⟨hs.active.sublist (List.drop_sublist _ _), hs.pool, ?_, hs.poolOnce⟩
      rw [members, List.map_drop]
      exact hs.activeOnce.sublist (List.drop_sublist _ _)

theorem ordered_exec (h : s.room.Ordered cfg.backend) (m : RoomMove) :
    (s.exec cfg m).room.Ordered cfg.backend := by
  cases m with
  | tick ms => exact h
  | join user draw => exact h.handleJoin user draw
  | status user => exact h
  | admission q => exact h.handleAdmit
  | cron draws => exact h.handleScheduled

theorem ordered_start (b : Backend) (clock : Nat) : (RoomSys.start clock).room.Ordered b :=
  ⟨.nil, .nil, .nil, .nil⟩

theorem ordered_run {clock : Nat} (hrun : Run (RoomStep cfg) (.start clock) tr s) :
    s.room.Ordered cfg.backend :=
  hrun.invariant (fun s => s.room.Ordered cfg.backend) (fun _ _ => True)
    (fun _ m _ h _ hs => hs ▸ ordered_exec h m)
    (ordered_start _ clock) fun _ _ => trivial

theorem shuffle_moves (h : s.room.Ordered cfg.backend) (draws : Nat → Draw) :
    Line.Moves none s.line
      { s with room := s.room.maybeShufflePool cfg s.clock draws : RoomSys }.line := by
  rcases maybeShufflePool_cases s.clock draws h with ⟨_, hr⟩ | ⟨_, hr⟩
  · rw [hr]
    exact .refl
  · refine .single ?_
    have hmove : Line.Move none s.line
        ⟨[], members (s.room.maybeShufflePool cfg s.clock draws).active, s.popped⟩ :=
      .shuffle (by simp [RoomSys.line, hr.idle, members]) fun x => hr.perm.mem_iff
    simpa only [RoomSys.line, hr.pool, members, List.map_nil] using hmove

theorem join_moves (h : s.room.Ordered cfg.backend) (user : String) (draw : Draw) :
    Line.Moves (some user) s.line (s.exec cfg (.join user draw)).line := by
  refine .single ?_
  have hout : (members s.room.pool).filter (fun x => x ≠ user) = members (zrem s.room.pool user) :=
    (members_zrem _ _).symm
  by_cases hj : s.room.joinsActive cfg s.clock = true
  · obtain ⟨hp, ha | ⟨hm, ha⟩⟩ := handleJoin_active user draw h hj
    · obtain ⟨r, hsplit, hplace⟩ := members_place_split
        (cfg.backend.stays ⟨user, s.room.tailScore cfg s.clock draw⟩)
        (zrem s.room.active user) ⟨user, s.room.tailScore cfg s.clock draw⟩
      have hmove : Line.Move (some user) s.line _ :=
        .enter rfl ((members_zrem _ _).symm.trans hsplit)
      simpa only [RoomSys.line, RoomSys.exec, hp, ha, placed, hplace, hout] using hmove
    · have hmove : Line.Move (some user) s.line _ := .stay rfl hm
      simpa only [RoomSys.line, RoomSys.exec, hp, ha, hout] using hmove
  · obtain ⟨ha, hp⟩ := handleJoin_pool user draw h (Bool.eq_false_iff.mpr hj)
    have hmem : ∀ x, x ∈ members (s.room.handleJoin cfg s.clock user draw).pool ↔
        x = user ∨ x ∈ members s.room.pool := by
      intro x
      rcases hp with hp | ⟨hm, hp⟩
      · rw [hp, mem_members_placed]
      · rw [hp]
        refine ⟨.inr, fun hx => ?_⟩
        rcases hx with rfl | hx
        · exact hm
        · exact hx
    have hmove : Line.Move (some user) s.line _ := .wait rfl hmem
    simpa only [RoomSys.line, RoomSys.exec, ha] using hmove

theorem admit_moves (h : s.room.Ordered cfg.backend) (q : AdmitRequest) :
    Line.Moves none s.line (s.exec cfg (.admission q)).line := by
  cases ha : q.authorized cfg with
  | false =>
    simp only [RoomSys.exec, handleAdmit_unauthorized ha, List.append_nil]
    exact .refl
  | true =>
    refine (shuffle_moves h q.draws).trans ?_
    have hadmits := handleAdmit_admits s.clock h ha
    simp only [RoomSys.exec]
    generalize s.room.handleAdmit cfg s.clock q = out at hadmits ⊢
    cases hadmits with
    | idle reply bucket _ _ =>
      simp only [RoomSys.line, List.append_nil]
      exact .refl
    | pops reply admitted bucket k _ _ _ =>
      refine .single ?_
      have hmove : Line.Move none
          { s with room := s.room.maybeShufflePool cfg s.clock q.draws : RoomSys }.line _ := .pop k
      simpa only [RoomSys.line, members, List.map_drop] using hmove

/-- Every call moves the line, and lets nobody enter but the user who joins. -/
theorem exec_moves (h : s.room.Ordered cfg.backend) (m : RoomMove) :
    Line.Moves m.joiner s.line (s.exec cfg m).line := by
  cases m with
  | tick ms => exact .refl
  | join user draw => exact join_moves h user draw
  | status user => exact .refl
  | admission q => exact admit_moves h q
  | cron draws =>
    simp only [RoomSys.exec, Room.handleScheduled]
    cases cfg.onSaleAt with
    | none => exact .refl
    | some t =>
      by_cases ht : s.clock < t
      · simp only [ht, if_true]
        exact .refl
      · simp only [ht, if_false]
        exact shuffle_moves h draws

end Steps

section Plays

variable (cfg : RoomConfig)

def RoomSys.after (s : RoomSys) (ms : List RoomMove) : RoomSys := ms.foldl (RoomSys.exec cfg) s

def RoomSys.trace (s : RoomSys) (ms : List RoomMove) : List (RoomSys × RoomMove) :=
  Run.record (RoomSys.exec cfg) s ms

theorem run_trace (s : RoomSys) (ms : List RoomMove) :
    Run (RoomStep cfg) s (s.trace cfg ms) (s.after cfg ms) := by
  have hstep : ∀ s m, RoomStep cfg s m (s.exec cfg m) := fun _ _ => rfl
  exact .of_record hstep s ms

end Plays

section Demo

def demoDraw : Draw := ⟨1 / 2, by norm_num, by norm_num⟩

def demoLowDraw : Draw := ⟨1 / 4, by norm_num, by norm_num⟩

def demoRoom (backend : Backend) : RoomConfig where
  backend
  onSaleAt := some 1000
  rate := 2000
  jwtSecret := "secret"
  admitSecret := ""

def demoAdmit (batch : ℚ) : RoomMove := .admission ⟨"", .truthy (some batch), fun _ => demoDraw⟩

end Demo

end CrowdTic
