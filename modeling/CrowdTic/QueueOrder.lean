import CrowdTic.RoomRuns

/-! The order in which admissions remove users. A user who joins behind another
one is never popped before them, and the score of a join decides whether it is
behind: it can fall short of scores that a shuffle gave out earlier, and the
users of the pool are no part of the queue that it is appended to. -/

namespace CrowdTic

open Ranked

/-- Whenever `v` was popped, `u` had been popped before. -/
def NeverBefore (u v : String) (popped : List String) : Prop :=
  ∀ l r, popped = l ++ v :: r → u ∈ l

/-- The entry of `u`, if the active queue has one, stays in front of the entry that a join of `v`
appends to it. -/
def StaysAhead (cfg : RoomConfig) (u v : String) (s : RoomSys) : Prop :=
  ∀ x ∈ s.room.active, x.member = u →
    cfg.backend.stays ⟨v, s.clock + s.room.active.length⟩ x = true

section Runs

variable {cfg : RoomConfig} {s s₀ : RoomSys} {tr : List (RoomSys × RoomMove)} {u v : String}

theorem clock_le_of_run (hrun : Run (RoomStep cfg) s₀ tr s) {p : RoomSys × RoomMove} (hp : p ∈ tr) :
    s₀.clock ≤ p.1.clock := by
  have hle {tr : List (RoomSys × RoomMove)} {s : RoomSys} (h : Run (RoomStep cfg) s₀ tr s) :
      s₀.clock ≤ s.clock :=
    h.invariant (fun t => s₀.clock ≤ t.clock) (fun _ _ => True)
      (fun _ m _ hc _ hs => hc.trans (hs ▸ clock_le_exec m)) le_rfl fun _ _ => trivial
  obtain ⟨pre, post, w, rfl, hpre, _, _⟩ := hrun.split hp
  exact hle hpre

theorem cut_of_joined_once (h : (joinsOf u tr).length = 1) : ∃ pre su draw post,
    tr = pre ++ (su, .join u draw) :: post ∧ joinsOf u tr = [su] ∧
      (∀ p ∈ pre, p.2.joiner ≠ some u) ∧ ∀ p ∈ post, p.2.joiner ≠ some u := by
  obtain ⟨⟨su, m⟩, hf⟩ := List.length_eq_one_iff.mp ((List.length_map _).symm.trans h)
  obtain ⟨pre, post, rfl, hpre, hm, hpost⟩ := List.filter_eq_cons_iff.mp hf
  have hm' : m.joiner = some u := by simpa using hm
  cases m with
  | join w draw =>
    obtain rfl : w = u := Option.some.inj hm'
    refine ⟨pre, su, draw, post, rfl, by rw [joinsOf, hf]; rfl, ?_, ?_⟩
    · intro p hp hj
      exact hpre p hp (by simpa using hj)
    · intro p hp hj
      exact absurd hp (by simpa [hj] using List.filter_eq_nil_iff.mp hpost p)
  | _ => simp [RoomMove.joiner] at hm'

theorem not_joined_after {pre post : List (RoomSys × RoomMove)} {p : RoomSys × RoomMove}
    (h : (joinsOf u (pre ++ p :: post)).length = 1) (hpre : ∃ p ∈ pre, p.2.joiner = some u) :
    ∀ p ∈ post, p.2.joiner ≠ some u := by
  intro q hq he
  obtain ⟨q', hq', he'⟩ := hpre
  have hone : 0 < (joinsOf u pre).length :=
    List.length_pos_of_mem (List.mem_map_of_mem (List.mem_filter.mpr ⟨hq', by simpa using he'⟩))
  have htwo : 0 < (joinsOf u (p :: post)).length :=
    List.length_pos_of_mem (List.mem_map_of_mem (List.mem_filter.mpr ⟨.tail p hq, by simpa using he⟩))
  have hsum : (joinsOf u (pre ++ p :: post)).length =
      (joinsOf u pre).length + (joinsOf u (p :: post)).length := by
    simp only [joinsOf, List.filter_append, List.map_append, List.length_append]
  omega

theorem not_has_of_run (hrun : Run (RoomStep cfg) s₀ tr s) (ho : s₀.room.Ordered cfg.backend)
    (hj : ∀ p ∈ tr, p.2.joiner ≠ some u) (hu : ¬ s₀.line.Has u) : ¬ s.line.Has u :=
  (hrun.invariant (fun s => s.room.Ordered cfg.backend ∧ ¬ s.line.Has u)
    (fun _ m => m.joiner ≠ some u)
    (fun _ m _ h hm hs => hs ▸ ⟨ordered_exec h.1 m, (exec_moves h.1 m).invariant
      (fun _ _ hmove => hmove.not_has hm) h.2⟩) ⟨ho, hu⟩ hj).2

theorem has_of_run (hrun : Run (RoomStep cfg) s₀ tr s) (ho : s₀.room.Ordered cfg.backend)
    (hu : s₀.line.Has u) : s.line.Has u :=
  (hrun.invariant (fun s => s.room.Ordered cfg.backend ∧ s.line.Has u) (fun _ _ => True)
    (fun _ m _ h _ hs => hs ▸ ⟨ordered_exec h.1 m, (exec_moves h.1 m).invariant
      (fun _ _ hmove => hmove.has) h.2⟩) ⟨ho, hu⟩ fun _ _ => trivial).2

theorem behind_of_run (hrun : Run (RoomStep cfg) s₀ tr s) (ho : s₀.room.Ordered cfg.backend)
    (hju : ∀ p ∈ tr, p.2.joiner ≠ some u) (hjv : ∀ p ∈ tr, p.2.joiner ≠ some v)
    (hb : s₀.line.Behind u v) : s.line.Behind u v :=
  (hrun.invariant (fun s => s.room.Ordered cfg.backend ∧ s.line.Behind u v)
    (fun _ m => m.joiner ≠ some u ∧ m.joiner ≠ some v)
    (fun _ m _ h hm hs => hs ▸ ⟨ordered_exec h.1 m, (exec_moves h.1 m).invariant
      (fun _ _ hmove => hmove.behind hm.1 hm.2) h.2⟩) ⟨ho, hb⟩
    fun p hp => ⟨hju p hp, hjv p hp⟩).2

theorem has_of_join (ho : s.room.Ordered cfg.backend) (draw : Draw) :
    (s.exec cfg (.join u draw)).line.Has u := by
  by_cases hj : s.room.joinsActive cfg s.clock = true
  · exact .inr (.inl (mem_active_of_join u draw ho hj))
  · exact .inl (mem_pool_of_join u draw ho (Bool.eq_false_iff.mpr hj))

theorem has_of_joined {clock : Nat} (hrun : Run (RoomStep cfg) (.start clock) tr s)
    (hjoined : ∃ p ∈ tr, p.2.joiner = some u) : s.line.Has u := by
  obtain ⟨⟨su, m⟩, hp, hpu⟩ := hjoined
  obtain ⟨pre, post, w, rfl, hfirst, hjoin, hrest⟩ := hrun.split hp
  have ho := ordered_run hfirst
  cases m with
  | join user draw =>
    obtain rfl : user = u := Option.some.inj hpu
    have hhas := has_of_join (u := user) ho draw
    rw [RoomStep] at hjoin
    exact has_of_run hrest (hjoin ▸ ordered_exec ho _) (hjoin ▸ hhas)
  | _ => simp [RoomMove.joiner] at hpu

theorem joined_before {pre post : List (RoomSys × RoomMove)} {p : RoomSys × RoomMove}
    (hrun : Run (RoomStep cfg) s₀ (pre ++ p :: post) s) (hu : (joinsOf u (pre ++ p :: post)).length = 1)
    (hearly : ∀ su ∈ joinsOf u (pre ++ p :: post), su.clock < p.1.clock) :
    ∃ q ∈ pre, q.2.joiner = some u := by
  obtain ⟨su, hsu⟩ := List.length_eq_one_iff.mp hu
  have hmem : su ∈ joinsOf u (pre ++ p :: post) := by simp [hsu]
  have hless := hearly su hmem
  obtain ⟨q, hq, rfl⟩ := List.mem_map.mp hmem
  obtain ⟨hq, hqu⟩ := List.mem_filter.mp hq
  refine ⟨q, ?_, by simpa using hqu⟩
  rcases List.mem_append.mp hq with hq | hq
  · exact hq
  · obtain ⟨w, _, hstep, hafter⟩ := hrun.cut
    have hsuffix : Run (RoomStep cfg) p.1 (p :: post) s := (Run.single hstep).append hafter
    have hclock := clock_le_of_run hsuffix hq
    omega

theorem behind_of_join (ho : s.room.Ordered cfg.backend) (draw : Draw)
    (hj : s.room.joinsActive cfg s.clock = true) (hv : ¬ s.line.Has v)
    (hu : u ∈ s.popped ∨ u ∈ members s.room.active) (hahead : StaysAhead cfg u v s) :
    (s.exec cfg (.join v draw)).line.Behind u v := by
  obtain ⟨hp, ha | ⟨hm, _⟩⟩ := handleJoin_active v draw ho hj
  · obtain ⟨r, hsplit, hplace⟩ := members_place_split
      (cfg.backend.stays ⟨v, s.room.tailScore cfg s.clock draw⟩)
      (zrem s.room.active v) ⟨v, s.room.tailScore cfg s.clock draw⟩
    have hout : v ∉ members (zrem s.room.active v) := by simp [members_zrem]
    have hfront : u ∈ s.popped ∨ u ∈ members ((zrem s.room.active v).takeWhile
        (cfg.backend.stays ⟨v, s.room.tailScore cfg s.clock draw⟩)) := by
      refine hu.imp_right fun hm => ?_
      obtain ⟨x, hx, rfl⟩ := List.mem_map.mp hm
      have hne : x.member ≠ v := fun he => hv (.inr (.inl (he ▸ hm)))
      have hstays := hahead x hx rfl
      rw [← tailScore_of_nonempty draw (List.ne_nil_of_mem hx)] at hstays
      refine List.mem_map_of_mem (mem_takeWhile ?_ ?_ hstays)
      · exact (ho.active.sublist List.filter_sublist).imp fun h hy => Backend.stays_of_order h hy
      · exact List.mem_filter.mpr ⟨hx, by simpa using hne⟩
    have hactive : (s.exec cfg (.join v draw)).line.active =
        members ((zrem s.room.active v).takeWhile
          (cfg.backend.stays ⟨v, s.room.tailScore cfg s.clock draw⟩)) ++ v :: r := by
      simpa only [RoomSys.line, RoomSys.exec, ha, placed] using hplace
    refine Line.behind_of_enter hfront hv (fun hm => hout ?_) ?_ rfl hactive
    · rw [hsplit]
      exact List.mem_append_left _ hm
    · simp [RoomSys.line, RoomSys.exec, hp, members_zrem]
  · exact absurd (.inr (.inl hm)) hv

/-- From the join of `v` behind `u` on, the order stands. -/
theorem neverBefore_of_cut {clock : Nat} {pre post : List (RoomSys × RoomMove)} {sv : RoomSys}
    {draw : Draw} (hrun : Run (RoomStep cfg) (.start clock) (pre ++ (sv, .join v draw) :: post) s)
    (hpre : ∀ p ∈ pre, p.2.joiner ≠ some v) (hpost : ∀ p ∈ post, p.2.joiner ≠ some v)
    (hu : ∀ p ∈ post, p.2.joiner ≠ some u) (hin : u ∈ sv.popped ∨ u ∈ members sv.room.active)
    (hj : sv.room.joinsActive cfg sv.clock = true) (hahead : StaysAhead cfg u v sv) :
    NeverBefore u v s.popped := by
  obtain ⟨w, hbefore, rfl, hafter⟩ := hrun.cut
  have ho := ordered_run hbefore
  have hv : ¬ sv.line.Has v := not_has_of_run hbefore (ordered_start _ clock) hpre
    (by simp [RoomSys.start, RoomSys.line, Room.empty, members, Line.Has])
  have hne : u ≠ v := by
    rintro rfl
    rcases hin with hm | hm
    · exact hv (.inr (.inr hm))
    · exact hv (.inr (.inl hm))
  have hbehind := behind_of_run hafter (ordered_exec ho _) hu hpost
    (behind_of_join ho draw hj hv hin hahead)
  intro l r hpop
  have hfollows := (Line.follows_append.mp hbehind.order).1
  have hpop' : s.line.popped = l ++ v :: r := hpop
  rw [hpop'] at hfollows
  exact hfollows.mem_of_split hne

theorem joinsActive_of_nonempty (h : s.room.active ≠ []) :
    s.room.joinsActive cfg s.clock = true := by
  have hpos := List.length_pos_iff.mpr h
  simp [Room.joinsActive, hpos]

/-- A user who joins once while `u` is in the active queue with a score that their own tail score
does not undercut is never popped before `u`. -/
theorem fifo_of_run {clock : Nat} (hrun : Run (RoomStep cfg) (.start clock) tr s)
    (hu : (joinsOf u tr).length = 1) (hv : (joinsOf v tr).length = 1)
    (hin : ∀ sv ∈ joinsOf v tr, u ∈ members sv.room.active)
    (hahead : ∀ sv ∈ joinsOf v tr, StaysAhead cfg u v sv) : NeverBefore u v s.popped := by
  obtain ⟨pre, sv, draw, post, rfl, hjoins, hpre, hpost⟩ := cut_of_joined_once hv
  have hsv : sv ∈ joinsOf v (pre ++ (sv, .join v draw) :: post) := by simp [hjoins]
  have hactive := hin sv hsv
  obtain ⟨w, hbefore, _, _⟩ := hrun.cut
  -- `u` is in the queue, so the one join of `u` lies before the join of `v`
  have hearlier : ∃ p ∈ pre, p.2.joiner = some u := by
    by_contra hnone
    have hout := not_has_of_run hbefore (ordered_start _ clock)
      (fun p hp he => hnone ⟨p, hp, he⟩)
      (by simp [RoomSys.start, RoomSys.line, Room.empty, members, Line.Has])
    exact hout (.inr (.inl hactive))
  have hlater := not_joined_after hu hearlier
  have hne : sv.room.active ≠ [] := fun he => by simp [he, members] at hactive
  exact neverBefore_of_cut hrun hpre hpost hlater (.inr hactive) (joinsActive_of_nonempty hne)
    (hahead sv hsv)

/-- A user who joins once after `on_sale_at` is never popped before a user of the pre-sale who has
left the pool by then and has no score above the new one. -/
theorem lottery_first_of_run {clock t : Nat} (hrun : Run (RoomStep cfg) (.start clock) tr s)
    (hon : cfg.onSaleAt = some t) (hu : (joinsOf u tr).length = 1)
    (hv : (joinsOf v tr).length = 1) (hearly : ∀ su ∈ joinsOf u tr, su.clock < t)
    (hlate : ∀ sv ∈ joinsOf v tr, t ≤ sv.clock)
    (hdrawn : ∀ sv ∈ joinsOf v tr, u ∉ members sv.room.pool ∧ StaysAhead cfg u v sv) :
    NeverBefore u v s.popped := by
  obtain ⟨pre, sv, draw, post, rfl, hjoins, hpre, hpost⟩ := cut_of_joined_once hv
  have hsv : sv ∈ joinsOf v (pre ++ (sv, .join v draw) :: post) := by simp [hjoins]
  obtain ⟨hpool, hahead⟩ := hdrawn sv hsv
  have hsale := hlate sv hsv
  obtain ⟨w, hbefore, _, _⟩ := id hrun.cut
  -- the clock puts the join of `u` before the join of `v`
  have hclocks : ∀ su ∈ joinsOf u (pre ++ (sv, .join v draw) :: post), su.clock < sv.clock :=
    fun su hsu => (hearly su hsu).trans_le hsale
  have hjoined := joined_before hrun hu hclocks
  have hlater := not_joined_after hu hjoined
  have hin : sv.line.Has u := has_of_joined hbefore hjoined
  have hj : sv.room.joinsActive cfg sv.clock = true := by
    simp [Room.joinsActive, Room.isPreSale, hon, hsale]
  have hline : u ∈ sv.popped ∨ u ∈ members sv.room.active :=
    (hin.resolve_left hpool).symm
  exact neverBefore_of_cut hrun hpre hpost hlater hline hj hahead

end Runs

section Demo

instance (cfg : RoomConfig) (u v : String) (s : RoomSys) : Decidable (StaysAhead cfg u v s) :=
  inferInstanceAs (Decidable (∀ x ∈ s.room.active, x.member = u →
    cfg.backend.stays ⟨v, s.clock + s.room.active.length⟩ x = true))

/-- The last score that the queue has given out lies in the future when the queue shrinks. -/
def demoOvertaken : List RoomMove :=
  [.join "alice-01" demoDraw, .join "bobby-01" demoLowDraw, .tick 1000, .cron fun _ => demoDraw,
    .join "carol-01" demoDraw, demoAdmit 2, .join "david-01" demoDraw, demoAdmit 1]

theorem later_user_popped_first : ¬ ∀ (cfg : RoomConfig) (clock : Nat)
    (tr : List (RoomSys × RoomMove)) (s : RoomSys) (u v : String),
    Run (RoomStep cfg) (.start clock) tr s → (joinsOf u tr).length = 1 → (joinsOf v tr).length = 1 →
    (∀ sv ∈ joinsOf v tr, u ∈ members sv.room.active) → NeverBefore u v s.popped := by
  intro h
  have hh := h (demoRoom .redis) 0 _ _ "carol-01" "david-01" (run_trace _ _ demoOvertaken)
    (by decide +kernel) (by decide +kernel) (by decide +kernel)
  have hin := hh ["bobby-01", "alice-01"] [] (by decide +kernel)
  exact absurd hin (by decide)

def demoDrawn : List RoomMove :=
  [.join "alice-01" demoDraw, .tick 1000, .cron fun _ => demoDraw, .tick 1000,
    .join "david-01" demoDraw, demoAdmit 1, demoAdmit 1]

theorem users_popped_in_order :
    NeverBefore "alice-01" "david-01" ((RoomSys.start 0).after (demoRoom .kv) demoDrawn).popped :=
  fifo_of_run (run_trace _ _ demoDrawn) (by decide +kernel) (by decide +kernel) (by decide +kernel)
    (by decide +kernel)

theorem lottery_user_popped_first :
    NeverBefore "alice-01" "david-01" ((RoomSys.start 0).after (demoRoom .redis) demoDrawn).popped :=
  lottery_first_of_run (run_trace _ _ demoDrawn) rfl (by decide +kernel) (by decide +kernel)
    (by decide +kernel) (by decide +kernel) (by decide +kernel)

def demoUnswept : List RoomMove :=
  [.join "alice-01" demoDraw, .tick 1000, .join "david-01" demoDraw, demoAdmit 1]

theorem late_user_popped_first : ¬ ∀ (cfg : RoomConfig) (clock t : Nat)
    (tr : List (RoomSys × RoomMove)) (s : RoomSys) (u v : String),
    Run (RoomStep cfg) (.start clock) tr s → cfg.onSaleAt = some t →
    (joinsOf u tr).length = 1 → (joinsOf v tr).length = 1 → (∀ su ∈ joinsOf u tr, su.clock < t) →
    (∀ sv ∈ joinsOf v tr, t ≤ sv.clock) → NeverBefore u v s.popped := by
  intro h
  have hh := h (demoRoom .redis) 0 1000 _ _ "alice-01" "david-01" (run_trace _ _ demoUnswept) rfl
    (by decide +kernel) (by decide +kernel) (by decide +kernel) (by decide +kernel)
  have hin := hh [] [] (by decide +kernel)
  exact absurd hin (by decide)

end Demo

end CrowdTic
