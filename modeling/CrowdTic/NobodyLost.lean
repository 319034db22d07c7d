import CrowdTic.RoomCommands
import CrowdTic.RoomRuns

/-! Users between the pool and the active queue while the calls are
interleaved at single commands: which commands keep every user who has joined
and not been popped in exactly one of the two. -/

namespace CrowdTic

open Ranked Visit

def RoomCall.deletes : RoomCall → Bool
  | .shuffle (.pipe _) _ _ => true
  | _ => false

/-- The call will take the user out of the pool. -/
def RoomCall.clears (user : String) : RoomCall → Bool
  | .join u .removePool => u = user
  | c => c.deletes

namespace CommandSys

variable (s : CommandSys)

def InPool (u : String) : Prop := u ∈ members s.room.pool

def InActive (u : String) : Prop := u ∈ members s.room.active

/-- The user has joined and no admission has popped them since. -/
def Due (u : String) : Prop := Inside u s.visits

/-- Nobody is popped twice for one join, and with no call in flight whoever is due is in exactly
one of the two queues. -/
structure NobodyLost : Prop where
  popsPaid : Paired s.visits
  inOne : s.calls = [] → ∀ u, s.Due u → (s.InPool u ↔ ¬ s.InActive u)

/-- A call other than `i` will take the user out of the pool. -/
def ClearedBeside (i : Nat) (u : String) : Prop := ∃ c ∈ s.calls.eraseIdx i, c.clears u = true

/-- The next command of call `i` loses nobody and doubles nobody. -/
def Spares (i : Nat) : RoomCall → Prop
  | .join u .removePool => s.InPool u → s.Due u → s.InActive u
  | .join u (.addPool _) => s.InActive u → s.ClearedBeside i u
  | .shuffle (.pipe ((u, _) :: _)) _ _ => s.Due u
  | .shuffle (.pipe []) _ _ => ∀ u ∈ members s.room.pool, s.Due u → s.InActive u
  | _ => True

/-- The next command of a call spares the users. Where a pipeline stops before its `DEL`, nobody
stays in the pool who should not be there. -/
def SparesUsers : CommandMove → Prop
  | .run i _ => ∀ c ∈ s.calls[i]?, s.Spares i c
  | .stop i _ => ∀ c ∈ s.calls[i]?, c.deletes = true →
      ∀ u ∈ members s.room.pool, (s.Due u ∧ ¬ s.InActive u) ∨ s.ClearedBeside i u
  | _ => True

/-- Between the commands: who is due is somewhere, and who is in the pool for no good will be
taken out. -/
structure Kept : Prop where
  activeOnce : (members s.room.active).Nodup
  activeDue : ∀ u, s.InActive u → s.Due u
  dueSomewhere : ∀ u, s.Due u → s.InPool u ∨ s.InActive u
  poolOnly : ∀ u, s.InPool u → (s.Due u ∧ ¬ s.InActive u) ∨ ∃ c ∈ s.calls, c.clears u = true
  paired : Paired s.visits

end CommandSys

section Effects

/-- What the turns of a call do to the queues. -/
inductive Effect (c : RoomCall) (r : Room) : Turn → Prop
  | quiet (room : Room) (next : Option RoomCall) (hp : room.pool = r.pool)
      (ha : room.active = r.active) (hc : ∀ u, c.clears u = false) : Effect c r ⟨room, next, []⟩
  | enterActive (user : String) (score : ℚ) (hc : c = .join user (.addActive score)) :
      Effect c r ⟨{ r with active := zadd r.active user score }, some (.join user .removePool),
        [.enters user]⟩
  | leavePool (user : String) (next : Option RoomCall) (hc : c = .join user .removePool) :
      Effect c r ⟨{ r with pool := zrem r.pool user }, next, []⟩
  | enterPool (user : String) (score : ℚ) (next : Option RoomCall)
      (hc : c = .join user (.addPool score)) :
      Effect c r ⟨{ r with pool := zadd r.pool user score }, next, [.enters user]⟩
  | copy (user : String) (score : Nat) (adds : List (String × Nat)) (draws : Nat → Draw)
      (waiting : Option BatchField) (hc : c = .shuffle (.pipe ((user, score) :: adds)) draws waiting) :
      Effect c r ⟨{ r with active := zadd r.active user score },
        some (.shuffle (.pipe adds) draws waiting), []⟩
  | wipe (draws : Nat → Draw) (waiting : Option BatchField) (next : Option RoomCall)
      (hc : c = .shuffle (.pipe []) draws waiting) : Effect c r ⟨{ r with pool := [] }, next, []⟩
  | pops (k : Nat) (next : Option RoomCall) (hc : ∀ u, c.clears u = false) :
      Effect c r ⟨{ r with active := r.active.drop k }, next,
        (members (r.active.take k)).reverse.map .leaves⟩

variable {c : RoomCall} {r : Room}

theorem Effect.read (next : Option RoomCall) (hc : ∀ u, c.clears u = false) : Effect c r ⟨r, next, []⟩ :=
  .quiet r next rfl rfl hc

theorem Effect.ite {p : Prop} [Decidable p] {t t' : Turn} (h : Effect c r t) (h' : Effect c r t') :
    Effect c r (if p then t else t') := by
  by_cases hp : p
  · rwa [if_pos hp]
  · rwa [if_neg hp]

variable (cfg : RoomConfig) (r : Room) (now : Nat)

theorem effect_join (user : String) (pc : JoinPc) :
    Effect (.join user pc) r (pc.turn cfg user r) := by
  cases pc with
  | card nowMs draw => exact .ite (.read _ fun _ => rfl) (.read _ fun _ => rfl)
  | addActive score => exact .enterActive user score rfl
  | removePool => exact .leavePool user _ rfl
  | addPool score => exact .enterPool user score _ rfl
  | size active => exact .read _ fun _ => rfl
  | position active => exact .read _ fun _ => rfl

theorem effect_shuffle (pc : ShufflePc) (draws : Nat → Draw) (waiting : Option BatchField)
    (poolFirst : Bool) :
    Effect (.shuffle pc draws waiting) r (pc.turn draws waiting r now poolFirst) := by
  cases pc with
  | pipe adds =>
    cases adds with
    | nil => exact .wipe draws waiting _ rfl
    | cons x adds => exact .copy x.1 x.2 adds draws waiting rfl
  | range => exact .ite (.read _ fun _ => rfl) (.read _ fun _ => rfl)
  | resetMark => exact .quiet _ _ rfl rfl fun _ => rfl
  | sizes => exact .read _ fun _ => rfl
  | poolSize aSize => exact .read _ fun _ => rfl
  | activeSize pSize => exact .read _ fun _ => rfl

theorem effect_admission (batch : BatchField) (pc : AdmitPc) :
    Effect (.admission batch pc) r (pc.turn cfg batch r now) := by
  cases pc with
  | card => exact .ite (.read _ fun _ => rfl) (.read _ fun _ => rfl)
  | getBucket want => exact .read _ fun _ => rfl
  | setBucket want time read => exact .quiet _ _ rfl rfl fun _ => rfl
  | popMin want => exact .ite (.pops _ _ fun _ => rfl) (.read _ fun _ => rfl)
  | popOne left popped => exact .pops 1 _ fun _ => rfl
  | getMark popped => exact .read _ fun _ => rfl
  | setMark watermark => exact .quiet _ _ rfl rfl fun _ => rfl

theorem effect_turn (poolFirst : Bool) : Effect c r (c.turn cfg r now poolFirst) := by
  cases c with
  | join user pc => exact effect_join cfg r user pc
  | shuffle pc draws waiting => exact effect_shuffle r now pc draws waiting poolFirst
  | admission batch pc => exact effect_admission cfg r now batch pc

end Effects

section Calls

variable {s : CommandSys} {i : Nat} {c d : RoomCall} {next : Option RoomCall} {u : String}

theorem mem_calls (h : s.calls[i]? = some c) :
    d ∈ s.calls ↔ d = c ∨ d ∈ s.calls.eraseIdx i := by
  obtain ⟨hi, rfl⟩ := List.getElem?_eq_some_iff.mp h
  rw [← (List.getElem_cons_eraseIdx_perm hi).mem_iff, List.mem_cons]

theorem mem_goOn (h : s.calls[i]? = some c) :
    d ∈ s.goOn i next ↔ next = some d ∨ d ∈ s.calls.eraseIdx i := by
  obtain ⟨hi, _⟩ := List.getElem?_eq_some_iff.mp h
  cases next with
  | none => simp [CommandSys.goOn]
  | some e =>
    have hperm : (s.goOn i (some e)).Perm (e :: s.calls.eraseIdx i) :=
      List.set_perm_cons_eraseIdx hi e
    rw [hperm.mem_iff, List.mem_cons, Option.some.injEq, eq_comm]

theorem beside_of_cleared (h : s.calls[i]? = some c) (hc : c.clears u = false)
    (hu : ∃ d ∈ s.calls, d.clears u = true) : s.ClearedBeside i u := by
  obtain ⟨d, hd, hclear⟩ := hu
  rcases (mem_calls h).mp hd with rfl | hd
  · simp [hc] at hclear
  · exact ⟨d, hd, hclear⟩

theorem CommandSys.ClearedBeside.goOn (h : s.calls[i]? = some c) (hu : s.ClearedBeside i u) :
    ∃ d ∈ s.goOn i next, d.clears u = true := by
  obtain ⟨d, hd, hclear⟩ := hu
  exact ⟨d, (mem_goOn h).mpr (.inr hd), hclear⟩

end Calls

section Keeping

open CommandSys

variable {s s' : CommandSys} {i : Nat} {c : RoomCall} {u : String}

theorem CommandSys.Kept.frame (hk : s.Kept) (hp : s'.room.pool = s.room.pool)
    (ha : s'.room.active = s.room.active) (hv : s'.visits = s.visits)
    (hcalls : ∀ u, s.InPool u → (s.Due u ∧ ¬ s.InActive u) ∨ ∃ c ∈ s'.calls, c.clears u = true) :
    s'.Kept := by
  have hdue : ∀ u, s'.Due u ↔ s.Due u := fun u => by rw [Due, Due, hv]
  have hactive : ∀ u, s'.InActive u ↔ s.InActive u := fun u => by rw [InActive, InActive, ha]
  have hpool : ∀ u, s'.InPool u ↔ s.InPool u := fun u => by rw [InPool, InPool, hp]
  refine ⟨ha ▸ hk.activeOnce, fun u hu => (hdue u).mpr (hk.activeDue u ((hactive u).mp hu)),
    fun u hu => ?_, fun u hu => ?_, hv ▸ hk.paired⟩
  · rw [hpool, hactive]
    exact hk.dueSomewhere u ((hdue u).mp hu)
  · rw [hdue, hactive]
    exact hcalls u ((hpool u).mp hu)

/-- A pool member who needs another call to be taken out keeps it. -/
theorem CommandSys.Kept.poolOnly_beside (hk : s.Kept) (h : s.calls[i]? = some c)
    (hc : c.clears u = false) (hu : s.InPool u) :
    (s.Due u ∧ ¬ s.InActive u) ∨ s.ClearedBeside i u :=
  (hk.poolOnly u hu).imp_right (beside_of_cleared h hc)

theorem kept_enterActive (hk : s.Kept) {user : String} {score : ℚ}
    (h : s.calls[i]? = some (.join user (.addActive score))) :
    (s.advance i ⟨{ s.room with active := zadd s.room.active user score },
      some (.join user .removePool), [.enters user]⟩).Kept where
  activeOnce := zadd_nodup hk.activeOnce
  activeDue u hu := by
    rcases mem_members_zadd.mp hu with rfl | hu
    · exact .inl rfl
    · exact .inr (hk.activeDue u hu)
  dueSomewhere u hu := by
    rcases hu with rfl | hu
    · exact .inr (mem_members_zadd.mpr (.inl rfl))
    · exact (hk.dueSomewhere u hu).imp_right fun ha => mem_members_zadd.mpr (.inr ha)
  poolOnly u hu := by
    by_cases hne : u = user
    · exact .inr ⟨_, (mem_goOn h).mpr (.inl rfl), decide_eq_true hne.symm⟩
    · rcases hk.poolOnly_beside h rfl hu with ⟨hd, hn⟩ | hb
      · refine .inl ⟨.inr hd, fun ha => ?_⟩
        exact (mem_members_zadd.mp ha).elim hne hn
      · have hgo : ∃ d ∈ s.goOn i (some (.join user .removePool)), d.clears u = true := hb.goOn h
        exact .inr hgo
  paired := hk.paired

theorem kept_leavePool (hk : s.Kept) {user : String} {next : Option RoomCall}
    (h : s.calls[i]? = some (.join user .removePool))
    (hs : s.InPool user → s.Due user → s.InActive user) :
    (s.advance i ⟨{ s.room with pool := zrem s.room.pool user }, next, []⟩).Kept := by
  have hpool : ∀ u, u ∈ members (zrem s.room.pool user) ↔ s.InPool u ∧ u ≠ user := by
    intro u
    rw [members_zrem, List.mem_filter, decide_eq_true_eq]
    rfl
  refine ⟨hk.activeOnce, hk.activeDue, fun u hu => ?_, fun u hu => ?_, hk.paired⟩
  · rcases hk.dueSomewhere u hu with hp | ha
    · by_cases hne : u = user
      · exact .inr (hne ▸ hs (hne ▸ hp) (hne ▸ hu))
      · exact .inl ((hpool u).mpr ⟨hp, hne⟩)
    · exact .inr ha
  · obtain ⟨hp, hne⟩ := (hpool u).mp hu
    have hclear : (RoomCall.join user .removePool).clears u = false := decide_eq_false hne.symm
    exact (hk.poolOnly_beside h hclear hp).imp_right fun hb => hb.goOn h

theorem kept_enterPool (hk : s.Kept) {user : String} {score : ℚ} {next : Option RoomCall}
    (h : s.calls[i]? = some (.join user (.addPool score)))
    (hs : s.InActive user → s.ClearedBeside i user) :
    (s.advance i ⟨{ s.room with pool := zadd s.room.pool user score }, next,
      [.enters user]⟩).Kept where
  activeOnce := hk.activeOnce
  activeDue u hu := .inr (hk.activeDue u hu)
  dueSomewhere u hu := by
    rcases hu with rfl | hu
    · exact .inl (mem_members_zadd.mpr (.inl rfl))
    · exact (hk.dueSomewhere u hu).imp_left fun hp => mem_members_zadd.mpr (.inr hp)
  poolOnly u hu := by
    rcases mem_members_zadd.mp hu with rfl | hp
    · by_cases ha : s.InActive u
      · exact .inr ((hs ha).goOn h)
      · exact .inl ⟨.inl rfl, ha⟩
    · rcases hk.poolOnly_beside h rfl hp with ⟨hd, hn⟩ | hb
      · exact .inl ⟨.inr hd, hn⟩
      · exact .inr (hb.goOn h)
  paired := hk.paired

theorem kept_copy (hk : s.Kept) {user : String} {score : Nat} {adds : List (String × Nat)}
    {draws : Nat → Draw} {waiting : Option BatchField}
    (h : s.calls[i]? = some (.shuffle (.pipe ((user, score) :: adds)) draws waiting))
    (hs : s.Due user) :
    (s.advance i ⟨{ s.room with active := zadd s.room.active user score },
      some (.shuffle (.pipe adds) draws waiting), []⟩).Kept where
  activeOnce := zadd_nodup hk.activeOnce
  activeDue u hu := by
    rcases mem_members_zadd.mp hu with rfl | hu
    · exact hs
    · exact hk.activeDue u hu
  dueSomewhere u hu :=
    (hk.dueSomewhere u hu).imp_right fun ha => mem_members_zadd.mpr (.inr ha)
  -- the rest of the pipeline still has its `DEL`
  poolOnly u hu := .inr ⟨_, (mem_goOn h).mpr (.inl rfl), rfl⟩
  paired := hk.paired

theorem kept_wipe (hk : s.Kept) {next : Option RoomCall}
    (hs : ∀ u ∈ members s.room.pool, s.Due u → s.InActive u) :
    (s.advance i ⟨{ s.room with pool := [] }, next, []⟩).Kept where
  activeOnce := hk.activeOnce
  activeDue := hk.activeDue
  dueSomewhere u hu := by
    rcases hk.dueSomewhere u hu with hp | ha
    · exact .inr (hs u hp hu)
    · exact .inr ha
  poolOnly u hu := by simp [InPool, advance, members] at hu
  paired := hk.paired

theorem kept_pops (hk : s.Kept) {k : Nat} {next : Option RoomCall} (h : s.calls[i]? = some c)
    (hc : ∀ u, c.clears u = false) :
    (s.advance i ⟨{ s.room with active := s.room.active.drop k }, next,
      (members (s.room.active.take k)).reverse.map .leaves⟩).Kept := by
  have hsplit : members s.room.active =
      members (s.room.active.take k) ++ members (s.room.active.drop k) := by
    rw [members, members, members, ← List.map_append, List.take_append_drop]
  have hnodup := hk.activeOnce
  rw [hsplit, List.nodup_append] at hnodup
  obtain ⟨hout, hrest, hdisj⟩ := hnodup
  have hactive : ∀ u, s.InActive u ↔
      u ∈ members (s.room.active.take k) ∨ u ∈ members (s.room.active.drop k) := fun u => by
    rw [InActive, hsplit, List.mem_append]
  have hdue : ∀ u, Inside u ((members (s.room.active.take k)).reverse.map .leaves ++ s.visits) ↔
      u ∉ members (s.room.active.take k) ∧ s.Due u := fun u => by
    rw [inside_leaves, List.mem_reverse]
    rfl
  refine ⟨hrest, fun u hu => ?_, fun u hu => ?_, fun u hu => ?_, ?_⟩
  · exact (hdue u).mpr ⟨fun ho => hdisj u ho u hu rfl, hk.activeDue u ((hactive u).mpr (.inr hu))⟩
  · obtain ⟨hstay, hd⟩ := (hdue u).mp hu
    exact (hk.dueSomewhere u hd).imp_right fun ha => ((hactive u).mp ha).resolve_left hstay
  · rcases hk.poolOnly_beside h (hc u) hu with ⟨hd, hn⟩ | hb
    · refine .inl ⟨(hdue u).mpr ⟨fun ho => hn ((hactive u).mpr (.inl ho)), hd⟩, fun ha => ?_⟩
      exact hn ((hactive u).mpr (.inr ha))
    · exact .inr (hb.goOn h)
  · refine paired_leaves (List.nodup_reverse.mpr hout) (fun u hu => ?_) hk.paired
    exact hk.activeDue u ((hactive u).mpr (.inl (List.mem_reverse.mp hu)))

theorem kept_advance (hk : s.Kept) {t : Turn} (h : s.calls[i]? = some c) (hs : s.Spares i c)
    (he : Effect c s.room t) : (s.advance i t).Kept := by
  cases he with
  | quiet room next hp ha hc =>
    refine hk.frame hp ha rfl fun u hu => ?_
    exact (hk.poolOnly_beside h (hc u) hu).imp_right fun hb => hb.goOn h
  | enterActive user score hc => exact kept_enterActive hk (hc ▸ h)
  | leavePool user next hc =>
    subst hc
    exact kept_leavePool hk h hs
  | enterPool user score next hc =>
    subst hc
    exact kept_enterPool hk h hs
  | copy user score adds draws waiting hc =>
    subst hc
    exact kept_copy hk h hs
  | wipe draws waiting next hc =>
    subst hc
    exact kept_wipe hk hs
  | pops k next hc => exact kept_pops hk h hc

theorem kept_begin (hk : s.Kept) (c : RoomCall) : (s.begin c).Kept :=
  hk.frame rfl rfl rfl fun u hu => (hk.poolOnly u hu).imp_right fun ⟨d, hd, hclear⟩ =>
    ⟨d, List.mem_append_left _ hd, hclear⟩

theorem kept_stop (hk : s.Kept) {next : Option RoomCall} (h : s.calls[i]? = some c)
    (hc : ∀ u, c.clears u = c.deletes) (hs : c.deletes = true →
      ∀ u ∈ members s.room.pool, (s.Due u ∧ ¬ s.InActive u) ∨ s.ClearedBeside i u) :
    { s with calls := s.goOn i next : CommandSys }.Kept := by
  refine hk.frame rfl rfl rfl fun u hu => ?_
  have hbeside : (s.Due u ∧ ¬ s.InActive u) ∨ s.ClearedBeside i u := by
    by_cases hd : c.deletes = true
    · exact hs hd u hu
    · exact hk.poolOnly_beside h ((hc u).trans (Bool.eq_false_iff.mpr hd)) hu
  exact hbeside.imp_right fun hb => hb.goOn h

theorem kept_exec {cfg : RoomConfig} (hk : s.Kept) {m : CommandMove} (hs : s.SparesUsers m) :
    (s.exec cfg m).Kept := by
  cases m with
  | tick ms => exact hk.frame rfl rfl rfl hk.poolOnly
  | join user draw => exact kept_begin hk _
  | admission request =>
    simp only [exec]
    by_cases ha : request.authorized cfg = true
    · rw [if_pos ha]
      exact kept_begin hk _
    · rwa [if_neg ha]
  | cron draws =>
    simp only [exec]
    by_cases ht : cfg.onSaleAt.any (· ≤ s.clock) = true
    · rw [if_pos ht]
      exact kept_begin hk _
    · rwa [if_neg ht]
  | run i poolFirst =>
    simp only [exec]
    cases h : s.calls[i]? with
    | none => exact hk
    | some c => exact kept_advance hk h (hs c h) (effect_turn cfg s.room s.clock poolFirst)
  | stop i thrown =>
    simp only [exec]
    cases h : s.calls[i]? with
    | none => exact hk
    | some c =>
      cases c with
      | shuffle pc draws waiting =>
        dsimp only
        by_cases hp : pc.piping = true
        · rw [if_pos hp]
          exact kept_stop hk h (fun _ => rfl) (hs _ h)
        · rwa [if_neg hp]
      | _ => exact hk

theorem kept_start (clock : Nat) : (CommandSys.start clock).Kept :=
  ⟨.nil, fun _ h => absurd h List.not_mem_nil, fun _ h => h.elim,
    fun _ h => absurd h List.not_mem_nil, trivial⟩

theorem CommandSys.Kept.nobodyLost (hk : s.Kept) : s.NobodyLost := by
  refine ⟨hk.paired, fun hidle u hu => ⟨fun hp => ?_, fun hn => ?_⟩⟩
  · rcases hk.poolOnly u hp with ⟨_, hn⟩ | ⟨c, hc, _⟩
    · exact hn
    · exact absurd (hidle ▸ hc) List.not_mem_nil
  · exact (hk.dueSomewhere u hu).resolve_right hn

/-- In a run whose commands all spare the users, nobody is lost and nobody is doubled. -/
theorem nobody_lost_of_run {cfg : RoomConfig} {clock : Nat}
    {tr : List (CommandSys × CommandMove)} (hrun : Run (CommandStep cfg) (.start clock) tr s)
    (hs : ∀ p ∈ tr, p.1.SparesUsers p.2) : s.NobodyLost := by
  have hk : s.Kept := hrun.invariant Kept SparesUsers
    (fun t m u ht hm hu => hu ▸ kept_exec ht hm) (kept_start clock) hs
  exact hk.nobodyLost

end Keeping

section Demo

open CommandSys

variable (cfg : RoomConfig)

def CommandSys.after (s : CommandSys) (ms : List CommandMove) : CommandSys :=
  ms.foldl (CommandSys.exec cfg) s

theorem commands_run (s : CommandSys) (ms : List CommandMove) :
    Run (CommandStep cfg) s (Run.record (CommandSys.exec cfg) s ms) (s.after cfg ms) := by
  have hstep : ∀ s m, CommandStep cfg s m (s.exec cfg m) := fun _ _ => rfl
  exact .of_record hstep s ms

def runs (i n : Nat) : List CommandMove := List.replicate n (.run i true)

/-- A join that has read the clock and the empty queue before the sale adds its user to the pool
between the `ZRANGE` and the `DEL` of the sweep. -/
def demoWiped : List CommandMove :=
  .join "alice-01" demoDraw :: runs 0 4 ++ .join "david-01" demoDraw :: runs 0 1 ++
    [.tick 1000, .cron fun _ => demoDraw] ++ runs 1 3 ++ runs 0 3 ++ runs 0 3

instance (s : CommandSys) (u : String) : Decidable (s.InPool u) :=
  inferInstanceAs (Decidable (u ∈ members s.room.pool))

instance (s : CommandSys) (u : String) : Decidable (s.InActive u) :=
  inferInstanceAs (Decidable (u ∈ members s.room.active))

instance (s : CommandSys) (u : String) : Decidable (s.Due u) :=
  inferInstanceAs (Decidable (Inside u s.visits))

instance (s : CommandSys) (i : Nat) (u : String) : Decidable (s.ClearedBeside i u) :=
  inferInstanceAs (Decidable (∃ c ∈ s.calls.eraseIdx i, c.clears u = true))

instance (s : CommandSys) (i : Nat) : (c : RoomCall) → Decidable (s.Spares i c)
  | .join u pc => match pc with
    | .removePool => inferInstanceAs (Decidable (s.InPool u → s.Due u → s.InActive u))
    | .addPool _ => inferInstanceAs (Decidable (s.InActive u → s.ClearedBeside i u))
    | .card _ _ | .addActive _ | .size _ | .position _ => isTrue trivial
  | .shuffle pc _ _ => match pc with
    | .pipe (x :: _) => inferInstanceAs (Decidable (s.Due x.1))
    | .pipe [] => inferInstanceAs (Decidable
        (∀ u ∈ members s.room.pool, s.Due u → s.InActive u))
    | .sizes | .poolSize _ | .activeSize _ | .range | .resetMark => isTrue trivial
  | .admission _ _ => isTrue trivial

instance (s : CommandSys) : (m : CommandMove) → Decidable (s.SparesUsers m)
  | .run i _ => inferInstanceAs (Decidable (∀ c ∈ s.calls[i]?, s.Spares i c))
  | .stop i _ => inferInstanceAs (Decidable (∀ c ∈ s.calls[i]?, c.deletes = true →
      ∀ u ∈ members s.room.pool, (s.Due u ∧ ¬ s.InActive u) ∨ s.ClearedBeside i u))
  | .tick _ | .join _ _ | .admission _ | .cron _ => isTrue trivial

theorem user_lost_by_sweep : ¬ ∀ (cfg : RoomConfig) (clock : Nat)
    (tr : List (CommandSys × CommandMove)) (s : CommandSys),
    Run (CommandStep cfg) (.start clock) tr s → s.NobodyLost := by
  intro h
  have hlost := h (demoRoom .redis) 0 _ _ (commands_run _ _ demoWiped)
  have hidle := hlost.inOne (List.length_eq_zero_iff.mp (by decide +kernel)) "david-01"
    (by decide +kernel)
  exact absurd (hidle.mpr (by decide +kernel)) (by decide +kernel)

def demoKept : List CommandMove :=
  .join "alice-01" demoDraw :: runs 0 4 ++ .join "david-01" demoLowDraw :: runs 0 4 ++
    [.tick 1000, .cron fun _ => demoDraw] ++ runs 0 7 ++
    .admission ⟨"", .truthy (some 1), fun _ => demoDraw⟩ :: runs 0 8

theorem nobody_lost_beside_sweep :
    ((CommandSys.start 0).after (demoRoom .redis) demoKept).NobodyLost :=
  nobody_lost_of_run (commands_run _ _ demoKept) (by decide +kernel)

end Demo

end CrowdTic
