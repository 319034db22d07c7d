import CrowdTic.CronSweep
import CrowdTic.RetryAfter

/-! What one run of the cron sweep reaches. It reads one page of the listing,
and the first event whose calls throw ends it for all that come behind. -/

namespace CrowdTic

open Ranked Remote

section Loop

variable {cfg : RoomConfig} {link : SweepLink} {s : SweepStore} {eid x : String}

theorem not_reaches_nil : ¬ link.Reaches cfg s eid [] := by
  rintro ⟨pre, rest, hl, _⟩
  cases pre <;> simp at hl

theorem reaches_self (rest : List String) : link.Reaches cfg s eid (eid :: rest) :=
  ⟨[], rest, rfl, by simp⟩

theorem reaches_cons (hx : x ≠ eid) {rest : List String} :
    link.Reaches cfg s eid (x :: rest) ↔ link.Answers cfg s x ∧ link.Reaches cfg s eid rest := by
  constructor
  · rintro ⟨pre, rest', hl, hpre⟩
    cases pre with
    | nil => exact absurd (List.cons.inj hl).1 hx
    | cons y pre =>
      simp only [List.cons_append, List.cons.injEq] at hl
      obtain ⟨rfl, hl⟩ := hl
      exact ⟨hpre x List.mem_cons_self, pre, rest', hl, fun z hz => hpre z (.tail x hz)⟩
  · rintro ⟨hans, pre, rest', rfl, hpre⟩
    refine ⟨x :: pre, rest', rfl, fun z hz => ?_⟩
    rcases List.mem_cons.mp hz with rfl | hz
    · exact hans
    · exact hpre z hz

structure PoolSwept (before after : Room) : Prop where
  pool : after.pool = []
  users : ∀ u ∈ members before.pool, u ∈ members after.active

/-- The event waits for its sale's sweep, which is due. -/
structure SweepLink.Waiting (cfg : RoomConfig) (link : SweepLink) (s : SweepStore) (eid : String) :
    Prop where
  ordered : (s.rooms eid).Ordered cfg.backend
  pool : (s.rooms eid).pool ≠ []
  active : (s.rooms eid).active = []
  due : link.Due cfg s eid

theorem sweepEvent_swept (h : link.Answers cfg s eid) (hw : link.Waiting cfg s eid) :
    ∃ room, sweepEvent cfg link eid s = (.ok (), s.setRoom eid room) ∧ PoolSwept (s.rooms eid) room := by
  obtain ⟨admitted, hrun, -⟩ := sweepEvent_due h hw.due
  have hs := maybeShufflePool_shuffled (link.net.clock (.shuffle eid .pipeline)) (link.draws eid)
    hw.ordered hw.pool hw.active
  exact ⟨_, hrun, hs.pool, fun u hu => hs.perm.mem_iff.mpr hu⟩

theorem sweepAll_empty (eids : List String) (hp : (s.rooms eid).pool = []) :
    (sweepAll cfg link eids s).2.rooms eid = s.rooms eid := by
  induction eids generalizing s with
  | nil => rfl
  | cons x rest ih =>
    obtain ⟨out, room, hrun, hroom⟩ := sweepEvent_frame cfg link s x
    have hsame : (s.setRoom x room).rooms eid = s.rooms eid := by
      by_cases hx : eid = x
      · subst hx
        rw [setRoom_self, hroom hp]
      · exact setRoom_other hx room
    rw [sweepAll]
    cases out with
    | error e => rw [bind_error hrun, hsame]
    | ok a => rw [bind_ok hrun, ih (by rw [hsame, hp]), hsame]

/-- By induction on the loop: a waiting event is swept exactly when the loop comes to it. -/
theorem sweepAll_swept_iff (eids : List String) (h : link.Answers cfg s eid)
    (hw : link.Waiting cfg s eid) :
    PoolSwept (s.rooms eid) ((sweepAll cfg link eids s).2.rooms eid) ↔ link.Reaches cfg s eid eids := by
  induction eids generalizing s with
  | nil => exact iff_of_false (fun hs => hw.pool hs.pool) not_reaches_nil
  | cons x rest ih =>
    rw [sweepAll]
    by_cases hx : x = eid
    · subst hx
      obtain ⟨room, hrun, hs⟩ := sweepEvent_swept h hw
      refine iff_of_true ?_ (reaches_self rest)
      rw [bind_ok hrun, sweepAll_empty rest (by rw [setRoom_self, hs.pool]), setRoom_self]
      exact hs
    · have hother : ∀ room, (s.setRoom x room).rooms eid = s.rooms eid :=
        fun room => setRoom_other (Ne.symm hx) room
      rw [reaches_cons hx]
      by_cases hax : link.Answers cfg s x
      · obtain ⟨room, hrun, hkeeps⟩ := sweepEvent_answered hax
        have hw' : link.Waiting cfg (s.setRoom x room) eid := by
          constructor
          · rw [hother]; exact hw.ordered
          · rw [hother]; exact hw.pool
          · rw [hother]; exact hw.active
          · exact hw.due
        have hih := ih ((hkeeps eid).mpr h) hw'
        rw [hother] at hih
        have hreach : link.Reaches cfg (s.setRoom x room) eid rest ↔
            link.Reaches cfg s eid rest := by
          simp only [SweepLink.Reaches, hkeeps]
        rw [bind_ok hrun, hih, hreach, and_iff_right hax]
      · obtain ⟨room, hrun⟩ := sweepEvent_failed hax
        rw [bind_error hrun, hother]
        exact iff_of_false (fun hs => hw.pool hs.pool) fun hr => hax hr.1

theorem mem_addMissing (idx l : List String) : x ∈ addMissing l idx ↔ x ∈ l ∨ x ∈ idx := by
  induction idx generalizing l with
  | nil => simp [addMissing]
  | cons id idx ih =>
    rw [addMissing, ih]
    by_cases hid : id ∈ l
    · rw [if_pos hid, List.mem_cons]
      constructor
      · exact fun h => h.imp_right .inr
      · rintro (hl | rfl | hidx)
        · exact .inl hl
        · exact .inl hid
        · exact .inr hidx
    · rw [if_neg hid, List.mem_append, List.mem_singleton, List.mem_cons, or_assoc]

theorem found_of_first_page (hkey : poolKey eid ∈ (s.list none).keys) (hne : eid ≠ "")
    (hline : ∀ c ∈ eid.toList, isLineEnd c = false) : eid ∈ link.found cfg s := by
  refine (mem_addMissing _ _).mpr (.inl ?_)
  exact List.mem_filterMap.mpr ⟨_, hkey, eventIdOf_poolKey hne hline⟩

theorem reaches_of_answers {eids : List String} (hmem : eid ∈ eids)
    (hall : ∀ x ∈ eids, link.Answers cfg s x) : link.Reaches cfg s eid eids := by
  obtain ⟨pre, rest, rfl⟩ := List.append_of_mem hmem
  exact ⟨pre, rest, rfl, fun x hx => hall x (List.mem_append_left _ hx)⟩

theorem readIndex_run (cfg : RoomConfig) (link : SweepLink) (s : SweepStore) :
    readIndex cfg link s =
      (.ok (if cfg.backend = .redis ∧ link.net.fate .index = .answered then s.index else []), s) := by
  unfold readIndex
  cases cfg.backend with
  | kv => rfl
  | redis =>
    simp only [true_and]
    exact read_catch_run link.net .index (fun _ (s : SweepStore) => s.index) [] s

theorem handleScheduledCalls_run (h : link.net.fate .list = .answered) :
    handleScheduledCalls cfg link s = sweepAll cfg link (link.found cfg s) s := by
  rw [handleScheduledCalls, bind_ok (call_answered h), bind_ok (readIndex_run cfg link s)]
  rfl

end Loop

/-- An event that waits for its sweep, and whose own calls do not throw, is swept exactly when the
listing is answered and the loop comes to the event: the first page or the index names it, and no
event in front of it throws. -/
theorem sweep_complete_iff {cfg : RoomConfig} {link : SweepLink} {s : SweepStore} {eid : String}
    (h : link.Answers cfg s eid) (hw : link.Waiting cfg s eid) :
    PoolSwept (s.rooms eid) ((handleScheduledCalls cfg link s).2.rooms eid) ↔
      link.net.fate .list = .answered ∧ link.Reaches cfg s eid (link.found cfg s) := by
  by_cases hl : link.net.fate .list = .answered
  · rw [handleScheduledCalls_run hl, and_iff_right hl]
    exact sweepAll_swept_iff _ h hw
  · have hread := read_run link.net .list (fun _ (s : SweepStore) => s.list none) s
    rw [if_neg hl] at hread
    rw [handleScheduledCalls, bind_error hread]
    exact iff_of_false (fun hs => hw.pool hs.pool) fun hr => hl hr.1

def demoSweep : SweepStore where
  list _ := ⟨[poolKey "jazz", poolKey "rock"], true, "", by decide⟩
  index := []
  hash _ := none
  kvMeta _ := some "2025-01-01T00:00:00Z"
  rooms eid := if eid = "jazz" ∨ eid = "rock" then ⟨[⟨"alice-01", 1 / 2⟩], [], none, none⟩
    else Room.empty

def demoSweepLink (lost : Option SweepCall) : SweepLink where
  net := ⟨fun c => if lost = some c then .failedBefore else .answered, fun _ => 5000⟩
  dateParse _ := some 1000
  draws _ _ := demoDraw

theorem demoSweep_answers {lost : Option SweepCall} {eid : String}
    (hmeta : lost ≠ some (.kvMeta eid)) (hshuffle : ∀ c, lost ≠ some (.shuffle eid c)) :
    (demoSweepLink lost).Answers (demoRoom .kv) demoSweep eid where
  sale _ := if_neg hmeta
  shuffle _ := ⟨if_neg (hshuffle _), if_neg (hshuffle _), fun _ _ => ⟨if_neg (hshuffle _),
    if_neg (hshuffle _), if_neg (hshuffle _)⟩⟩

theorem demoSweep_waiting (lost : Option SweepCall) :
    (demoSweepLink lost).Waiting (demoRoom .kv) demoSweep "rock" where
  ordered := by constructor <;> simp [demoSweep, members]
  pool := by simp [demoSweep]
  active := by simp [demoSweep]
  due := ⟨1000, rfl, by simp [demoSweepLink]⟩

theorem sweep_misses_event : ¬ ∀ (cfg : RoomConfig) (link : SweepLink) (s : SweepStore),
    link.net.fate .list = .answered →
    (∀ x, (s.rooms x).pool ≠ [] → poolKey x ∈ (s.list none).keys) →
    ∀ eid, link.Answers cfg s eid → link.Waiting cfg s eid →
      PoolSwept (s.rooms eid) ((handleScheduledCalls cfg link s).2.rooms eid) := by
  intro h
  have hpools : ∀ x, (demoSweep.rooms x).pool ≠ [] → poolKey x ∈ (demoSweep.list none).keys := by
    intro x hx
    have hevent : x = "jazz" ∨ x = "rock" := by
      by_contra hn
      exact hx (by simp [demoSweep, hn, Room.empty])
    rcases hevent with rfl | rfl
    · exact List.mem_cons_self
    · exact .tail _ List.mem_cons_self
  have hswept := h (demoRoom .kv) (demoSweepLink (some (.kvMeta "jazz"))) demoSweep rfl hpools "rock"
    (demoSweep_answers (by simp) (by simp)) (demoSweep_waiting _)
  exact absurd hswept.pool (by decide +kernel)

theorem demo_pool_swept : PoolSwept (demoSweep.rooms "rock")
    ((handleScheduledCalls (demoRoom .kv) (demoSweepLink none) demoSweep).2.rooms "rock") := by
  refine (sweep_complete_iff (demoSweep_answers (by simp) (by simp)) (demoSweep_waiting none)).mpr
    ⟨rfl, reaches_of_answers ?_ fun x _ => demoSweep_answers (by simp) (by simp)⟩
  exact found_of_first_page (by simp [demoSweep]) (by simp) (by simp [isLineEnd])

end CrowdTic
