import CrowdTic.EventsApart
import CrowdTic.RateLimitRuns

/-! The limits in the worker. A join that is counted in one go is a run of the
commands of its limits, so what they promise holds for the joins of the worker. -/

namespace CrowdTic

def WorkerEnv.limits (env : WorkerEnv) : LimitConfig := ⟨env.backend, env.limit⟩

def reachesQueue : Except WorkerAnswer QueueCall → Bool
  | .ok (.join _ _) => true
  | _ => false

/-- The step lets a user of this address into a queue, in this minute of the clock. -/
def letsIn (env : WorkerEnv) (ip : String) (minute : Nat) (p : Worker × WorkerMove) : Bool :=
  match p.2 with
  | .fetch req chance =>
    req.ip = ip ∧ p.1.now / 1000 / 60 = minute ∧ reachesQueue (route env req chance p.1.limits).1
  | _ => false

section Hits

variable {env : WorkerEnv} {s : LimitStore} {as : List LimitAnswer} {ip fp : String}

/-- The commands of one limit, with nothing between them. -/
theorem hit_run (hb : env.backend = .redis) (s : LimitStore) (kind : LimitKind) (id : String)
    (as : List LimitAnswer) : ∃ n tr, Run (LimitStep env.limits) ⟨s, [], as⟩ tr
      ⟨(hitRateLimit env s kind id).2, [],
        ⟨⟨kind, id, s.now⟩, n, (hitRateLimit env s kind id).1, s.now⟩ :: as⟩ ∧
      ∀ p ∈ tr, Prompt p.1 p.2 := by
  let a : Attempt := ⟨kind, id, s.now⟩
  have hstart : LimitCall.start env.limits ⟨kind, id, s.now⟩ = ⟨a, .incr⟩ := by
    simp only [LimitCall.start, WorkerEnv.limits, hb]
    rfl
  have henter : Run (LimitStep env.limits) ⟨s, [], as⟩ _ _ := .single (.enter kind id)
  rw [hstart] at henter
  by_cases hone : (s.redis.get a.windowKey).getD 0 + 1 = 1
  · have hhit : hitRateLimit env s kind id = (limitReply (env.limit kind) 1
        (if 0 < ((s.incr a.windowKey).expire a.windowKey).ttl a.windowKey then
          ((s.incr a.windowKey).expire a.windowKey).ttl a.windowKey else 60 - (a.nowSec % 60 : Nat)),
        (s.incr a.windowKey).expire a.windowKey) := by
      simp only [hitRateLimit, hb]
      rw [if_pos hone, hone]
    have hfirst : LimitCall.next env.limits ⟨a, .incr⟩ s = .call ⟨a, .expire⟩ := by
      simp only [LimitCall.next, hone, if_true]
    have hincr := henter.snoc (.goes_on (l := []) (r := []) hfirst)
    have hnext (st : LimitStore) : LimitCall.next env.limits ⟨a, .expire⟩ st = .call ⟨a, .ttl 1⟩ := rfl
    have hexpire := hincr.snoc (.goes_on (l := []) (r := []) (hnext _))
    have hanswer := hexpire.snoc (.answers (l := []) (r := []) rfl)
    rw [hhit]
    refine ⟨1, _, hanswer, ?_⟩
    simp [Prompt, LimitCall.effect, LimitStore.incr, LimitStore.expire, a]
  · have hhit : hitRateLimit env s kind id = (limitReply (env.limit kind)
        ((s.redis.get a.windowKey).getD 0 + 1) (if 0 < (s.incr a.windowKey).ttl a.windowKey then
          (s.incr a.windowKey).ttl a.windowKey else 60 - (a.nowSec % 60 : Nat)), s.incr a.windowKey) := by
      simp only [hitRateLimit, hb]
      rw [if_neg hone]
    have hfirst : LimitCall.next env.limits ⟨a, .incr⟩ s =
        .call ⟨a, .ttl ((s.redis.get a.windowKey).getD 0 + 1)⟩ := by
      simp only [LimitCall.next, hone, if_false]
    have hincr := henter.snoc (.goes_on (l := []) (r := []) hfirst)
    have hanswer := hincr.snoc (.answers (l := []) (r := []) rfl)
    rw [hhit]
    refine ⟨_, _, hanswer, ?_⟩
    simp [Prompt, LimitCall.effect, LimitStore.incr, a]

theorem passedIn_cons (a : LimitAnswer) (kind : LimitKind) (id : String) (m : Nat) :
    passedIn kind id m (a :: as) =
      passedIn kind id m as + if a.passes kind id ∧ a.attempt.minute = m then 1 else 0 := by
  rw [passedIn, List.countP_cons]
  simp only [decide_eq_true_eq]
  rfl

theorem Counted.hit (hb : env.backend = .redis) (h : Counted env.limits ⟨s, [], as⟩) (kind : LimitKind)
    (id : String) : ∃ a : LimitAnswer, Counted env.limits ⟨(hitRateLimit env s kind id).2, [], a :: as⟩ ∧
      a.attempt = ⟨kind, id, s.now⟩ ∧ a.reply = (hitRateLimit env s kind id).1 := by
  obtain ⟨n, tr, hr, hprompt⟩ := hit_run hb s kind id as
  exact ⟨_, hr.invariant _ _ (fun _ _ _ h hm hs => h.step hb hm hs) h hprompt, rfl, rfl⟩

theorem hitBoth_ip (env : WorkerEnv) (s : LimitStore) (ip fp : String) :
    (hitBoth env s ip fp).1 = (hitRateLimit env s .ip ip).1 := by
  unfold hitBoth
  by_cases hfp : fp = "" <;> simp only [hfp, if_true, if_false]

theorem hitBoth_limits (env : WorkerEnv) (s : LimitStore) (ip fp : String) :
    (hitBoth env s ip fp).2.2 = if fp = "" then (hitRateLimit env s .ip ip).2
      else (hitRateLimit env (hitRateLimit env s .ip ip).2 .fp fp).2 := by
  unfold hitBoth
  by_cases hfp : fp = "" <;> simp only [hfp, if_true, if_false]

theorem Counted.hitBoth (hb : env.backend = .redis) (h : Counted env.limits ⟨s, [], as⟩)
    (ip fp : String) : ∃ as', Counted env.limits ⟨(hitBoth env s ip fp).2.2, [], as'⟩ ∧
      ∀ ip' m, passedIn .ip ip' m as +
        (if (hitBoth env s ip fp).1.allowed = true ∧ ip = ip' ∧ s.now / 1000 / 60 = m then 1 else 0) ≤
          passedIn .ip ip' m as' := by
  obtain ⟨a, ha, hattempt, hreply⟩ := h.hit hb .ip ip
  have hpass (ip' : String) (m : Nat) : passedIn .ip ip' m as +
      (if (CrowdTic.hitBoth env s ip fp).1.allowed = true ∧ ip = ip' ∧ s.now / 1000 / 60 = m then 1
        else 0) = passedIn .ip ip' m (a :: as) := by
    have hminute : a.attempt.minute = s.now / 1000 / 60 := by
      rw [hattempt]
      rfl
    rw [passedIn_cons, hitBoth_ip, ← hreply, LimitAnswer.passes, hminute, hattempt]
    simp [and_assoc]
  rw [hitBoth_limits]
  by_cases hfp : fp = ""
  · rw [if_pos hfp]
    exact ⟨a :: as, ha, fun ip' m => (hpass ip' m).le⟩
  · rw [if_neg hfp]
    obtain ⟨b, hcounted, -⟩ := ha.hit hb .fp fp
    refine ⟨b :: a :: as, hcounted, fun ip' m => ?_⟩
    have hcons : passedIn .ip ip' m (b :: a :: as) = _ := passedIn_cons b .ip ip' m
    rw [hpass, hcons]
    exact Nat.le_add_right _ _

/-- The counters are hit for the address of the request, or left alone. -/
def HitsOnce (env : WorkerEnv) (req : WorkerRequest) (s : LimitStore)
    (out : Except WorkerAnswer QueueCall × LimitStore) : Prop :=
  (∃ fp, out.2 = (hitBoth env s req.ip fp).2.2 ∧
    (reachesQueue out.1 = true → (hitBoth env s req.ip fp).1.allowed = true)) ∨
  out.2 = s ∧ reachesQueue out.1 = false

theorem joinChecks_hits (env : WorkerEnv) (req : WorkerRequest) (body : Option Json) (verified : Bool)
    (s : LimitStore) : HitsOnce env req s (joinChecks env req body verified s) := by
  unfold joinChecks
  split
  · exact .inr ⟨rfl, rfl⟩
  · exact .inr ⟨rfl, rfl⟩
  · split
    · rename_i fp _ _ _
      split
      · exact .inr ⟨rfl, rfl⟩
      · refine .inl ⟨fp, ?_⟩
        dsimp only
        by_cases hip : (hitBoth env s req.ip fp).1.allowed = false
        · rw [if_pos hip]
          exact ⟨rfl, nofun⟩
        · rw [if_neg hip]
          have hallowed := eq_true_of_ne_false hip
          split_ifs <;> exact ⟨rfl, fun _ => hallowed⟩
    · exact .inr ⟨rfl, rfl⟩

theorem reachesQueue_statusChecks (req : WorkerRequest) : reachesQueue (statusChecks req) = false := by
  unfold statusChecks
  dsimp only
  split_ifs <;> rfl

theorem reachesQueue_admitChecks (env : WorkerEnv) (req : WorkerRequest) (draws : Nat → Draw) :
    reachesQueue (admitChecks env req draws) = false := by
  unfold admitChecks
  dsimp only
  split_ifs <;> rfl

theorem route_hits (env : WorkerEnv) (req : WorkerRequest) (chance : Chance) (s : LimitStore) :
    HitsOnce env req s (route env req chance s) := by
  have hrefused (answer : WorkerAnswer) : HitsOnce env req s (.error answer, s) := .inr ⟨rfl, rfl⟩
  rw [route]
  split_ifs
  · exact hrefused _
  · exact hrefused _
  · exact hrefused _
  · exact joinChecks_hits ..
  · exact hrefused _
  · exact joinChecks_hits ..
  · exact hrefused _
  · exact .inr ⟨rfl, reachesQueue_statusChecks req⟩
  · exact hrefused _
  · exact .inr ⟨rfl, reachesQueue_admitChecks env req chance.draws⟩
  · exact hrefused _
  · exact hrefused _

end Hits

section Runs

variable {env : WorkerEnv} {now : Nat} {tr : List (Worker × WorkerMove)} {w w' : Worker}
  {m : WorkerMove} {as : List LimitAnswer}

theorem scheduled_limits (env : WorkerEnv) (w : Worker) (draws : String → Nat → Draw)
    (eventIds : List String) : (w.scheduled env draws eventIds).limits = w.limits := by
  induction eventIds generalizing w with
  | nil => rfl
  | cons x rest ih => exact ih _

theorem fetch_limits (env : WorkerEnv) (w : Worker) (req : WorkerRequest) (chance : Chance) :
    (w.fetch env req chance).2.limits = (route env req chance w.limits).2 := by
  rw [Worker.fetch]
  generalize route env req chance w.limits = out
  obtain ⟨result, limits⟩ := out
  cases result with
  | error answer => rfl
  | ok call => cases call <;> rfl

theorem counted_step (hb : env.backend = .redis) (h : Counted env.limits ⟨w.limits, [], as⟩)
    (m : WorkerMove) : ∃ as', Counted env.limits ⟨(w.exec env m).limits, [], as'⟩ ∧
      ∀ ip minute, passedIn .ip ip minute as + (if letsIn env ip minute (w, m) then 1 else 0) ≤
        passedIn .ip ip minute as' := by
  cases m with
  | tick ms => exact ⟨as, h.step hb (m := .tick ms) trivial (.tick ms), fun _ _ => le_rfl⟩
  | scheduled draws eventIds =>
    refine ⟨as, ?_, fun _ _ => le_rfl⟩
    rw [Worker.exec, scheduled_limits]
    exact h
  | fetch req chance =>
    rw [Worker.exec, fetch_limits]
    rcases route_hits env req chance w.limits with ⟨fp, hlimits, hallowed⟩ | ⟨hlimits, hnone⟩
    · obtain ⟨as', has', hpass⟩ := h.hitBoth hb req.ip fp
      rw [hlimits]
      refine ⟨as', has', fun ip minute => le_trans (Nat.add_le_add_left ?_ _) (hpass ip minute)⟩
      by_cases hlets : letsIn env ip minute (w, .fetch req chance) = true
      · simp only [letsIn, decide_eq_true_eq] at hlets
        have hpassed : (hitBoth env w.limits req.ip fp).1.allowed = true ∧ req.ip = ip ∧
            w.limits.now / 1000 / 60 = minute := ⟨hallowed hlets.2.2, hlets.1, hlets.2.1⟩
        rw [if_pos hpassed]
        split <;> omega
      · rw [if_neg hlets]
        exact Nat.zero_le _
    · rw [hlimits]
      refine ⟨as, h, fun ip minute => ?_⟩
      have hlets : letsIn env ip minute (w, .fetch req chance) = false := by
        simp [letsIn, hnone]
      simp [hlets]

/-- On Redis no more users of one address get into the queues of all events together, in one minute
of the clock, than the limit of an address. -/
theorem let_in_le_limit (hb : env.backend = .redis) (h : Run (WorkerStep env) (.start now) tr w)
    (ip : String) (minute : Nat) : tr.countP (letsIn env ip minute) ≤ (env.limit .ip).toNat := by
  have hcounted : ∃ as, Counted env.limits ⟨w.limits, [], as⟩ ∧
      tr.countP (letsIn env ip minute) ≤ passedIn .ip ip minute as := by
    induction h with
    | nil => exact ⟨[], .start env.limits now, le_rfl⟩
    | snoc _ hs ih =>
      obtain ⟨as, has, hle⟩ := ih
      obtain ⟨as', has', hpass⟩ := counted_step hb has _
      rw [← show _ = _ from hs] at has'
      refine ⟨as', has', ?_⟩
      rw [List.countP_append, List.countP_singleton]
      exact le_trans (Nat.add_le_add_right hle _) (hpass ip minute)
  obtain ⟨as, has, hle⟩ := hcounted
  exact hle.trans (has.passes_le .ip ip minute)

end Runs

section Demo

/-- Two joins of one address, where the limit is one. -/
def demoOneEach : WorkerEnv := { demoWorker with limit := fun _ => 1 }

def demoTwice : List WorkerMove := [demoJoin "event-001" "alice-01", demoJoin "event-002" "bobby-01"]

theorem let_in_le_limit_twice :
    (Run.record (Worker.exec demoOneEach) (.start 0) demoTwice).countP (letsIn demoOneEach "0.0.0.0" 0) ≤
      1 := by
  have hstep : ∀ w m, WorkerStep demoOneEach w m (w.exec demoOneEach m) := fun _ _ => rfl
  exact let_in_le_limit rfl (.of_record hstep _ demoTwice) "0.0.0.0" 0

end Demo

end CrowdTic
