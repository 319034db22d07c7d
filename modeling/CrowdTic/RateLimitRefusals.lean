import CrowdTic.RateLimitRuns

/-! What a refused join can rely on, on either backend: it was over its limit,
and the wait it is told reaches the next minute. -/

namespace CrowdTic

/-- The command that counts the call is still to come. -/
def LimitPc.waits : LimitPc → Bool
  | .incr | .get | .put _ => true
  | .expire | .ttl _ => false

/-- A join begins that is counted under the key `k`. -/
def entersAt (k : String) (p : LimitSys × LimitMove) : Bool :=
  match p.2 with
  | .enter kind id => (Attempt.mk kind id p.1.store.now).windowKey = k
  | _ => false

section Refusals

/-- Every number of a key, stored, read or handed out, is at most `d` of the key. -/
structure Within (d : String → Nat) (s : LimitSys) : Prop where
  redis : ∀ k, (s.store.redis.get k).getD 0 ≤ d k
  kv : ∀ k, (s.store.kv.get k).getD 0 ≤ d k
  put : ∀ c ∈ s.calls, ∀ cur, c.pc = .put cur → cur ≤ d c.attempt.windowKey
  tickets : ∀ x ∈ s.tickets, x.2 ≤ d x.1

def bump (d : String → Nat) (k : String) : String → Nat := fun j => if j = k then d j + 1 else d j

theorem le_bump (d : String → Nat) (k j : String) : d j ≤ bump d k j := by
  unfold bump
  split <;> omega

theorem bump_self (d : String → Nat) (k : String) : bump d k k = d k + 1 := if_pos rfl

variable {cfg : LimitConfig} {d d' : String → Nat} {st st' : LimitStore} {l r : List LimitCall}
  {c : LimitCall} {as : List LimitAnswer} {s s' : LimitSys} {m : LimitMove}

theorem Within.mono (h : Within d s) (hd : ∀ k, d k ≤ d' k) : Within d' s where
  redis k := (h.redis k).trans (hd k)
  kv k := (h.kv k).trans (hd k)
  put c hc cur hcur := (h.put c hc cur hcur).trans (hd _)
  tickets x hx := (h.tickets x hx).trans (hd _)

theorem Within.drop (h : Within d ⟨st, l ++ c :: r, as⟩) : Within d ⟨st, l ++ r, as⟩ where
  redis := h.redis
  kv := h.kv
  put x hx := h.put x (by simp only [List.mem_append, List.mem_cons] at hx ⊢; tauto)
  tickets x hx := h.tickets x ((tickets_perm st l r c as).mem_iff.mpr (List.mem_append_right _ hx))

theorem Within.insert (h : Within d ⟨st, l ++ r, as⟩)
    (hput : ∀ cur, c.pc = .put cur → cur ≤ d c.attempt.windowKey)
    (hticket : ∀ x ∈ c.ticket, x.2 ≤ d x.1) : Within d ⟨st, l ++ c :: r, as⟩ where
  redis := h.redis
  kv := h.kv
  put x hx := by
    by_cases he : x = c
    · exact he ▸ hput
    · exact h.put x (by simp only [List.mem_append, List.mem_cons] at hx ⊢; tauto)
  tickets x hx := by
    rcases List.mem_append.mp ((tickets_perm st l r c as).mem_iff.mp hx) with hx | hx
    · exact hticket x (Option.mem_toList.mp hx)
    · exact h.tickets x hx

theorem Within.answer (h : Within d ⟨st, l ++ r, as⟩) {a : LimitAnswer}
    (ha : a.count ≤ d a.attempt.windowKey) : Within d ⟨st, l ++ r, a :: as⟩ where
  redis := h.redis
  kv := h.kv
  put := h.put
  tickets x hx := by
    simp only [LimitSys.tickets, List.map_cons, List.mem_append, List.mem_cons] at hx
    rcases hx with hx | rfl | hx
    · exact h.tickets x (List.mem_append_left _ hx)
    · exact ha
    · exact h.tickets x (List.mem_append_right _ hx)

/-- A command that counts raises the numbers of its key by one. -/
theorem Within.effect (h : Within d ⟨st, l ++ c :: r, as⟩) :
    Within (bump d c.attempt.windowKey) ⟨c.effect st, l ++ r, as⟩ := by
  obtain ⟨a, pc⟩ := c
  have hbumped := h.drop.mono (le_bump d a.windowKey)
  cases pc with
  | incr =>
    refine ⟨fun k => ?_, hbumped.kv, hbumped.put, hbumped.tickets⟩
    have hk := h.redis k
    by_cases he : k = a.windowKey
    · subst he
      simpa [LimitCall.effect, LimitStore.incr, bump] using hk
    · simpa [LimitCall.effect, LimitStore.incr, bump, he] using hk
  | expire =>
    refine ⟨fun k => ?_, hbumped.kv, hbumped.put, hbumped.tickets⟩
    simpa [LimitCall.effect, LimitStore.expire] using hbumped.redis k
  | ttl n => exact hbumped
  | get => exact hbumped
  | put cur =>
    have hcur := h.put ⟨a, .put cur⟩ (by simp) cur rfl
    refine ⟨hbumped.redis, fun k => ?_, hbumped.put, hbumped.tickets⟩
    have hk := h.kv k
    by_cases he : k = a.windowKey
    · subst he
      simpa [LimitCall.effect, LimitStore.put, bump] using hcur
    · simpa [LimitCall.effect, LimitStore.put, bump, he] using hk

theorem Within.effect_of_counted (h : Within d ⟨st, l ++ c :: r, as⟩) (hc : c.pc.waits = false) :
    Within d ⟨c.effect st, l ++ r, as⟩ := by
  obtain ⟨a, pc⟩ := c
  cases pc with
  | expire =>
    refine ⟨fun k => ?_, h.drop.kv, h.drop.put, h.drop.tickets⟩
    simpa [LimitCall.effect, LimitStore.expire] using h.redis k
  | ttl n => exact h.drop
  | incr => cases hc
  | get => cases hc
  | put cur => cases hc

/-- The calls under the key `k` that are still to be counted. -/
def waitingAt (k : String) (calls : List LimitCall) : Nat :=
  calls.countP fun c => c.pc.waits ∧ c.attempt.windowKey = k

theorem waitingAt_mid (k : String) (l r : List LimitCall) (c : LimitCall) :
    waitingAt k (l ++ c :: r) =
      waitingAt k (l ++ r) + if c.pc.waits = true ∧ c.attempt.windowKey = k then 1 else 0 := by
  simp only [waitingAt, List.countP_append, List.countP_cons, decide_eq_true_eq]
  omega

/-- The numbers of a key, with the calls that are still to be counted, are within `n`. -/
def Deserved (n : String → Nat) (s : LimitSys) : Prop :=
  ∃ d, Within d s ∧ ∀ k, d k + waitingAt k s.calls ≤ n k

theorem LimitCall.start_eq (cfg : LimitConfig) (a : Attempt) :
    ∃ pc, LimitCall.start cfg a = ⟨a, pc⟩ ∧ (pc = .incr ∨ pc = .get) := by
  unfold LimitCall.start
  cases cfg.backend
  · exact ⟨.incr, rfl, .inl rfl⟩
  · exact ⟨.get, rfl, .inr rfl⟩

theorem LimitCall.next_call {c c' : LimitCall} (h : c.next cfg st = .call c') :
    c'.attempt = c.attempt := by
  obtain ⟨a, pc⟩ := c
  cases pc <;> cases h <;> rfl

theorem bump_add_waitingAt {n : String → Nat} (hc : c.pc.waits = true)
    (h : ∀ k, d k + waitingAt k (l ++ c :: r) ≤ n k) (k : String) :
    bump d c.attempt.windowKey k + waitingAt k (l ++ r) ≤ n k := by
  have hk := h k
  rw [waitingAt_mid] at hk
  unfold bump
  by_cases he : k = c.attempt.windowKey
  · rw [if_pos ⟨hc, he.symm⟩] at hk
    rw [if_pos he]
    omega
  · rw [if_neg he]
    omega

theorem waitingAt_counted {k : String} (hc : c.pc.waits = false) :
    waitingAt k (l ++ c :: r) = waitingAt k (l ++ r) := by
  rw [waitingAt_mid, hc]
  simp

theorem Deserved.enter {n : String → Nat} (h : Deserved n s) (a : Attempt) :
    Deserved (fun k => n k + if a.windowKey = k then 1 else 0)
      { s with calls := .start cfg a :: s.calls } := by
  obtain ⟨d, hd, hn⟩ := h
  obtain ⟨pc, hstart, hpc⟩ := LimitCall.start_eq cfg a
  have hwaits : pc.waits = true := by rcases hpc with rfl | rfl <;> rfl
  rw [hstart]
  refine ⟨d, Within.insert (l := []) hd ?_ ?_, fun k => ?_⟩
  · rcases hpc with rfl | rfl <;> simp
  · rcases hpc with rfl | rfl <;> simp [LimitCall.ticket]
  · have hk := hn k
    have hmid := waitingAt_mid k [] s.calls ⟨a, pc⟩
    simp only [List.nil_append, hwaits, true_and] at hmid
    show d k + waitingAt k (⟨a, pc⟩ :: s.calls) ≤ n k + if a.windowKey = k then 1 else 0
    omega

theorem Deserved.goes_on {n : String → Nat} {c' : LimitCall} (h : Deserved n ⟨st, l ++ c :: r, as⟩)
    (hnext : c.next cfg st = .call c') : Deserved n ⟨c.effect st, l ++ c' :: r, as⟩ := by
  obtain ⟨d, hd, hn⟩ := h
  obtain ⟨a, pc⟩ := c
  cases pc with
  | incr =>
    obtain rfl := Progress.call.inj hnext
    have hv := hd.redis a.windowKey
    refine ⟨_, hd.effect.insert ?_ ?_, fun k => ?_⟩
    · split <;> simp
    · intro x hx
      have hx : x = (a.windowKey, (st.redis.get a.windowKey).getD 0 + 1) := by
        split at hx <;> simp_all [LimitCall.ticket]
      rw [hx, bump_self]
      exact Nat.succ_le_succ hv
    · rw [waitingAt_counted (by split <;> rfl)]
      exact bump_add_waitingAt rfl hn k
  | expire =>
    obtain rfl := Progress.call.inj hnext
    refine ⟨d, (hd.effect_of_counted rfl).insert (by simp) ?_, fun k => ?_⟩
    · intro x hx
      refine hd.tickets x ((tickets_perm st l r ⟨a, .expire⟩ as).mem_iff.mpr ?_)
      exact List.mem_append_left _ (Option.mem_toList.mpr hx)
    · rw [waitingAt_counted rfl]
      have hk := hn k
      rwa [waitingAt_counted rfl] at hk
  | get =>
    obtain rfl := Progress.call.inj hnext
    refine ⟨d, hd.drop.insert ?_ (by simp [LimitCall.ticket]), fun k => ?_⟩
    · intro cur hcur
      obtain rfl := LimitPc.put.inj hcur
      exact hd.kv a.windowKey
    · have hk := hn k
      rw [waitingAt_mid] at hk ⊢
      exact hk
  | ttl n => cases hnext
  | put cur => cases hnext

theorem Deserved.answers {n : String → Nat} {a : LimitAnswer} (h : Deserved n ⟨st, l ++ c :: r, as⟩)
    (hnext : c.next cfg st = .answer a) : Deserved n ⟨c.effect st, l ++ r, a :: as⟩ := by
  obtain ⟨d, hd, hn⟩ := h
  obtain ⟨x, pc⟩ := c
  cases pc with
  | ttl v =>
    obtain rfl := Progress.answer.inj hnext
    refine ⟨d, (hd.effect_of_counted rfl).answer ?_, fun k => ?_⟩
    · refine hd.tickets (x.windowKey, v) ((tickets_perm st l r ⟨x, .ttl v⟩ as).mem_iff.mpr ?_)
      exact List.mem_append_left _ (by simp [LimitCall.ticket])
    · have hk := hn k
      rwa [waitingAt_counted rfl] at hk
  | put cur =>
    obtain rfl := Progress.answer.inj hnext
    refine ⟨_, hd.effect.answer ?_, bump_add_waitingAt rfl hn⟩
    rw [bump_self]
    exact Nat.succ_le_succ (hd.put ⟨x, .put cur⟩ (by simp) cur rfl)
  | incr => cases hnext
  | expire => cases hnext
  | get => cases hnext

theorem Deserved.throws {n : String → Nat} {fate : CallFate} (h : Deserved n ⟨st, l ++ c :: r, as⟩) :
    Deserved n ⟨if fate = .failedAfter then c.effect st else st, l ++ r, as⟩ := by
  obtain ⟨d, hd, hn⟩ := h
  by_cases hafter : fate = .failedAfter
  · rw [if_pos hafter]
    by_cases hc : c.pc.waits = true
    · exact ⟨_, hd.effect, bump_add_waitingAt hc hn⟩
    · have hc := Bool.eq_false_iff.mpr hc
      refine ⟨d, hd.effect_of_counted hc, fun k => ?_⟩
      have hk := hn k
      rwa [waitingAt_counted hc] at hk
  · rw [if_neg hafter]
    refine ⟨d, hd.drop, fun k => ?_⟩
    have hk := hn k
    rw [waitingAt_mid] at hk
    show d k + waitingAt k (l ++ r) ≤ n k
    omega

theorem Deserved.step {n : String → Nat} (h : Deserved n s) (hs : LimitStep cfg s m s') :
    Deserved (fun k => n k + if entersAt k (s, m) = true then 1 else 0) s' := by
  cases hs with
  | tick ms =>
    obtain ⟨d, hd, hn⟩ := h
    refine ⟨d, ⟨fun k => ?_, fun k => ?_, hd.put, hd.tickets⟩, hn⟩
    · have hk := hd.redis k
      by_cases hl : s.store.redis.lapsed (s.store.now + ms) k = true <;>
        simp [LimitStore.advance, hl, hk]
    · have hk := hd.kv k
      by_cases hl : s.store.kv.lapsed (s.store.now + ms) k = true <;>
        simp [LimitStore.advance, hl, hk]
  | enter kind id => simpa only [entersAt, decide_eq_true_eq] using h.enter ⟨kind, id, s.store.now⟩
  | goes_on hnext => exact h.goes_on hnext
  | answers hnext => exact h.answers hnext
  | throws hf => exact h.throws

theorem Deserved.run {now : Nat} {tr : List (LimitSys × LimitMove)}
    (hr : Run (LimitStep cfg) (.start now) tr s) : Deserved (fun k => tr.countP (entersAt k)) s := by
  induction hr with
  | nil =>
    refine ⟨fun _ => 0, ⟨?_, ?_, ?_, ?_⟩, ?_⟩ <;>
      simp [LimitSys.start, LimitSys.tickets, ExpMap.get, waitingAt]
  | snoc _ hs ih =>
    have hstep := ih.step hs
    simpa only [List.countP_append, List.countP_singleton] using hstep

end Refusals

section Waits

/-- The answer tells its own count, and a wait of 1 s to 70 s into a later minute. -/
structure Truthful (cfg : LimitConfig) (a : LimitAnswer) : Prop where
  allowed : a.reply.allowed = decide ((a.count : Int) ≤ cfg.limit a.attempt.kind)
  resetSec : 1 ≤ a.reply.resetSec ∧ a.reply.resetSec ≤ 70
  later : (60000 * (a.attempt.minute + 1) : Nat) ≤ (a.atMs : Int) + 1000 * a.reply.resetSec

/-- A key with a deadline outlives its minute by 10 s and is at most 70 s from its end. -/
structure Timely (cfg : LimitConfig) (s : LimitSys) : Prop where
  begun : ∀ c ∈ s.calls, c.attempt.nowMs ≤ s.store.now
  life : ∀ kind id m d, s.store.redis.ttl (windowKey kind id m) = some d →
    60000 * m + 70000 ≤ d ∧ d ≤ s.store.now + 70000
  answers : ∀ a ∈ s.answers, Truthful cfg a

variable {cfg : LimitConfig} {st : LimitStore} {l r : List LimitCall} {c : LimitCall}
  {as : List LimitAnswer} {s s' : LimitSys} {m : LimitMove}

theorem Timely.start (cfg : LimitConfig) (now : Nat) : Timely cfg (.start now) := by
  constructor <;> simp [LimitSys.start, ExpMap.ttl]

theorem Timely.drop (h : Timely cfg ⟨st, l ++ c :: r, as⟩) : Timely cfg ⟨st, l ++ r, as⟩ where
  begun x hx := h.begun x (by simp only [List.mem_append, List.mem_cons] at hx ⊢; tauto)
  life := h.life
  answers := h.answers

theorem Timely.effect (h : Timely cfg ⟨st, l ++ c :: r, as⟩) :
    Timely cfg ⟨c.effect st, l ++ r, as⟩ := by
  have hdrop := h.drop
  have hbegun := h.begun c (by simp)
  obtain ⟨a, pc⟩ := c
  cases pc with
  | incr =>
    refine ⟨hdrop.begun, fun kind id m d hd => ?_, hdrop.answers⟩
    exact h.life kind id m d (by simpa [LimitCall.effect, LimitStore.incr] using hd)
  | expire =>
    refine ⟨hdrop.begun, fun kind id m d hd => ?_, hdrop.answers⟩
    by_cases hk : windowKey kind id m = a.windowKey
    · obtain ⟨-, -, rfl⟩ := windowKey_inj hk
      have hbounds := a.minute_bounds
      have hbegun : a.nowMs ≤ st.now := hbegun
      simp only [LimitCall.effect, LimitStore.expire, ExpMap.ttl_setDeadline, if_pos hk] at hd
      obtain ⟨-, -, hd⟩ := Option.bind_eq_some_iff.mp hd
      obtain rfl := Option.some.inj hd
      exact ⟨by omega, le_rfl⟩
    · exact h.life kind id m d (by simpa [LimitCall.effect, LimitStore.expire, hk] using hd)
  | ttl n => exact hdrop
  | get => exact hdrop
  | put cur => exact ⟨hdrop.begun, hdrop.life, hdrop.answers⟩

theorem truthful_untilMinute (a : Attempt) (count : Nat) {now : Nat} (hbegun : a.nowMs ≤ now) :
    Truthful cfg ⟨a, count, limitReply (cfg.limit a.kind) count (60 - (a.nowSec % 60 : Nat)), now⟩ where
  allowed := rfl
  resetSec := by
    simp only [limitReply]
    omega
  later := by
    simp only [limitReply, Attempt.minute, Attempt.nowSec]
    omega

theorem LimitStore.ttl_pos {k : String} (h : 0 < st.ttl k) :
    ∃ d, st.redis.ttl k = some d ∧ st.ttl k = ((d : Int) - st.now + 500) / 1000 := by
  unfold LimitStore.ttl at h ⊢
  split at h
  · omega
  · omega
  · exact ⟨_, ‹_›, rfl⟩

theorem Timely.next_answer (h : Timely cfg ⟨st, l ++ c :: r, as⟩) {a : LimitAnswer}
    (hnext : c.next cfg st = .answer a) : Truthful cfg a := by
  have hbegun := h.begun c (by simp)
  obtain ⟨x, pc⟩ := c
  cases pc with
  | put cur =>
    obtain rfl := Progress.answer.inj hnext
    exact truthful_untilMinute x (cur + 1) hbegun
  | ttl n =>
    obtain rfl := Progress.answer.inj hnext
    by_cases hpos : 0 < st.ttl x.windowKey
    · obtain ⟨d, hd, httl⟩ := LimitStore.ttl_pos hpos
      obtain ⟨hlow, hhigh⟩ := h.life x.kind x.id x.minute d hd
      have hhigh : d ≤ st.now + 70000 := hhigh
      rw [if_pos hpos]
      refine ⟨rfl, ?_, ?_⟩
      · simp only [limitReply]
        omega
      · simp only [limitReply]
        omega
    · rw [if_neg hpos]
      exact truthful_untilMinute x n hbegun
  | incr => cases hnext
  | expire => cases hnext
  | get => cases hnext

theorem Timely.step (h : Timely cfg s) (hs : LimitStep cfg s m s') : Timely cfg s' := by
  cases hs with
  | tick ms =>
    refine ⟨fun c hc => (h.begun c hc).trans (Nat.le_add_right _ _), fun kind id m d hd => ?_, h.answers⟩
    by_cases hl : s.store.redis.lapsed (s.store.now + ms) (windowKey kind id m) = true
    · simp [LimitStore.advance, hl] at hd
    · have hlife := h.life kind id m d (by simpa [LimitStore.advance, hl] using hd)
      exact ⟨hlife.1, by show d ≤ s.store.now + ms + 70000; omega⟩
  | enter kind id =>
    obtain ⟨pc, hstart, -⟩ := LimitCall.start_eq cfg ⟨kind, id, s.store.now⟩
    refine ⟨fun c hc => ?_, h.life, h.answers⟩
    rw [hstart] at hc
    rcases List.mem_cons.mp hc with rfl | hc
    · exact le_rfl
    · exact h.begun c hc
  | @goes_on st l r c c' as hnext =>
    have heffect := h.effect
    refine ⟨fun x hx => ?_, heffect.life, heffect.answers⟩
    by_cases he : x = c'
    · rw [he, LimitCall.next_call hnext]
      have hnow : (c.effect st).now = st.now := by
        unfold LimitCall.effect
        split <;> rfl
      exact (h.begun c (by simp)).trans hnow.ge
    · exact heffect.begun x (by simp only [List.mem_append, List.mem_cons] at hx ⊢; tauto)
  | @answers st l r c a as hnext =>
    have heffect := h.effect
    refine ⟨heffect.begun, heffect.life, fun x hx => ?_⟩
    rcases List.mem_cons.mp hx with rfl | hx
    · exact h.next_answer hnext
    · exact h.answers x hx
  | @throws st l r c fate as hf =>
    by_cases hafter : fate = .failedAfter
    · rw [if_pos hafter]
      exact h.effect
    · rw [if_neg hafter]
      exact h.drop

theorem Timely.run {now : Nat} {tr : List (LimitSys × LimitMove)}
    (hr : Run (LimitStep cfg) (.start now) tr s) : Timely cfg s :=
  hr.invariant _ (fun _ _ => True) (fun _ _ _ h _ hs => h.step hs) (.start cfg now) (by simp)

end Waits

section Results

variable {cfg : LimitConfig} {now : Nat} {tr : List (LimitSys × LimitMove)} {s : LimitSys}

/-- On either backend a join is refused only when more joins than the limit allows have begun for
its address or fingerprint in its minute, whatever calls failed in between. -/
theorem limit_lt_entered_of_refused (hr : Run (LimitStep cfg) (.start now) tr s) {a : LimitAnswer}
    (ha : a ∈ s.answers) (hrefused : a.reply.allowed = false) :
    cfg.limit a.attempt.kind < tr.countP (entersAt a.attempt.windowKey) := by
  obtain ⟨d, hd, hn⟩ := Deserved.run hr
  have htruth := (Timely.run hr).answers a ha
  have hover : ¬ (a.count : Int) ≤ cfg.limit a.attempt.kind := by
    rw [htruth.allowed] at hrefused
    exact of_decide_eq_false hrefused
  have hticket : a.count ≤ d a.attempt.windowKey :=
    hd.tickets a.ticket (List.mem_append_right _ (List.mem_map_of_mem ha))
  have hcounted : _ + _ ≤ tr.countP (entersAt a.attempt.windowKey) := hn a.attempt.windowKey
  omega

/-- With a limit of zero, a lone join. -/
theorem limit_lt_entered_of_refused_lone :
    ∃ tr s, Run (LimitStep ⟨.redis, fun _ => 0⟩) (.start 5000) tr s ∧ ∃ a ∈ s.answers,
      a.reply.allowed = false ∧ 0 < tr.countP (entersAt a.attempt.windowKey) := by
  obtain ⟨tr, s, hr, -, hanswers⟩ :=
    lone_join_run ⟨.redis, fun _ => 0⟩ rfl 5000 .ip "203.0.113.7"
  have ha : _ ∈ s.answers := hanswers ▸ List.mem_singleton_self _
  have hover := limit_lt_entered_of_refused hr ha (by decide)
  exact ⟨tr, s, hr, _, ha, by decide, Int.natCast_pos.mp hover⟩

/-- Whoever waits for as long as the answer says is in a later minute, and the wait is from 1 s
to 70 s. -/
theorem retry_reaches_later_minute (hr : Run (LimitStep cfg) (.start now) tr s) {a : LimitAnswer}
    (ha : a ∈ s.answers) :
    (1 ≤ a.reply.resetSec ∧ a.reply.resetSec ≤ 70) ∧
      ∀ b : Attempt, a.atMs + 1000 * a.reply.resetSec ≤ b.nowMs →
        a.attempt.minute < b.minute ∧ a.attempt.windowKey ≠ b.windowKey := by
  have htruth := (Timely.run hr).answers a ha
  refine ⟨htruth.resetSec, fun b hb => ?_⟩
  have hlater := htruth.later
  have hbounds := b.minute_bounds
  have hminute : a.attempt.minute < b.minute := by omega
  refine ⟨hminute, fun hkey => ?_⟩
  obtain ⟨-, -, hsame⟩ := windowKey_inj hkey
  omega

/-- The wait of a lone join, 5 s after the minute began. -/
theorem retry_reaches_later_minute_lone :
    ∃ tr s, Run (LimitStep ⟨.redis, fun _ => 1⟩) (.start 5000) tr s ∧ ∃ a ∈ s.answers,
      a.reply.resetSec = 70 ∧ a.attempt.minute < (Attempt.mk .ip "203.0.113.7" 75000).minute := by
  obtain ⟨tr, s, hr, -, hanswers⟩ :=
    lone_join_run ⟨.redis, fun _ => 1⟩ rfl 5000 .ip "203.0.113.7"
  have ha : _ ∈ s.answers := hanswers ▸ List.mem_singleton_self _
  have hlater := (retry_reaches_later_minute hr ha).2 ⟨.ip, "203.0.113.7", 75000⟩ (by decide)
  exact ⟨tr, s, hr, _, ha, rfl, hlater.1⟩

end Results

end CrowdTic
