import CrowdTic.RateLimit
import CrowdTic.SharedCounter

/-! How many joins the limits let through. On Redis the numbers that `INCR`
hands out for one window are all different, as long as the key outlives the
commands of its minute. -/

namespace CrowdTic

def LimitCall.ticket (c : LimitCall) : Option (String × Nat) :=
  match c.pc with
  | .expire => some (c.attempt.windowKey, 1)
  | .ttl n => some (c.attempt.windowKey, n)
  | _ => none

def LimitAnswer.ticket (a : LimitAnswer) : String × Nat := (a.attempt.windowKey, a.count)

/-- The numbers that were handed out to calls which have not failed. -/
def LimitSys.tickets (s : LimitSys) : List (String × Nat) :=
  s.calls.filterMap LimitCall.ticket ++ s.answers.map LimitAnswer.ticket

/-- A command that counts comes within 10 s of its call. -/
def Prompt (s : LimitSys) : LimitMove → Prop
  | .exec c _ => (c.pc = .incr ∨ ∃ cur, c.pc = .put cur) → s.store.now ≤ c.attempt.nowMs + 10000
  | _ => True

theorem Attempt.minute_bounds (a : Attempt) :
    60000 * a.minute ≤ a.nowMs ∧ a.nowMs < 60000 * (a.minute + 1) := by
  unfold Attempt.minute Attempt.nowSec
  omega

section Tally

/-- The numbers `T` against the counters: a key whose minute has commands in flight is alive and
at least as high as its numbers. -/
structure Tally (st : LimitStore) (T : List (String × Nat)) : Prop where
  nodup : T.Nodup
  pos : ∀ x ∈ T, 1 ≤ x.2
  life : ∀ kind id m d, st.redis.ttl (windowKey kind id m) = some d → 60000 * m + 70000 ≤ d
  below : ∀ kind id m n, (windowKey kind id m, n) ∈ T →
    (∃ v, st.redis.get (windowKey kind id m) = some v ∧ n ≤ v) ∨ 60000 * m + 70000 < st.now

variable {st : LimitStore} {T T' : List (String × Nat)}

theorem Tally.subperm (h : Tally st T) (hT : T'.Subperm T) : Tally st T' where
  nodup := by
    obtain ⟨l, hl, hsub⟩ := hT
    exact hl.nodup_iff.mp (h.nodup.sublist hsub)
  pos x hx := h.pos x (hT.subset hx)
  life := h.life
  below kind id m n hm := h.below kind id m n (hT.subset hm)

theorem Tally.start (now : Nat) : Tally ⟨now, fun _ => none, fun _ => none⟩ [] where
  nodup := .nil
  pos := by simp
  life := by simp [ExpMap.ttl]
  below := by simp

theorem Tally.advance (h : Tally st T) (ms : Nat) : Tally (st.advance ms) T where
  nodup := h.nodup
  pos := h.pos
  life kind id m d hd := by
    refine h.life kind id m d ?_
    by_cases hl : st.redis.lapsed (st.now + ms) (windowKey kind id m) = true
    · simp [LimitStore.advance, hl] at hd
    · simpa [LimitStore.advance, hl] using hd
  below kind id m n hm := by
    rcases h.below kind id m n hm with ⟨v, hv, hn⟩ | hover
    · by_cases hl : st.redis.lapsed (st.now + ms) (windowKey kind id m) = true
      · obtain ⟨d, hd, hpast⟩ := (Option.any_eq_true _ _).mp hl
        have hlife := h.life kind id m d hd
        have hpast : d < st.now + ms := by simpa using hpast
        exact .inr (by show 60000 * m + 70000 < st.now + ms; omega)
      · exact .inl ⟨v, by simpa [LimitStore.advance, hl] using hv, hn⟩
    · exact .inr (by show 60000 * m + 70000 < st.now + ms; omega)

theorem Tally.incr (h : Tally st T) (a : Attempt) (hprompt : st.now ≤ a.nowMs + 10000) :
    Tally (st.incr a.windowKey) ((a.windowKey, (st.redis.get a.windowKey).getD 0 + 1) :: T) := by
  have hbounds := a.minute_bounds
  refine ⟨List.nodup_cons.mpr ⟨fun hm => ?_, h.nodup⟩, ?_, ?_, ?_⟩
  · rcases h.below a.kind a.id a.minute _ hm with ⟨v, hv, hn⟩ | hover
    · rw [Attempt.windowKey, hv, Option.getD_some] at hn
      omega
    · omega
  · intro x hx
    rcases List.mem_cons.mp hx with rfl | hx
    · exact Nat.le_add_left 1 _
    · exact h.pos x hx
  · intro kind id m d hd
    exact h.life kind id m d (by simpa [LimitStore.incr] using hd)
  · intro kind id m n hm
    by_cases hk : windowKey kind id m = a.windowKey
    · refine .inl ⟨(st.redis.get a.windowKey).getD 0 + 1, by simp [LimitStore.incr, hk], ?_⟩
      rcases List.mem_cons.mp hm with he | hm
      · exact (Prod.mk.inj he).2.le
      · rcases h.below kind id m n hm with ⟨v, hv, hn⟩ | hover
        · rw [hk] at hv
          rw [hv, Option.getD_some]
          omega
        · obtain ⟨-, -, rfl⟩ := windowKey_inj hk
          omega
    · have hm : (windowKey kind id m, n) ∈ T :=
        (List.mem_cons.mp hm).resolve_left fun he => hk (Prod.mk.inj he).1
      refine (h.below kind id m n hm).imp_left fun hv => ?_
      simpa [LimitStore.incr, hk] using hv

theorem Tally.expire (h : Tally st T) (a : Attempt) (hbegun : a.nowMs ≤ st.now) :
    Tally (st.expire a.windowKey) T where
  nodup := h.nodup
  pos := h.pos
  life kind id m d hd := by
    by_cases hk : windowKey kind id m = a.windowKey
    · obtain ⟨-, -, rfl⟩ := windowKey_inj hk
      have hbounds := a.minute_bounds
      rw [LimitStore.expire, ExpMap.ttl_setDeadline, if_pos hk] at hd
      obtain ⟨-, -, hd⟩ := Option.bind_eq_some_iff.mp hd
      obtain rfl := Option.some.inj hd
      omega
    · exact h.life kind id m d (by simpa [LimitStore.expire, hk] using hd)
  below kind id m n hm := by
    simpa [LimitStore.expire] using h.below kind id m n hm

end Tally

section Steps

variable {cfg : LimitConfig} {s s' : LimitSys} {m : LimitMove}

theorem tickets_perm (st : LimitStore) (l r : List LimitCall) (c : LimitCall) (as : List LimitAnswer) :
    (LimitSys.tickets ⟨st, l ++ c :: r, as⟩).Perm
      (c.ticket.toList ++ LimitSys.tickets ⟨st, l ++ r, as⟩) := by
  have hc : (c :: r).filterMap LimitCall.ticket = c.ticket.toList ++ r.filterMap LimitCall.ticket := by
    cases hk : c.ticket <;> simp [hk]
  simp only [LimitSys.tickets, List.filterMap_append, hc, List.append_assoc]
  exact List.perm_append_comm_assoc _ _ _

/-- On Redis, with every answer honest about its number. -/
structure Counted (cfg : LimitConfig) (s : LimitSys) : Prop where
  redis : ∀ c ∈ s.calls, c.pc ≠ .get ∧ ∀ cur, c.pc ≠ .put cur
  begun : ∀ c ∈ s.calls, c.attempt.nowMs ≤ s.store.now
  tally : Tally s.store s.tickets
  honest : ∀ a ∈ s.answers, a.reply.allowed = decide ((a.count : Int) ≤ cfg.limit a.attempt.kind)

theorem Counted.start (cfg : LimitConfig) (now : Nat) : Counted cfg (.start now) where
  redis := by simp [LimitSys.start]
  begun := by simp [LimitSys.start]
  tally := .start now
  honest := by simp [LimitSys.start]

theorem Counted.others {st : LimitStore} {l r : List LimitCall} {c : LimitCall} {as : List LimitAnswer}
    (h : Counted cfg ⟨st, l ++ c :: r, as⟩) : Tally st (LimitSys.tickets ⟨st, l ++ r, as⟩) := by
  refine h.tally.subperm ?_
  exact (List.sublist_append_right _ _).subperm.trans (tickets_perm st l r c as).symm.subperm

/-- A call goes, and what it leaves behind is the tally `T` of its own ticket and the others. -/
theorem Counted.drop {st st' : LimitStore} {l r : List LimitCall} {c : LimitCall}
    {as : List LimitAnswer} (h : Counted cfg ⟨st, l ++ c :: r, as⟩) (hnow : st'.now = st.now)
    (ht : Tally st' (LimitSys.tickets ⟨st, l ++ r, as⟩)) : Counted cfg ⟨st', l ++ r, as⟩ where
  redis x hx := h.redis x (by simp only [List.mem_append, List.mem_cons] at hx ⊢; tauto)
  begun x hx := by
    show x.attempt.nowMs ≤ st'.now
    rw [hnow]
    exact h.begun x (by simp only [List.mem_append, List.mem_cons] at hx ⊢; tauto)
  tally := ht
  honest := h.honest

theorem Counted.insert {st : LimitStore} {l r : List LimitCall} {c : LimitCall} {as : List LimitAnswer}
    (h : Counted cfg ⟨st, l ++ r, as⟩) (hredis : c.pc ≠ .get ∧ ∀ cur, c.pc ≠ .put cur)
    (hbegun : c.attempt.nowMs ≤ st.now)
    (ht : Tally st (c.ticket.toList ++ LimitSys.tickets ⟨st, l ++ r, as⟩)) :
    Counted cfg ⟨st, l ++ c :: r, as⟩ where
  redis x hx := by
    by_cases he : x = c
    · exact he ▸ hredis
    · exact h.redis x (by simp only [List.mem_append, List.mem_cons] at hx ⊢; tauto)
  begun x hx := by
    by_cases he : x = c
    · exact he ▸ hbegun
    · exact h.begun x (by simp only [List.mem_append, List.mem_cons] at hx ⊢; tauto)
  tally := ht.subperm (tickets_perm st l r c as).subperm
  honest := h.honest

theorem Counted.step (hb : cfg.backend = .redis) (h : Counted cfg s) (hm : Prompt s m)
    (hs : LimitStep cfg s m s') : Counted cfg s' := by
  cases hs with
  | tick ms =>
    refine ⟨h.redis, fun c hc => ?_, h.tally.advance ms, h.honest⟩
    exact (h.begun c hc).trans (Nat.le_add_right _ _)
  | enter kind id =>
    have hstart : LimitCall.start cfg ⟨kind, id, s.store.now⟩ = ⟨⟨kind, id, s.store.now⟩, .incr⟩ := by
      simp only [LimitCall.start, hb]
    rw [hstart]
    refine Counted.insert (l := []) ?_ (by simp) le_rfl ?_
    · exact h
    · exact h.tally
  | @goes_on st l r c c' as hn =>
    obtain ⟨a, pc⟩ := c
    have hmem : (⟨a, pc⟩ : LimitCall) ∈ l ++ ⟨a, pc⟩ :: r := by simp
    have hbegun := h.begun _ hmem
    have hrest := h.others
    cases pc with
    | incr =>
      obtain rfl := Progress.call.inj hn
      have ht := hrest.incr a (hm (.inl rfl))
      refine Counted.insert (h.drop rfl (ht.subperm (List.sublist_cons_self _ _).subperm)) ?_ hbegun ?_
      · split <;> simp
      · by_cases hone : (st.redis.get a.windowKey).getD 0 + 1 = 1
        · rw [if_pos hone]
          rw [hone] at ht
          exact ht
        · rw [if_neg hone]
          exact ht
    | expire =>
      obtain rfl := Progress.call.inj hn
      have ht := (h.tally.subperm (tickets_perm st l r _ as).symm.subperm).expire a hbegun
      exact Counted.insert (h.drop rfl (hrest.expire a hbegun)) (by simp) hbegun ht
    | ttl n => cases hn
    | get => exact absurd rfl (h.redis _ hmem).1
    | put cur => exact absurd rfl ((h.redis _ hmem).2 cur)
  | @answers st l r c x as hn =>
    obtain ⟨a, pc⟩ := c
    have hmem : (⟨a, pc⟩ : LimitCall) ∈ l ++ ⟨a, pc⟩ :: r := by simp
    have hrest := h.others
    cases pc with
    | ttl n =>
      obtain rfl := Progress.answer.inj hn
      have hdrop : Counted cfg ⟨st, l ++ r, as⟩ := h.drop rfl hrest
      refine ⟨hdrop.redis, hdrop.begun, h.tally.subperm ?_, ?_⟩
      · refine List.Perm.subperm ?_
        refine List.Perm.trans ?_ (tickets_perm st l r ⟨a, .ttl n⟩ as).symm
        exact List.perm_middle
      · intro y hy
        rcases List.mem_cons.mp hy with rfl | hy
        · rfl
        · exact h.honest y hy
    | incr => cases hn
    | expire => cases hn
    | get => cases hn
    | put cur => exact absurd rfl ((h.redis _ hmem).2 cur)
  | @throws st l r c fate as hf =>
    obtain ⟨a, pc⟩ := c
    have hmem : (⟨a, pc⟩ : LimitCall) ∈ l ++ ⟨a, pc⟩ :: r := by simp
    have hrest := h.others
    by_cases hafter : fate = .failedAfter
    · rw [if_pos hafter]
      cases pc with
      | incr =>
        exact h.drop rfl ((hrest.incr a (hm (.inl rfl))).subperm (List.sublist_cons_self _ _).subperm)
      | expire => exact h.drop rfl (hrest.expire a (h.begun _ hmem))
      | ttl n => exact h.drop rfl hrest
      | get => exact absurd rfl (h.redis _ hmem).1
      | put cur => exact absurd rfl ((h.redis _ hmem).2 cur)
    · rw [if_neg hafter]
      exact h.drop rfl hrest

end Steps

section Limits

variable {cfg : LimitConfig} {now : Nat} {tr : List (LimitSys × LimitMove)} {s : LimitSys}

/-- The answer lets a join of this address or fingerprint pass. -/
def LimitAnswer.passes (kind : LimitKind) (id : String) (a : LimitAnswer) : Bool :=
  a.reply.allowed ∧ a.attempt.kind = kind ∧ a.attempt.id = id

/-- The joins let through in the minute `m`. -/
def passedIn (kind : LimitKind) (id : String) (m : Nat) (answers : List LimitAnswer) : Nat :=
  answers.countP fun a => a.passes kind id ∧ a.attempt.minute = m

theorem countP_le_add {α : Type} {p q r : α → Bool} {l : List α}
    (h : ∀ x ∈ l, p x = true → q x = true ∨ r x = true) : l.countP p ≤ l.countP q + l.countP r := by
  induction l with
  | nil => simp
  | cons x l ih =>
    have hl := ih fun y hy => h y (List.mem_cons_of_mem x hy)
    have hx := h x List.mem_cons_self
    rw [List.countP_cons, List.countP_cons, List.countP_cons]
    split_ifs with hp hq hr hr <;> grind

theorem Counted.passes_le (h : Counted cfg s) (kind : LimitKind) (id : String) (m : Nat) :
    passedIn kind id m s.answers ≤ (cfg.limit kind).toNat := by
  have htickets := SharedCounter.countP_le_of_distinct h.tally.nodup h.tally.pos (windowKey kind id m)
    (cfg.limit kind).toNat
  rw [LimitSys.tickets, List.countP_append, List.countP_map] at htickets
  refine le_trans (List.countP_mono_left fun a ha hpass => ?_) (le_trans (Nat.le_add_left _ _) htickets)
  simp only [LimitAnswer.passes, decide_eq_true_eq] at hpass
  obtain ⟨⟨hallowed, rfl, rfl⟩, rfl⟩ := hpass
  have hcount : (a.count : Int) ≤ cfg.limit a.attempt.kind := by
    rw [h.honest a ha] at hallowed
    exact of_decide_eq_true hallowed
  simp only [Function.comp_apply, LimitAnswer.ticket, Attempt.windowKey, decide_eq_true_eq]
  exact ⟨trivial, by omega⟩

theorem LimitStore.ttl_expire_incr (st : LimitStore) (k : String) :
    ((st.incr k).expire k).ttl k = 70 := by
  have hget : ((st.incr k).expire k).redis.get k = some ((st.redis.get k).getD 0 + 1) := by
    simp [LimitStore.expire, LimitStore.incr]
  have httl : ((st.incr k).expire k).redis.ttl k = some (st.now + 70000) := by
    simp [LimitStore.expire, LimitStore.incr]
  simp only [LimitStore.ttl, hget, httl]
  show (((st.now + 70000 : Nat) : Int) - st.now + 500) / 1000 = 70
  omega

/-- A join that is alone. -/
theorem lone_join_run (cfg : LimitConfig) (hb : cfg.backend = .redis) (now : Nat) (kind : LimitKind)
    (id : String) :
    ∃ tr s, Run (LimitStep cfg) (.start now) tr s ∧ (∀ p ∈ tr, Prompt p.1 p.2) ∧
      s.answers = [⟨⟨kind, id, now⟩, 1, limitReply (cfg.limit kind) 1 70, now⟩] := by
  let a : Attempt := ⟨kind, id, now⟩
  have hstart : LimitCall.start cfg ⟨kind, id, (LimitSys.start now).store.now⟩ = ⟨a, .incr⟩ := by
    simp only [LimitCall.start, hb]
    rfl
  have henter : Run (LimitStep cfg) (.start now) _ _ := .single (.enter kind id)
  rw [hstart] at henter
  have hfirst : LimitCall.next cfg ⟨a, .incr⟩ (LimitSys.start now).store = .call ⟨a, .expire⟩ := rfl
  have hincr := henter.snoc (.goes_on (l := []) (r := []) hfirst)
  have hnext (st : LimitStore) : LimitCall.next cfg ⟨a, .expire⟩ st = .call ⟨a, .ttl 1⟩ := rfl
  have hexpire := hincr.snoc (.goes_on (l := []) (r := []) (hnext _))
  have hanswer : LimitCall.next cfg ⟨a, .ttl 1⟩ (((LimitSys.start now).store.incr a.windowKey).expire
      a.windowKey) = .answer ⟨a, 1, limitReply (cfg.limit kind) 1 70, now⟩ := by
    simp only [LimitCall.next, LimitStore.ttl_expire_incr]
    rfl
  refine ⟨_, _, hexpire.snoc (.answers (l := []) (r := []) hanswer), ?_, rfl⟩
  simp [Prompt, LimitSys.start, LimitCall.effect, LimitStore.incr, LimitStore.expire, a]

/-- On Redis no address or fingerprint gets more than its limit of joins through in one minute of
the clock, nor twice its limit in any 60 s, in whatever order the commands of its joins come. -/
theorem passes_le_limit (hb : cfg.backend = .redis) (hr : Run (LimitStep cfg) (.start now) tr s)
    (hprompt : ∀ p ∈ tr, Prompt p.1 p.2) (kind : LimitKind) (id : String) :
    (∀ m, passedIn kind id m s.answers ≤ (cfg.limit kind).toNat) ∧
    ∀ t, (s.answers.countP fun a =>
      a.passes kind id ∧ t ≤ a.attempt.nowMs ∧ a.attempt.nowMs < t + 60000) ≤
        2 * (cfg.limit kind).toNat := by
  have hcounted : Counted cfg s :=
    hr.invariant _ _ (fun _ _ _ h hm hs => h.step hb hm hs) (.start cfg now) hprompt
  refine ⟨hcounted.passes_le kind id, fun t => ?_⟩
  have hfirst := hcounted.passes_le kind id (t / 60000)
  have hsecond := hcounted.passes_le kind id (t / 60000 + 1)
  refine le_trans (countP_le_add fun a _ hspan => ?_)
    (le_trans (Nat.add_le_add hfirst hsecond) (by omega))
  simp only [decide_eq_true_eq] at hspan ⊢
  have hbounds := a.attempt.minute_bounds
  have hminute : a.attempt.minute = t / 60000 ∨ a.attempt.minute = t / 60000 + 1 := by omega
  exact hminute.imp (⟨hspan.1, ·⟩) (⟨hspan.1, ·⟩)

/-- With a limit of one, for one join. -/
theorem passes_le_limit_lone : ∃ tr s, Run (LimitStep ⟨.redis, fun _ => 1⟩) (.start 5000) tr s ∧
    passedIn .ip "203.0.113.7" 0 s.answers = 1 ∧ ∀ m, passedIn .ip "203.0.113.7" m s.answers ≤ 1 := by
  obtain ⟨tr, s, hr, hprompt, hanswers⟩ :=
    lone_join_run ⟨.redis, fun _ => 1⟩ rfl 5000 .ip "203.0.113.7"
  refine ⟨tr, s, hr, ?_, (passes_le_limit rfl hr hprompt .ip "203.0.113.7").1⟩
  rw [hanswers]
  decide

end Limits

end CrowdTic
