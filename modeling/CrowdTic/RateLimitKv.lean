import CrowdTic.RateLimitRefusals

/-! The limits on the KV fallback, which reads a count in one step and writes
it in another. Calls that overlap may let more joins pass: the limit once more
for every count that is written back. -/

namespace CrowdTic

/-- A count is written under the key `k` that is not above the one it replaces. -/
def losesAt (k : String) (p : LimitSys × LimitMove) : Bool :=
  match p.2 with
  | .exec ⟨a, .put cur⟩ fate =>
    fate ≠ .failedBefore ∧ a.windowKey = k ∧ cur + 1 ≤ (p.1.store.kv.get k).getD 0
  | _ => false

theorem losesAt_put (k : String) (s : LimitSys) (a : Attempt) (cur : Nat) {fate : CallFate}
    (hf : fate ≠ .failedBefore) : losesAt k (s, .exec ⟨a, .put cur⟩ fate) =
      decide (a.windowKey = k ∧ cur + 1 ≤ (s.store.kv.get k).getD 0) := by
  simp [losesAt, hf]

section Writes

/-- On KV, the joins let through in one minute against its count and the counts written back. -/
structure KvCounted (cfg : LimitConfig) (kind : LimitKind) (id : String) (m lost : Nat)
    (s : LimitSys) : Prop where
  kv : ∀ c ∈ s.calls, c.pc = .get ∨ ∃ cur, c.pc = .put cur
  life : ∀ d, s.store.kv.ttl (windowKey kind id m) = some d → 60000 * m + 70000 ≤ d
  spent : SharedCounter.Spent (cfg.limit kind).toNat ((s.store.kv.get (windowKey kind id m)).getD 0) lost
      (passedIn kind id m s.answers) ∨
    60000 * m + 70000 < s.store.now ∧
      passedIn kind id m s.answers ≤ (cfg.limit kind).toNat * (lost + 1)

variable {cfg : LimitConfig} {kind : LimitKind} {id : String} {m lost : Nat} {st : LimitStore}
  {l r : List LimitCall} {a : Attempt} {cur : Nat} {as : List LimitAnswer} {s s' : LimitSys}
  {mv : LimitMove}

theorem KvCounted.drop {c : LimitCall} (h : KvCounted cfg kind id m lost ⟨st, l ++ c :: r, as⟩) :
    KvCounted cfg kind id m lost ⟨st, l ++ r, as⟩ where
  kv x hx := h.kv x (by simp only [List.mem_append, List.mem_cons] at hx ⊢; tauto)
  life := h.life
  spent := h.spent

theorem KvCounted.advance (h : KvCounted cfg kind id m lost s) (ms : Nat) :
    KvCounted cfg kind id m lost { s with store := s.store.advance ms } := by
  by_cases hl : s.store.kv.lapsed (s.store.now + ms) (windowKey kind id m) = true
  · obtain ⟨d, hd, hpast⟩ := (Option.any_eq_true _ _).mp hl
    have hlife := h.life d hd
    have hpast : d < s.store.now + ms := by simpa using hpast
    refine ⟨h.kv, by simp [LimitStore.advance, hl], .inr ⟨?_, h.spent.elim (·.le) (·.2)⟩⟩
    show 60000 * m + 70000 < s.store.now + ms
    omega
  · refine ⟨h.kv, by simpa [LimitStore.advance, hl] using h.life, ?_⟩
    rcases h.spent with hs | ⟨hover, hle⟩
    · exact .inl (by simpa [LimitStore.advance, hl] using hs)
    · exact .inr ⟨by show 60000 * m + 70000 < s.store.now + ms; omega, hle⟩

theorem passedIn_answer (a : Attempt) (n resetSec : Int) {count : Nat} (hcount : 1 ≤ count) (now : Nat)
    (as : List LimitAnswer) :
    passedIn a.kind a.id a.minute (⟨a, count, limitReply n count resetSec, now⟩ :: as) =
      if count ≤ n.toNat then passedIn a.kind a.id a.minute as + 1
      else passedIn a.kind a.id a.minute as := by
  have hpasses : LimitAnswer.passes a.kind a.id ⟨a, count, limitReply n count resetSec, now⟩ =
      decide (count ≤ n.toNat) := by
    simp only [LimitAnswer.passes, limitReply, decide_eq_true_eq, and_true]
    exact decide_eq_decide.mpr (by omega)
  simp only [passedIn, List.countP_cons, hpasses, and_true, decide_eq_true_eq]
  split <;> rfl

/-- The write of a call, with its answer when that gets through. -/
theorem KvCounted.write (h : KvCounted cfg kind id m lost ⟨st, l ++ ⟨a, .put cur⟩ :: r, as⟩)
    (hbegun : a.nowMs ≤ st.now) (hprompt : st.now ≤ a.nowMs + 10000) {as' : List LimitAnswer}
    (has : as' = as ∨ ∃ resetSec now, as' =
      ⟨a, cur + 1, limitReply (cfg.limit a.kind) (cur + 1 : Nat) resetSec, now⟩ :: as) :
    KvCounted cfg kind id m
      (lost + if a.windowKey = windowKey kind id m ∧
        cur + 1 ≤ (st.kv.get (windowKey kind id m)).getD 0 then 1 else 0)
      ⟨st.put a.windowKey (cur + 1), l ++ r, as'⟩ := by
  have hbounds := a.minute_bounds
  by_cases hk : windowKey kind id m = a.windowKey
  · obtain ⟨rfl, rfl, rfl⟩ := windowKey_inj hk
    have hspent : SharedCounter.Spent (cfg.limit a.kind).toNat ((st.kv.get a.windowKey).getD 0) lost
        (passedIn a.kind a.id a.minute as) := h.spent.resolve_right fun hover => by
      have hnow : 60000 * a.minute + 70000 < st.now := hover.1
      omega
    have hwrite := hspent.write (Nat.le_add_left 1 cur)
    have hlost (n v : Nat) : (lost + if a.windowKey = windowKey a.kind a.id a.minute ∧ n ≤ v then 1 else 0) =
        if n ≤ v then lost + 1 else lost := by
      rw [hk]
      split <;> simp_all
    refine ⟨h.drop.kv, fun d hd => ?_, .inl ?_⟩
    · obtain rfl : st.now + 70000 = d := by simpa [LimitStore.put, hk] using hd
      omega
    · rw [hlost]
      have hvalue : (st.put a.windowKey (cur + 1)).kv.get (windowKey a.kind a.id a.minute) =
          some (cur + 1) := by
        simp [LimitStore.put, hk]
      show SharedCounter.Spent _ (Option.getD _ 0) _ (passedIn a.kind a.id a.minute as')
      rw [hvalue]
      refine hwrite.mono ?_
      rcases has with rfl | ⟨resetSec, now, rfl⟩
      · split <;> omega
      · exact (passedIn_answer a _ resetSec (Nat.le_add_left 1 cur) now as).le
  · have hk' : a.windowKey ≠ windowKey kind id m := fun he => hk he.symm
    have hcount : passedIn kind id m as' = passedIn kind id m as := by
      rcases has with rfl | ⟨resetSec, now, rfl⟩
      · rfl
      · refine List.countP_cons_of_neg fun hp => hk' ?_
        simp only [LimitAnswer.passes, decide_eq_true_eq] at hp
        obtain ⟨⟨-, rfl, rfl⟩, rfl⟩ := hp
        rfl
    rw [if_neg fun he => hk' he.1]
    refine ⟨h.drop.kv, ?_, ?_⟩
    · simpa [LimitStore.put, hk] using h.life
    · show SharedCounter.Spent _ _ _ (passedIn kind id m as') ∨
        _ ∧ passedIn kind id m as' ≤ _
      rw [hcount]
      simpa [LimitStore.put, hk] using h.spent

theorem KvCounted.insert {c : LimitCall} (h : KvCounted cfg kind id m lost ⟨st, l ++ r, as⟩)
    (hc : c.pc = .get ∨ ∃ cur, c.pc = .put cur) :
    KvCounted cfg kind id m lost ⟨st, l ++ c :: r, as⟩ where
  kv x hx := by
    by_cases he : x = c
    · exact he ▸ hc
    · exact h.kv x (by simp only [List.mem_append, List.mem_cons] at hx ⊢; tauto)
  life := h.life
  spent := h.spent

theorem KvCounted.step (hb : cfg.backend = .kv) (h : KvCounted cfg kind id m lost s)
    (ht : Timely cfg s) (hm : Prompt s mv) (hs : LimitStep cfg s mv s') :
    KvCounted cfg kind id m (lost + if losesAt (windowKey kind id m) (s, mv) then 1 else 0) s' := by
  cases hs with
  | tick ms => exact h.advance ms
  | enter kind' id' =>
    have hstart : LimitCall.start cfg ⟨kind', id', s.store.now⟩ = ⟨⟨kind', id', s.store.now⟩, .get⟩ := by
      simp only [LimitCall.start, hb]
    rw [hstart]
    exact KvCounted.insert (l := []) h (.inl rfl)
  | @goes_on st l r c c' as hnext =>
    obtain ⟨a, pc⟩ := c
    rcases h.kv ⟨a, pc⟩ (by simp) with hpc | ⟨cur, hpc⟩
    · obtain rfl : pc = .get := hpc
      obtain rfl := Progress.call.inj hnext
      exact h.drop.insert (.inr ⟨_, rfl⟩)
    · obtain rfl : pc = .put cur := hpc
      cases hnext
  | @answers st l r c x as hnext =>
    obtain ⟨a, pc⟩ := c
    rcases h.kv ⟨a, pc⟩ (by simp) with hpc | ⟨cur, hpc⟩
    · obtain rfl : pc = .get := hpc
      cases hnext
    · obtain rfl : pc = .put cur := hpc
      obtain rfl := Progress.answer.inj hnext
      have hwrite := h.write (ht.begun ⟨a, .put cur⟩ (by simp)) (hm (.inr ⟨cur, rfl⟩))
        (.inr ⟨60 - (a.nowSec % 60 : Nat), st.now, rfl⟩)
      rw [losesAt_put _ _ a cur (by simp)]
      simp only [decide_eq_true_eq]
      exact hwrite
  | @throws st l r c fate as hf =>
    obtain ⟨a, pc⟩ := c
    rcases h.kv ⟨a, pc⟩ (by simp) with hpc | ⟨cur, hpc⟩
    · obtain rfl : pc = .get := hpc
      simpa [losesAt, LimitCall.effect] using h.drop
    · obtain rfl : pc = .put cur := hpc
      by_cases hafter : fate = .failedAfter
      · have hwrite := h.write (ht.begun ⟨a, .put cur⟩ (by simp)) (hm (.inr ⟨cur, rfl⟩)) (.inl rfl)
        rw [if_pos hafter, losesAt_put _ _ a cur (by simp [hafter])]
        simp only [decide_eq_true_eq]
        exact hwrite
      · have hbefore : fate = .failedBefore := by cases fate <;> simp_all
        simpa [losesAt, hbefore] using h.drop

theorem KvCounted.start (cfg : LimitConfig) (kind : LimitKind) (id : String) (m now : Nat) :
    KvCounted cfg kind id m 0 (.start now) where
  kv := by simp [LimitSys.start]
  life := by simp [LimitSys.start, ExpMap.ttl]
  spent := .inl (Nat.zero_le _)

end Writes

section Results

variable {cfg : LimitConfig} {now : Nat} {tr : List (LimitSys × LimitMove)} {s : LimitSys}

/-- On KV no address or fingerprint gets more joins through in one minute than its limit, and once
more its limit for every count that is written back under its key. -/
theorem passedIn_le_of_lost (hb : cfg.backend = .kv) (hr : Run (LimitStep cfg) (.start now) tr s)
    (hprompt : ∀ p ∈ tr, Prompt p.1 p.2) (kind : LimitKind) (id : String) (m : Nat) :
    passedIn kind id m s.answers ≤
      (cfg.limit kind).toNat * (tr.countP (losesAt (windowKey kind id m)) + 1) := by
  have hcounted : KvCounted cfg kind id m (tr.countP (losesAt (windowKey kind id m))) s := by
    induction hr with
    | nil => exact .start cfg kind id m now
    | @snoc tr t u mv hr hs ih =>
      have hp := List.forall_mem_append.mp hprompt
      have hstep := (ih hp.1).step hb (Timely.run hr) (hp.2 (t, mv) (by simp)) hs
      simpa only [List.countP_append, List.countP_singleton] using hstep
  exact hcounted.spent.elim (·.le) (·.2)

/-- Two joins that overlap. -/
theorem overlapping_joins_run (cfg : LimitConfig) (hb : cfg.backend = .kv) (now : Nat)
    (kind : LimitKind) (id : String) :
    ∃ tr s, Run (LimitStep cfg) (.start now) tr s ∧ (∀ p ∈ tr, Prompt p.1 p.2) ∧
      ∃ resetSec, s.answers = .replicate 2
        ⟨⟨kind, id, now⟩, 1, limitReply (cfg.limit kind) 1 resetSec, now⟩ := by
  let a : Attempt := ⟨kind, id, now⟩
  have hstart : LimitCall.start cfg ⟨kind, id, (LimitSys.start now).store.now⟩ = ⟨a, .get⟩ := by
    simp only [LimitCall.start, hb]
    rfl
  have hfirst : Run (LimitStep cfg) (.start now) _ _ := .single (.enter kind id)
  have hsecond := hfirst.snoc (.enter kind id)
  rw [hstart] at hsecond
  have hnext : LimitCall.next cfg ⟨a, .get⟩ (LimitSys.start now).store = .call ⟨a, .put 0⟩ := rfl
  have hget := hsecond.snoc (.goes_on (l := []) (r := [⟨a, .get⟩]) hnext)
  have hget' := hget.snoc (.goes_on (l := [⟨a, .put 0⟩]) (r := []) hnext)
  have hput := hget'.snoc (.answers (l := []) (r := [⟨a, .put 0⟩]) rfl)
  have hput' := hput.snoc (.answers (l := []) (r := []) rfl)
  refine ⟨_, _, hput', ?_, _, rfl⟩
  simp [Prompt, LimitSys.start, LimitCall.effect, LimitStore.put, a]

/-- Two joins that overlap pass a limit of one: the second writes back what the first has written. -/
theorem passedIn_le_of_lost_overlap : ∃ tr s, Run (LimitStep ⟨.kv, fun _ => 1⟩) (.start 5000) tr s ∧
    passedIn .ip "203.0.113.7" 0 s.answers = 2 ∧
      2 ≤ 1 * (tr.countP (losesAt (windowKey .ip "203.0.113.7" 0)) + 1) := by
  obtain ⟨tr, s, hr, hprompt, resetSec, hanswers⟩ :=
    overlapping_joins_run ⟨.kv, fun _ => 1⟩ rfl 5000 .ip "203.0.113.7"
  have htwo : passedIn .ip "203.0.113.7" 0 s.answers = 2 := by
    rw [hanswers]
    simp [passedIn, LimitAnswer.passes, limitReply, Attempt.minute, Attempt.nowSec]
  refine ⟨tr, s, hr, htwo, ?_⟩
  have hbound := passedIn_le_of_lost rfl hr hprompt .ip "203.0.113.7" 0
  rwa [htwo] at hbound

end Results

end CrowdTic
