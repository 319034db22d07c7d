import CrowdTic.TokenBucket
import Mathlib.Data.NNRat.Defs

/-! Calls of the admission bucket one after the other, while the store may drop
an entry that nobody has written for two minutes. They are answered like the
calls of a bucket that is never forgotten. -/

namespace CrowdTic

/-- The entry of the store, and the replies so far, the newest one in front. -/
structure LoneBucket where
  clock : Nat
  entry : Option BucketState
  replies : List BucketReply

inductive LoneMove
  | wait (ms : Nat)
  | consume (need : ℚ≥0)
  | evict

namespace LoneBucket

def start (clock : Nat) : LoneBucket := ⟨clock, none, []⟩

def exec (rate : Nat) (s : LoneBucket) : LoneMove → LoneBucket
  | .wait ms => { s with clock := s.clock + ms }
  | .consume need =>
    let out := tokenBucketConsume .exact rate s.entry s.clock need
    { s with
      entry := some out.2
      replies := out.1 :: s.replies }
  | .evict => { s with entry := none }

end LoneBucket

/-- An entry lives for at least 120 s after its last write. -/
inductive LoneStep (rate : Nat) (s : LoneBucket) : LoneMove → LoneBucket → Prop
  | wait (ms : Nat) : LoneStep rate s (.wait ms) (s.exec rate (.wait ms))
  | consume (need : ℚ≥0) : LoneStep rate s (.consume need) (s.exec rate (.consume need))
  | evict (h : ∀ b, s.entry = some b → b.lastMs + 120000 ≤ s.clock) :
      LoneStep rate s .evict (s.exec rate .evict)

@[ext] structure IdealBucket (rate : Nat) where
  level : ℚ
  nonneg : 0 ≤ level
  le_rate : level ≤ rate

namespace IdealBucket

variable {rate : Nat}

def full : IdealBucket rate := ⟨rate, Nat.cast_nonneg _, le_rfl⟩

/-- Some milliseconds go by, whole or not. -/
def fill (b : IdealBucket rate) (ms : ℚ≥0) : IdealBucket rate where
  level := min rate (b.level + rate / 1000 * ms)
  nonneg := by
    have hl := b.nonneg
    have hp : (0 : ℚ) ≤ rate / 1000 * ms := mul_nonneg (by positivity) ms.cast_nonneg
    exact le_min (Nat.cast_nonneg _) (by linarith)
  le_rate := min_le_left _ _

/-- A refusal tells the time in which the bucket makes up for what is missing. -/
def consume (b : IdealBucket rate) (need : ℚ≥0) : BucketReply × IdealBucket rate :=
  if h : (need : ℚ) ≤ b.level then
    (⟨true, ⌊b.level - need⌋, none⟩,
      { level := b.level - need
        nonneg := sub_nonneg.mpr h
        le_rate := (sub_le_self _ need.cast_nonneg).trans b.le_rate })
  else (⟨false, ⌊b.level⌋, some ⌈(need - b.level) / (rate / 1000)⌉⟩, b)

end IdealBucket

structure IdealLine (rate : Nat) where
  bucket : IdealBucket rate
  replies : List BucketReply

namespace IdealLine

variable {rate : Nat}

def start : IdealLine rate := ⟨.full, []⟩

def exec (i : IdealLine rate) : LoneMove → IdealLine rate
  | .wait ms => { i with bucket := i.bucket.fill ms }
  | .consume need => ⟨(i.bucket.consume need).2, (i.bucket.consume need).1 :: i.replies⟩
  | .evict => i

end IdealLine

/-- What a call would find in the store is what the ideal bucket holds. -/
structure LoneAgrees {rate : Nat} (s : LoneBucket) (i : IdealLine rate) : Prop where
  replies : s.replies = i.replies
  level : bucketTokens .exact rate s.entry s.clock = i.bucket.level
  stored : ∀ b, s.entry = some b → b.lastMs ≤ s.clock ∧ 0 ≤ b.tokens ∧ b.tokens ≤ rate

section Steps

variable {rate : Nat} {s s' : LoneBucket} {i : IdealLine rate}

theorem bucketTokens_wait (rate : Nat) {e : Option BucketState} {now : Nat} (ms : Nat)
    (h : ∀ b, e = some b → b.lastMs ≤ now) : bucketTokens .exact rate e (now + ms) =
      min (rate : ℚ) (bucketTokens .exact rate e now + rate / 1000 * ms) := by
  have hstep : (0 : ℚ) ≤ rate / 1000 := by positivity
  cases e with
  | none =>
    have hp : (0 : ℚ) ≤ rate / 1000 * ms := by positivity
    rw [bucketTokens_none, bucketTokens_none, Rounding.exact_apply,
      min_eq_left (le_add_of_nonneg_right hp)]
  | some b =>
    have hb := h b rfl
    have hnow : (now : ℚ) ≤ (now + ms : Nat) := by exact_mod_cast Nat.le_add_right now ms
    have hms : ((now + ms : Nat) : ℚ) - now = ms := by push_cast; ring
    rw [bucketTokens_some rate hb, bucketTokens_some rate (Nat.le_add_right_of_le hb),
      ← Meter.refilled_refilled hstep hnow]
    conv_lhs => rw [Meter.refilled, hms]

theorem bucketTokens_written {tokens : ℚ} (now : Nat) (h : tokens ≤ rate) :
    bucketTokens .exact rate (some ⟨tokens, now⟩) now = tokens := by
  rw [bucketTokens_some rate le_rfl]
  exact Meter.refilled_self h

theorem bucketTokens_idle {b : BucketState} {now : Nat} (hb : 0 ≤ b.tokens)
    (h : b.lastMs + 120000 ≤ now) : bucketTokens .exact rate (some b) now = rate := by
  have hrate : (0 : ℚ) ≤ rate := Nat.cast_nonneg _
  have hlong : (b.lastMs : ℚ) + 120000 ≤ now := by exact_mod_cast h
  rw [bucketTokens_some rate (by omega)]
  exact Meter.refilled_eq_cap hb (by nlinarith)

theorem tokenBucketConsume_ideal {e : Option BucketState} {now : Nat} {b : IdealBucket rate}
    (h : bucketTokens .exact rate e now = b.level) (need : ℚ≥0) : tokenBucketConsume .exact rate e now need =
      ((b.consume need).1, ⟨(b.consume need).2.level, now⟩) := by
  simp only [tokenBucketConsume, refillMs, Rounding.exact_apply, IdealBucket.consume, h]
  by_cases hn : (need : ℚ) ≤ b.level
  · rw [if_neg (not_lt.mpr hn), dif_pos hn]
  · have hretry : ((need : ℚ) - b.level) / rate * 1000 = (need - b.level) / (rate / 1000) := by
      rw [div_div_eq_mul_div, div_mul_eq_mul_div]
    rw [if_pos (not_le.mp hn), dif_neg hn, hretry]

theorem LoneAgrees.step (h : LoneAgrees s i) {m : LoneMove} (hs : LoneStep rate s m s') :
    LoneAgrees s' (i.exec m) := by
  cases hs with
  | wait ms =>
    refine ⟨h.replies, ?_, fun b hb => ?_⟩
    · have hwait := bucketTokens_wait rate ms fun b hb => (h.stored b hb).1
      rw [h.level] at hwait
      simpa [LoneBucket.exec, IdealLine.exec, IdealBucket.fill] using hwait
    · obtain ⟨hl, hrest⟩ := h.stored b hb
      exact ⟨Nat.le_add_right_of_le hl, hrest⟩
  | consume need =>
    have hout := tokenBucketConsume_ideal h.level need
    have hle := (i.bucket.consume need).2.le_rate
    refine ⟨?_, ?_, fun b hb => ?_⟩
    · simp only [LoneBucket.exec, IdealLine.exec, hout, h.replies]
    · simp only [LoneBucket.exec, IdealLine.exec, hout]
      exact bucketTokens_written s.clock hle
    · simp only [LoneBucket.exec, hout, Option.some.injEq] at hb
      subst hb
      exact ⟨le_rfl, (i.bucket.consume need).2.nonneg, hle⟩
  | evict hidle =>
    refine ⟨h.replies, ?_, fun b hb => by cases hb⟩
    have hlevel := h.level
    cases he : s.entry with
    | none => rwa [he] at hlevel
    | some b =>
      rw [he, bucketTokens_idle (h.stored b he).2.1 (hidle b he)] at hlevel
      simpa [LoneBucket.exec, IdealLine.exec, bucketTokens_none] using hlevel

theorem LoneAgrees.start (rate clock : Nat) :
    LoneAgrees (.start clock) (.start : IdealLine rate) where
  replies := rfl
  level := bucketTokens_none .exact rate clock
  stored b hb := by cases hb

theorem LoneAgrees.of_run {clock : Nat} {tr : List (LoneBucket × LoneMove)}
    (hrun : Run (LoneStep rate) (.start clock) tr s) :
    LoneAgrees s ((tr.map Prod.snd).foldl IdealLine.exec (.start : IdealLine rate)) := by
  induction hrun with
  | nil => exact .start rate clock
  | snoc _ hs ih =>
    rw [List.map_append, List.foldl_append]
    exact ih.step hs

end Steps

/-- Forgetting an idle bucket changes no reply, and the stored tokens stay within the capacity. -/
theorem forgetting_harmless {rate clock : Nat} {tr : List (LoneBucket × LoneMove)} {s : LoneBucket}
    (hrun : Run (LoneStep rate) (.start clock) tr s) :
    s.replies = ((tr.map Prod.snd).foldl IdealLine.exec (.start : IdealLine rate)).replies ∧
      ∀ b, s.entry = some b → 0 ≤ b.tokens ∧ b.tokens ≤ rate :=
  ⟨(LoneAgrees.of_run hrun).replies, fun b hb => ((LoneAgrees.of_run hrun).stored b hb).2⟩

theorem demo_forgotten : ∃ s : LoneBucket,
    s.replies = [⟨true, 0, none⟩, ⟨false, 1, some 250⟩, ⟨true, 1, none⟩] ∧
      s.replies = (([.consume 3, .consume 2, .wait 120000, .evict, .consume 4] : List LoneMove).foldl
        IdealLine.exec (.start : IdealLine 4)).replies := by
  have hfirst : Run (LoneStep 4) (.start 0) _ _ := .single (.consume 3)
  have hwait := (hfirst.snoc (.consume 2)).snoc (.wait 120000)
  have hrun := (hwait.snoc (.evict (by
    intro b hb
    obtain rfl := Option.some.inj hb
    decide +kernel))).snoc (.consume 4)
  exact ⟨_, by decide +kernel, (forgetting_harmless hrun).1⟩

end CrowdTic
