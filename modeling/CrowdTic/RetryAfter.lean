import CrowdTic.RoomRuns

/-! What a refused admission is told: the time after which the bucket has made
up for the missing tokens, if it can hold that many and the rounding of its
numbers loses none of them. -/

namespace CrowdTic

open Ranked

def Admission.TakesSome (a : Admission) : Prop :=
  a.popped ≠ [] ∧ ∃ mark remaining, a.reply = .admitted mark remaining a.popped

section Refill

variable {fl : Rounding} {rate now later : Nat} {need tokens : ℚ}

/-- The missing tokens are back after the milliseconds that they take, unless the key of the bucket
is gone by then. -/
def Repaid (fl : Rounding) (rate : Nat) (tokens need : ℚ) : Prop :=
  let ms := refillMs fl rate (fl (need - tokens))
  120000 < ms ∨ need ≤ fl (tokens + refill fl rate ms.toNat)

instance : Decidable (Repaid fl rate tokens need) := inferInstanceAs (Decidable (_ ∨ _))

/-- 29 tokens at a rate of 100 take 290 ms, and 290 ms bring 28.999999999999996. -/
example : ¬ Repaid .double 100 0 29 := by decide +kernel

theorem repaid_exact (hrate : 0 < rate) : Repaid .exact rate tokens need := by
  have hr : (0 : ℚ) < rate := by exact_mod_cast hrate
  have hceil : (need - tokens) / rate * 1000 ≤ (⌈(need - tokens) / rate * 1000⌉ : Int) := Int.le_ceil _
  have hnat : ((⌈(need - tokens) / rate * 1000⌉ : Int) : ℚ) ≤ (⌈(need - tokens) / rate * 1000⌉.toNat : Nat) := by
    exact_mod_cast Int.self_le_toNat _
  have hdeficit : (need - tokens) / rate * 1000 / 1000 * rate = need - tokens := by field_simp
  have hmul : (need - tokens) / rate * 1000 / 1000 * rate ≤
      (⌈(need - tokens) / rate * 1000⌉.toNat : Nat) / 1000 * rate := by
    gcongr
    exact hceil.trans hnat
  refine .inr ?_
  simp only [refill, refillMs, Rounding.exact_apply]
  linarith

theorem refill_mono (fl : Rounding) (rate : Nat) : Monotone (refill fl rate) := by
  intro a b h
  have hcast : fl a ≤ fl b := fl.mono (by exact_mod_cast h)
  have hdiv : fl (fl a / 1000) ≤ fl (fl b / 1000) := fl.mono (by linarith)
  exact fl.mono (mul_le_mul_of_nonneg_right hdiv (fl.map_nonneg (Nat.cast_nonneg rate)))

theorem live_written (b : BucketState) (d : Nat) :
    Expiring.live (some ⟨b, some d⟩) now = if now ≤ d then some b else none := by
  by_cases h : now ≤ d <;> simp [Expiring.live, Option.filter, h]

theorem bucketTokens_le (e : Option BucketState) : bucketTokens fl rate e now ≤ fl rate :=
  min_le_left _ _

/-- What a refused call has written is enough from the announced time on. -/
theorem need_le_written_iff : (∀ later : Nat, (now : Int) + refillMs fl rate (fl (need - tokens)) ≤ later →
      need ≤ bucketTokens fl rate (Expiring.live (some ⟨⟨tokens, now⟩, some (now + 120000)⟩) later) later) ↔
    need ≤ fl rate ∧ Repaid fl rate tokens need := by
  unfold Repaid
  dsimp only
  generalize refillMs fl rate (fl (need - tokens)) = d
  have hself := Int.self_le_toNat d
  constructor
  · intro h
    have hend := h (now + d.toNat) (by omega)
    refine ⟨hend.trans (bucketTokens_le _), ?_⟩
    by_cases hlong : 120000 < d
    · exact .inl hlong
    · rw [live_written, if_pos (by omega)] at hend
      have hms : now + d.toNat - now = d.toNat := by omega
      have hrest := hend.trans (min_le_right _ _)
      dsimp only [Option.getD_some] at hrest
      rw [hms] at hrest
      exact .inr hrest
  · rintro ⟨hcap, hpaid⟩ later hlater
    rw [live_written]
    by_cases hlive : later ≤ now + 120000
    · rw [if_pos hlive]
      have hback := hpaid.resolve_left (by omega)
      have hms : d.toNat ≤ later - now := by omega
      have hrefill := refill_mono fl rate hms
      exact le_min hcap (hback.trans (fl.mono (add_le_add_right hrefill tokens)))
    · rw [if_neg hlive, bucketTokens_none]
      exact hcap

end Refill

section Admit

variable {cfg : RoomConfig} {r : Room} {now : Nat} {q : AdmitRequest}

theorem handleAdmit_active (ha : q.authorized cfg = true) (hr : r.active ≠ []) :
    r.handleAdmit cfg now q =
      let want := q.batch.want r.active.length
      let out := tokenBucketConsume cfg.fl cfg.rate (Expiring.live r.bucket now) now want
      let r := { r with bucket := some ⟨out.2, some (now + 120000)⟩ }
      if out.1.allowed = false then
        ⟨.rateLimited out.1.retryAfterMs out.1.remaining r.active.length, r, []⟩
      else r.popFront cfg now want out.1.remaining := by
  have hlen : r.active.length ≠ 0 := fun he => hr (List.length_eq_zero_iff.mp he)
  rw [Room.handleAdmit, if_neg (by simp [ha]), maybeShufflePool_idle now q.draws (.inr hr)]
  simp only [if_neg hlen]

theorem handleAdmit_refused (ha : q.authorized cfg = true) (hr : r.active ≠ [])
    (hb : q.refused cfg r now) :
    let tokens := bucketTokens cfg.fl cfg.rate (Expiring.live r.bucket now) now
    let deficit := cfg.fl (q.batch.want r.active.length - tokens)
    r.handleAdmit cfg now q =
      ⟨.rateLimited (some (refillMs cfg.fl cfg.rate deficit)) ⌊tokens⌋ r.active.length,
        { r with bucket := some ⟨⟨tokens, now⟩, some (now + 120000)⟩ }, []⟩ := by
  have hlt : bucketTokens cfg.fl cfg.rate (Expiring.live r.bucket now) now <
      q.batch.want r.active.length := hb
  rw [handleAdmit_active ha hr]
  simp [tokenBucketConsume, hlt]

theorem length_front (b : Backend) (l : List Entry) : (b.front l).length = l.length := by
  cases b with
  | redis => rfl
  | kv => exact List.length_insertionSort _ l

theorem takesSome_popFront (hjwt : cfg.jwtSecret ≠ "") (hr : r.active ≠ []) {want : ℚ}
    (hw : 1 ≤ want) (remaining : Int) : (r.popFront cfg now want remaining).TakesSome := by
  have hk := popCount_pos cfg.backend hw
  have hlen := List.length_pos_iff.mpr hr
  have hne : (r.popFront cfg now want remaining).popped ≠ [] := by
    apply List.ne_nil_of_length_pos
    simp only [Room.popFront, members, List.length_map, List.length_take, length_front]
    omega
  have hreply : (r.popFront cfg now want remaining).reply = .admitted
      (r.watermark now + (r.popFront cfg now want remaining).popped.length) remaining
      (r.popFront cfg now want remaining).popped := by
    simp only [Room.popFront, hjwt, false_and, if_false]
  exact ⟨hne, _, _, hreply⟩

theorem handleAdmit_takesSome (hjwt : cfg.jwtSecret ≠ "") (ha : q.authorized cfg = true)
    (hr : r.active ≠ []) (hb : ¬ q.refused cfg r now) : (r.handleAdmit cfg now q).TakesSome := by
  have hlen : r.active.length ≠ 0 := fun he => hr (List.length_eq_zero_iff.mp he)
  have hallowed := tokenBucketConsume_allowed cfg.fl cfg.rate now (Expiring.live r.bucket now)
    (q.batch.want r.active.length)
  rw [handleAdmit_active ha hr]
  simp only [if_neg fun he => hb (hallowed.mp he)]
  have hactive : ∀ bucket, ({ r with bucket } : Room).active ≠ [] := fun _ => hr
  exact takesSome_popFront hjwt (hactive _) (one_le_want q.batch hlen) _

theorem takesSome_iff (hjwt : cfg.jwtSecret ≠ "") (ha : q.authorized cfg = true) (hr : r.active ≠ []) :
    (r.handleAdmit cfg now q).TakesSome ↔ q.batch.want r.active.length ≤
      bucketTokens cfg.fl cfg.rate (Expiring.live r.bucket now) now := by
  constructor
  · rintro ⟨hpopped, -⟩
    by_contra hb
    exact hpopped (congrArg Admission.popped (handleAdmit_refused ha hr (not_le.mp hb)))
  · intro hle
    exact handleAdmit_takesSome hjwt ha hr (not_lt.mpr hle)

end Admit

section Demo

def demoSlowRoom (rate : Nat) : RoomConfig := { demoRoom .redis with rate, fl := .double }

def demoUsers : List Entry := [⟨"alice-01", 1000⟩, ⟨"bobby-01", 1001⟩, ⟨"carol-01", 1002⟩]

def demoQueue (n : Nat) (bucket : Option (Expiring BucketState)) : Room :=
  ⟨[], demoUsers.take n, none, bucket⟩

theorem demoQueue_ordered (b : Backend) (n : Nat) (bucket : Option (Expiring BucketState)) :
    (demoQueue n bucket).Ordered b where
  active := by
    have hall : demoUsers.Pairwise b.order := by
      cases b with
      | redis =>
        have hlex : demoUsers.Pairwise LexLE := by decide +kernel
        exact hlex
      | kv =>
        have hscore : demoUsers.Pairwise ScoreLE := by decide +kernel
        exact hscore
    exact hall.sublist (List.take_sublist n demoUsers)
  pool := .nil
  activeOnce := by
    have hall : (members demoUsers).Nodup := by decide
    exact hall.sublist ((List.take_sublist n demoUsers).map Ranked.member)
  poolOnce := .nil

end Demo

end CrowdTic
