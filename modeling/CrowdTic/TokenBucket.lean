import CrowdTic.Doubles
import CrowdTic.ExpiringMap
import CrowdTic.Meter
import CrowdTic.Runs

/-! The admission bucket of an event (`tokenBucketConsume` of the waiting
room), and calls of it side by side, each reading the key in one step and
writing it in another. -/

namespace CrowdTic

structure BucketState where
  tokens : ℚ
  lastMs : Nat
  deriving DecidableEq

structure BucketReply where
  allowed : Bool
  remaining : Int
  retryAfterMs : Option Int
  deriving DecidableEq

/-- What the bucket gains in some milliseconds. The rate has been read by `parseInt`. -/
def refill (fl : Rounding) (rate elapsedMs : Nat) : ℚ := fl (fl (fl elapsedMs / 1000) * fl rate)

/-- The milliseconds in which the bucket gains some tokens, rounded up. -/
def refillMs (fl : Rounding) (rate : Nat) (tokens : ℚ) : Int := ⌈fl (fl (tokens / fl rate) * 1000)⌉

/-- The bucket at `now`. A missing one is full. -/
def bucketTokens (fl : Rounding) (rate : Nat) (state : Option BucketState) (now : Nat) : ℚ :=
  let capacity := fl rate
  let state := state.getD ⟨capacity, now⟩
  min capacity (fl (state.tokens + refill fl rate (now - state.lastMs)))

/-- The reply, and the state that is written back with a time to live of 120 s. -/
def tokenBucketConsume (fl : Rounding) (rate : Nat) (state : Option BucketState) (now : Nat) (need : ℚ) :
    BucketReply × BucketState :=
  let tokens := bucketTokens fl rate state now
  if tokens < need then
    let deficit := fl (need - tokens)
    (⟨false, ⌊tokens⌋, some (refillMs fl rate deficit)⟩, ⟨tokens, now⟩)
  else
    let left := fl (tokens - need)
    (⟨true, ⌊left⌋, none⟩, ⟨left, now⟩)

def Expiring.live {α : Type} (e : Option (Expiring α)) (now : Nat) : Option α :=
  (e.filter fun x => x.deadline.all (now ≤ ·)).map Expiring.value

/-- A call has read the clock, and later the key: `read` is `none` until then. -/
structure BucketCall where
  need : ℚ
  now : Nat
  read : Option (Option BucketState)

structure BucketSys where
  clock : Nat
  entry : Option (Expiring BucketState)
  calls : Nat → Option BucketCall
  /-- The clock reading and the need of every call that was allowed. -/
  grants : List (Nat × ℚ)

inductive BucketMove
  | tick (ms : Nat)
  | now (i : Nat) (need : ℚ)
  | get (i : Nat) (answered : Bool)
  | set (i : Nat)

namespace BucketSys

def start (clock : Nat) : BucketSys := ⟨clock, none, fun _ => none, []⟩

def setCall (s : BucketSys) (i : Nat) (c : Option BucketCall) : BucketSys :=
  { s with calls := fun j => if j = i then c else s.calls j }

/-- A `GET` that fails stands for a missing key. -/
def fetch (s : BucketSys) (i : Nat) (c : BucketCall) (answered : Bool) : BucketSys :=
  s.setCall i (some { c with read := some (if answered then Expiring.live s.entry s.clock else none) })

def store (fl : Rounding) (rate : Nat) (s : BucketSys) (i : Nat) (c : BucketCall)
    (state : Option BucketState) : BucketSys :=
  let out := tokenBucketConsume fl rate state c.now c.need
  { s.setCall i none with
    entry := some ⟨out.2, some (s.clock + 120000)⟩
    grants := if out.1.allowed then (c.now, c.need) :: s.grants else s.grants }

end BucketSys

inductive BucketStep (fl : Rounding) (rate : Nat) : BucketSys → BucketMove → BucketSys → Prop
  | tick (s : BucketSys) (ms : Nat) : BucketStep fl rate s (.tick ms) { s with clock := s.clock + ms }
  | now (s : BucketSys) (i : Nat) (need : ℚ) (h : s.calls i = none) :
      BucketStep fl rate s (.now i need) (s.setCall i (some ⟨need, s.clock, none⟩))
  | get (s : BucketSys) (i : Nat) (answered : Bool) (c : BucketCall) (h : s.calls i = some c)
      (hread : c.read = none) : BucketStep fl rate s (.get i answered) (s.fetch i c answered)
  | set (s : BucketSys) (i : Nat) (c : BucketCall) (state : Option BucketState)
      (h : s.calls i = some c) (hread : c.read = some state) :
      BucketStep fl rate s (.set i) (s.store fl rate i c state)

section Tokens

variable (fl : Rounding) (rate now : Nat)

@[simp] theorem refill_zero : refill fl rate 0 = 0 := by
  simp [refill, fl.map_zero]

theorem refill_nonneg (ms : Nat) : 0 ≤ refill fl rate ms := by
  have hrate : 0 ≤ fl rate := fl.map_nonneg (Nat.cast_nonneg rate)
  have hms : 0 ≤ fl (fl ms / 1000) := fl.map_nonneg (div_nonneg (fl.map_nonneg (Nat.cast_nonneg ms)) (by norm_num))
  exact fl.map_nonneg (mul_nonneg hms hrate)

theorem bucketTokens_none : bucketTokens fl rate none now = fl rate := by
  simp [bucketTokens, fl.idem]

theorem bucketTokens_nonneg {b : BucketState} (hb : 0 ≤ b.tokens) :
    0 ≤ bucketTokens fl rate (some b) now :=
  le_min (fl.map_nonneg (Nat.cast_nonneg rate))
    (fl.map_nonneg (add_nonneg hb (refill_nonneg fl rate _)))

theorem tokenBucketConsume_allowed (state : Option BucketState) (need : ℚ) :
    (tokenBucketConsume fl rate state now need).1.allowed = false ↔
      bucketTokens fl rate state now < need := by
  by_cases h : bucketTokens fl rate state now < need <;> simp [tokenBucketConsume, h]

end Tokens

/-- In exact arithmetic a bucket that is there fills up like a meter. -/
theorem bucketTokens_some (rate : Nat) {b : BucketState} {now : Nat} (h : b.lastMs ≤ now) :
    bucketTokens .exact rate (some b) now =
      Meter.refilled (rate : ℚ) (rate / 1000) b.tokens b.lastMs now := by
  have hrefill : refill .exact rate (now - b.lastMs) = rate / 1000 * (now - b.lastMs) := by
    rw [refill, Rounding.exact_apply, Rounding.exact_apply, Rounding.exact_apply, Rounding.exact_apply,
      Nat.cast_sub h]
    ring
  rw [Meter.refilled, ← hrefill]
  rfl

end CrowdTic
