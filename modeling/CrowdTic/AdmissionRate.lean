import CrowdTic.TokenBucket

/-! The admission rate. Calls that write the bucket back as they have read it
grant in no window more than one second's worth above the rate. -/

namespace CrowdTic

/-- The tokens granted from `a` to `a + d`, each grant at the time that its call has read. -/
def grantedIn (grants : List (Nat × ℚ)) (a d : Nat) : ℚ :=
  ((grants.filter fun x => a ≤ x.1 ∧ x.1 ≤ a + d).map Prod.snd).sum

def RateBounded (rate : Nat) (s : BucketSys) : Prop :=
  ∀ a d, grantedIn s.grants a d ≤ rate + rate * d / 1000

/-- The key holds, at the clock reading of the call, what its `GET` has returned, and no call with a
later reading has written it. -/
structure BucketCall.Current (c : BucketCall) (s : BucketSys) (state : Option BucketState) : Prop where
  lives : Expiring.live s.entry c.now = state
  earlier : ∀ b, state = some b → b.lastMs ≤ c.now

/-- The call does not work with more tokens than in exact arithmetic, and keeps no more. -/
structure BucketCall.RoundsDown (fl : Rounding) (rate : Nat) (c : BucketCall)
    (state : Option BucketState) : Prop where
  tokens : bucketTokens fl rate state c.now ≤ bucketTokens .exact rate state c.now
  left : c.need ≤ bucketTokens fl rate state c.now →
    fl (bucketTokens fl rate state c.now - c.need) ≤ bucketTokens fl rate state c.now - c.need

def SetsAsRead (fl : Rounding) (rate : Nat) (s : BucketSys) : BucketMove → Prop
  | .set i => ∀ c state, s.calls i = some c → c.read = some state →
      c.Current s state ∧ c.RoundsDown fl rate state
  | _ => True

theorem setsAsRead_set {fl : Rounding} {rate i : Nat} {s : BucketSys} {c : BucketCall}
    {state : Option BucketState} (h : s.calls i = some c) (hread : c.read = some state)
    (hc : c.Current s state) (hfl : c.RoundsDown fl rate state) : SetsAsRead fl rate s (.set i) := by
  intro c' state' h' hread'
  obtain rfl := Option.some.inj (h.symm.trans h')
  obtain rfl := Option.some.inj (hread.symm.trans hread')
  exact ⟨hc, hfl⟩

theorem roundsDown_exact (rate : Nat) (c : BucketCall) (state : Option BucketState) :
    c.RoundsDown .exact rate state :=
  ⟨le_rfl, fun _ => le_rfl⟩

def BucketSys.spent (s : BucketSys) : List (ℚ × ℚ) := s.grants.map fun x => ((x.1 : ℚ), x.2)

/-- The last state written accounts for all grants, and lives for two minutes. -/
structure Metered (rate : Nat) (s : BucketSys) : Prop where
  untouched : s.entry = none → s.grants = []
  written : ∀ e, s.entry = some e → e.value.lastMs ≤ s.clock ∧
    (∃ d, e.deadline = some d ∧ e.value.lastMs + 120000 ≤ d) ∧
      Meter.Within (rate : ℚ) (rate / 1000) s.spent e.value.tokens e.value.lastMs
  calls : ∀ i c, s.calls i = some c → c.now ≤ s.clock

theorem grantedIn_eq (s : BucketSys) (a d : Nat) : grantedIn s.grants a d =
    Meter.taken s.spent (fun t => (a : ℚ) ≤ t ∧ t ≤ a + d) := by
  have hiff (x : Nat × ℚ) : (a ≤ x.1 ∧ x.1 ≤ a + d) ↔ ((a : ℚ) ≤ x.1 ∧ (x.1 : ℚ) ≤ a + d) := by
    norm_cast
  simp [grantedIn, Meter.taken, BucketSys.spent, List.filter_map, Function.comp_def, hiff]

theorem Metered.rateBounded {rate : Nat} {s : BucketSys} (h : Metered rate s) :
    RateBounded rate s := by
  intro a d
  have hrate : (0 : ℚ) ≤ rate := Nat.cast_nonneg _
  have hd : (0 : ℚ) ≤ d := Nat.cast_nonneg _
  rw [grantedIn_eq]
  cases he : s.entry with
  | none =>
    have hnone : s.spent = [] := by simp [BucketSys.spent, h.untouched he]
    have hfull : Meter.Within (rate : ℚ) (rate / 1000) [] rate 0 := .full hrate (by positivity)
    have hw := hfull.window a d hd
    rw [hnone]
    linarith
  | some e =>
    have hw := (h.written e he).2.2.window a d hd
    linarith

theorem live_eq_some {e : Option (Expiring BucketState)} {now : Nat} {b : BucketState}
    (h : Expiring.live e now = some b) : ∃ x, e = some x ∧ x.value = b := by
  obtain ⟨x, hx, hb⟩ := Option.map_eq_some_iff.mp h
  exact ⟨x, (Option.filter_eq_some_iff.mp hx).1, hb⟩

theorem live_eq_none {e : Expiring BucketState} {now d : Nat} (hd : e.deadline = some d)
    (h : Expiring.live (some e) now = none) : d < now := by
  have hf := Option.map_eq_none_iff.mp h
  by_contra hle
  simp [hd, Nat.le_of_not_lt hle] at hf

section Steps

variable {fl : Rounding} {rate : Nat} {s : BucketSys} {c : BucketCall} {state : Option BucketState}

/-- What the key holds accounts for all grants, in exact arithmetic: a bucket that has expired would
be full by now. -/
theorem Metered.within_exact (h : Metered rate s) (hc : c.Current s state) : Meter.Within (rate : ℚ)
    (rate / 1000) s.spent (bucketTokens .exact rate state c.now) c.now := by
  have hrate : (0 : ℚ) ≤ rate := Nat.cast_nonneg _
  have hstep : (0 : ℚ) ≤ rate / 1000 := by positivity
  cases hr : state with
  | some b =>
    obtain ⟨x, hx, hxb⟩ := live_eq_some (hc.lives.trans hr)
    obtain ⟨_, _, hw⟩ := h.written x hx
    have hb := hc.earlier b hr
    subst hxb
    rw [bucketTokens_some rate hb]
    exact hw.wait hrate hstep (by exact_mod_cast hb)
  | none =>
    rw [bucketTokens_none, Rounding.exact_apply]
    cases he : s.entry with
    | none =>
      have hnone : s.spent = [] := by simp [BucketSys.spent, h.untouched he]
      rw [hnone]
      exact .full hrate hstep
    | some x =>
      obtain ⟨_, ⟨d, hd, hlong⟩, hw⟩ := h.written x he
      have hgone := live_eq_none hd (he ▸ hc.lives.trans hr)
      have hlater : (x.value.lastMs : ℚ) + 120000 ≤ c.now := by
        have hl : x.value.lastMs + 120000 ≤ c.now := by omega
        exact_mod_cast hl
      have hfull : Meter.refilled (rate : ℚ) (rate / 1000) x.value.tokens x.value.lastMs c.now =
          rate := Meter.refilled_eq_cap hw.nonneg (by nlinarith)
      have hlast : (x.value.lastMs : ℚ) ≤ c.now := by linarith
      have hfill := hw.wait hrate hstep hlast
      rwa [hfull] at hfill

theorem Metered.tokens_nonneg (h : Metered rate s) (hc : c.Current s state) :
    0 ≤ bucketTokens fl rate state c.now := by
  cases hr : state with
  | none =>
    rw [bucketTokens_none]
    exact fl.map_nonneg (Nat.cast_nonneg rate)
  | some b =>
    obtain ⟨x, hx, rfl⟩ := live_eq_some (hc.lives.trans hr)
    exact bucketTokens_nonneg fl rate c.now (h.written x hx).2.2.nonneg

theorem Metered.within_tokens (h : Metered rate s) (hc : c.Current s state)
    (hfl : c.RoundsDown fl rate state) : Meter.Within (rate : ℚ) (rate / 1000) s.spent
      (bucketTokens fl rate state c.now) c.now :=
  (h.within_exact hc).lower (h.tokens_nonneg hc) hfl.tokens

theorem Metered.stored (h : Metered rate s) {i : Nat} (hcall : s.calls i = some c)
    (hc : c.Current s state) (hfl : c.RoundsDown fl rate state) :
    Metered rate (s.store fl rate i c state) := by
  have hw := h.within_tokens hc hfl
  have hnow := h.calls i c hcall
  have hcap : bucketTokens fl rate state c.now ≤ rate :=
    hfl.tokens.trans (min_le_left (rate : ℚ) _)
  refine ⟨by simp [BucketSys.store], ?_, ?_⟩
  · intro e he
    obtain rfl := Option.some.inj he
    unfold tokenBucketConsume
    by_cases hneed : bucketTokens fl rate state c.now < c.need
    · have hdenied : (s.store fl rate i c state).spent = s.spent := by
        simp [BucketSys.store, BucketSys.setCall, BucketSys.spent, tokenBucketConsume, hneed]
      rw [hdenied, if_pos hneed]
      exact ⟨hnow, ⟨_, rfl, Nat.add_le_add_right hnow _⟩, hw⟩
    · have hgranted : (s.store fl rate i c state).spent = ((c.now : ℚ), c.need) :: s.spent := by
        simp [BucketSys.store, BucketSys.setCall, BucketSys.spent, tokenBucketConsume, hneed]
      have hle := not_lt.mp hneed
      have htake := hw.take (Nat.cast_nonneg _) (by positivity) hcap hle
      rw [hgranted, if_neg hneed]
      exact ⟨hnow, ⟨_, rfl, Nat.add_le_add_right hnow _⟩,
        htake.lower (fl.map_nonneg (sub_nonneg.mpr hle)) (hfl.left hle)⟩
  · intro j c' hc'
    by_cases hj : j = i
    · simp [BucketSys.store, BucketSys.setCall, hj] at hc'
    · exact h.calls j c' (by simpa [BucketSys.store, BucketSys.setCall, hj] using hc')

theorem Metered.setCall (h : Metered rate s) (i : Nat) (hc : c.now ≤ s.clock) :
    Metered rate (s.setCall i (some c)) := by
  refine ⟨h.untouched, h.written, ?_⟩
  intro j c' hc'
  by_cases hj : j = i
  · obtain rfl : c = c' := by simpa [BucketSys.setCall, hj] using hc'
    exact hc
  · exact h.calls j c' (by simpa [BucketSys.setCall, hj] using hc')

theorem Metered.step {s' : BucketSys} {m : BucketMove} (h : Metered rate s)
    (hset : SetsAsRead fl rate s m) (hs : BucketStep fl rate s m s') : Metered rate s' := by
  cases hs with
  | tick ms =>
    refine ⟨h.untouched, fun e he => ?_, fun i c hc => Nat.le_add_right_of_le (h.calls i c hc)⟩
    obtain ⟨hl, hrest⟩ := h.written e he
    exact ⟨Nat.le_add_right_of_le hl, hrest⟩
  | now i need _ => exact h.setCall i le_rfl
  | get i answered c hc _ => exact h.setCall i (h.calls i c hc)
  | set i c state hc hread =>
    obtain ⟨hcurrent, hfl⟩ := hset c state hc hread
    exact h.stored hc hcurrent hfl

theorem Metered.start (rate clock : Nat) : Metered rate (.start clock) where
  untouched _ := rfl
  written e he := by simp [BucketSys.start] at he
  calls i c hc := by simp [BucketSys.start] at hc

end Steps

/-- In a run in which every call writes back to what it has read, the grants of any window of `d`
milliseconds stay within the burst and the rate. -/
theorem rate_bounded_of_run {fl : Rounding} {rate clock : Nat}
    {tr : List (BucketSys × BucketMove)} {s : BucketSys}
    (hrun : Run (BucketStep fl rate) (.start clock) tr s)
    (hset : ∀ p ∈ tr, SetsAsRead fl rate p.1 p.2) : RateBounded rate s :=
  (hrun.invariant (Metered rate) (SetsAsRead fl rate) (fun _ _ _ h hg hs => h.step hg hs)
    (.start rate clock) hset).rateBounded

section Demo

/-- Two calls at one instant, both with their `GET` before their `SET`. -/
theorem burst_granted_twice : ¬ ∀ (rate clock : Nat) (_ : 1 ≤ rate)
    (tr : List (BucketSys × BucketMove)) (s : BucketSys),
    Run (BucketStep .double rate) (.start clock) tr s → RateBounded rate s := by
  intro h
  have hfirst : Run (BucketStep .double 1) (.start 0) _ _ := .single (.now _ 0 1 rfl)
  have hread := ((hfirst.snoc (.now _ 1 1 rfl)).snoc (.get _ 0 true _ rfl rfl)).snoc
    (.get _ 1 true _ rfl rfl)
  have hrun := (hread.snoc (.set _ 0 _ _ rfl rfl)).snoc (.set _ 1 _ _ rfl rfl)
  have hh := h 1 0 le_rfl _ _ hrun 0 0
  exact absurd hh (by decide +kernel)

theorem rate_bounded_after_refill : ∃ s : BucketSys,
    s.grants = [(500, 1), (0, 2)] ∧ RateBounded 2 s := by
  have hfirst : Run (BucketStep .double 2) (.start 0) _ _ := .single (.now _ 0 2 rfl)
  have hfull := (hfirst.snoc (.get _ 0 true _ rfl rfl)).snoc (.set _ 0 _ _ rfl rfl)
  have hwait := (hfull.snoc (.tick _ 500)).snoc (.now _ 0 1 rfl)
  have hrun := (hwait.snoc (.get _ 0 true _ rfl rfl)).snoc (.set _ 0 _ _ rfl rfl)
  refine ⟨_, by decide +kernel, rate_bounded_of_run hrun ?_⟩
  simp only [List.forall_mem_append, List.forall_mem_singleton]
  refine ⟨⟨⟨⟨⟨⟨trivial, trivial⟩, ?_⟩, trivial⟩, trivial⟩, trivial⟩, ?_⟩
  · exact setsAsRead_set rfl rfl ⟨rfl, nofun⟩ ⟨by decide +kernel, fun _ => by decide +kernel⟩
  · refine setsAsRead_set rfl rfl ⟨rfl, ?_⟩ ⟨by decide +kernel, fun _ => by decide +kernel⟩
    intro b hb
    obtain rfl := Option.some.inj hb
    decide +kernel

end Demo

end CrowdTic
