import CrowdTic.ScriptErrors

/-! Holds as atomic and exclusive steps: a hold takes every seat that it lists,
and nothing else, or it changes nothing, unless one of its writes fails. -/

namespace CrowdTic

open Remote

/-- `redis/lua/hold.lua`, which says in its reply how many seats it has taken. -/
def holdLua (r : Redis) (invKey : String) (seatKeys : List String) (a : HoldArgs) : Reply × Redis :=
  match holdRefusal r invKey seatKeys a with
  | some e => (.err e, r)
  | none => (execHoldWrites invKey seatKeys a).reply
      (.ok "HELD" [("hold_id", a.holdId), ("seats", toString seatKeys.length)]) r

/-- The hold has taken the listed seats, and no other key has changed, value and time to live. -/
structure HoldMade (r : Redis) (inv : String) (ks : List String) (a : HoldArgs) (r' : Redis) : Prop where
  free : ∀ k ∈ ks, (r.seat k).status = some "AVAILABLE"
  taken : ∀ k ∈ ks, r'.seat k = .held a.userId a.holdId
  user : r'.hashes.hget (holdKey a.eventId a.holdId) .userId = some a.userId
  seats : r'.hashes.hget (holdKey a.eventId a.holdId) .seats = some (",".intercalate ks)
  hashes : ∀ j, j ∉ ks → j ≠ inv → j ≠ holdKey a.eventId a.holdId → r'.hashes j = r.hashes j
  counters : ∀ j, j ≠ limitKey a.eventId a.userId → r'.counters j = r.counters j
  strings : r'.strings = r.strings

section Writes

variable (r : Redis) (inv : String) (ks : List String) (a : HoldArgs) {j : String}

theorem holdLua_state : (holdLua r inv ks a).2 = (execHold r inv ks a).2 := by
  rw [holdLua, execHold]
  cases holdRefusal r inv ks a with
  | some e => rfl
  | none =>
    simp only [Script.reply]
    cases execHoldWrites inv ks a r with
    | mk out r' => cases out <;> rfl

theorem hashes_holdSeat {k : String} (hj : j ≠ k) : (holdSeat a r k).hashes j = r.hashes j := by
  simp [holdSeat, Hashes.hset, Hashes.hsetNum, ExpMap.alter, ExpMap.setDeadline, hj]

theorem hashes_holdWrites (hks : j ∉ ks) (hinv : j ≠ inv) (hhold : j ≠ holdKey a.eventId a.holdId) :
    (holdWrites r inv ks a).hashes j = r.hashes j := by
  have hl : (ks.foldl (holdSeat a) r).hashes j = r.hashes j :=
    Keyed.foldl_unlisted (fun s : Redis => s.hashes j)
      (fun s k hk => hashes_holdSeat s a hk.symm) ks r hks
  rw [← hl]
  simp [holdWrites, Hashes.hset, Hashes.hsetNum, Hashes.hincrby, ExpMap.alter, ExpMap.setDeadline, hinv,
    hhold]

theorem counters_holdWrites_other (hj : j ≠ limitKey a.eventId a.userId) :
    (holdWrites r inv ks a).counters j = r.counters j := by
  have hl : (ks.foldl (holdSeat a) r).counters = r.counters :=
    Keyed.foldl_unchanged Redis.counters (g := holdSeat a) (fun _ _ => rfl) ks r
  rw [← hl]
  simp [holdWrites, ExpMap.alter, ExpMap.setDeadline, hj]

theorem holdMade_writes (h : holdRefusal r inv ks a = none) :
    HoldMade r inv ks a (holdWrites r inv ks a) where
  free := by
    obtain ⟨_, _, _, _, hfree⟩ := holdRefusal_eq_none_iff.mp h
    exact hfree
  taken k hk := by rw [seat_holdWrites, if_pos hk]
  user := by simp [holdWrites]
  seats := by simp [holdWrites]
  hashes _ hks hinv hhold := hashes_holdWrites r inv ks a hks hinv hhold
  counters _ hj := counters_holdWrites_other r inv ks a hj
  strings := strings_holdWrites r inv ks a

end Writes

/-- A hold that is all or nothing: an error leaves every key, and without one the hold is made. -/
def HoldAtomic (r : Redis) (inv : String) (ks : List String) (a : HoldArgs) : Prop :=
  (∃ e, execHold r inv ks a = (.err e, r)) ∨
    (execHold r inv ks a).1 = .ok "HELD" [("hold_id", a.holdId)] ∧
      HoldMade r inv ks a (execHold r inv ks a).2

structure HoldCall where
  invKey : String
  seatKeys : List String
  args : HoldArgs

def HoldStep (r : Redis) (c : HoldCall) (r' : Redis) : Prop := r' = (execHold r c.invKey c.seatKeys c.args).2

section Stops

variable {r : Redis} {inv k : String} {ks : List String} {a : HoldArgs}

theorem execHoldSeat_keeps_taken (j : String) : Keeps (fun s : Redis => s.seat j = .held a.userId a.holdId)
    (execHoldSeat a k) := by
  intro s hs
  rw [seat_execHoldSeat, hs, ite_self]

/-- The first seat is taken before anything can fail. -/
theorem seat_execHoldWrites_head :
    (execHoldWrites inv (k :: ks) a r).2.seat k = .held a.userId a.holdId := by
  have hrest : Keeps (fun s : Redis => s.seat k = .held a.userId a.holdId) (ks.forM (execHoldSeat a)) :=
    .forM fun j _ => execHoldSeat_keeps_taken k
  rw [execHoldWrites]
  refine Keeps.after (P := fun s : Redis => s.seat k = .held a.userId a.holdId)
    (fun _ => keeps_execHoldCounts k _) ?_
  rw [forM_cons]
  refine Keeps.after (P := fun s : Redis => s.seat k = .held a.userId a.holdId) (fun _ => hrest) ?_
  rw [seat_execHoldSeat, if_pos rfl]

theorem seat_execHoldWrites_other {j : String} (hj : j ∉ ks) :
    (execHoldWrites inv ks a r).2.seat j = r.seat j := by
  have hseats : Keeps (fun s : Redis => s.seat j = r.seat j) (ks.forM (execHoldSeat a)) := by
    refine .forM fun k hk s hs => ?_
    have hne : j ≠ k := fun he => hj (he ▸ hk)
    rw [seat_execHoldSeat, if_neg hne, hs]
  have hall : Keeps (fun s : Redis => s.seat j = r.seat j) (execHoldWrites inv ks a) :=
    .bind hseats fun _ => keeps_execHoldCounts j _
  exact hall r rfl

theorem not_holdAtomic_stopped (hks : ks ≠ []) (h : holdRefusal r inv ks a = none)
    (hfits : ¬ HoldFits r inv ks a) : ¬ HoldAtomic r inv ks a := by
  obtain ⟨⟨e, herr⟩, hstate⟩ := execHold_stopped h hfits
  obtain ⟨k, ks', rfl⟩ := List.exists_cons_of_ne_nil hks
  have hfree : (r.seat k).status = some "AVAILABLE" := by
    obtain ⟨_, _, _, _, hall⟩ := holdRefusal_eq_none_iff.mp h
    exact hall k List.mem_cons_self
  have htaken : (execHold r inv (k :: ks') a).2.seat k = .held a.userId a.holdId := by
    rw [hstate, seat_execHoldWrites_head]
  rw [HoldAtomic, not_or]
  constructor
  · rintro ⟨e', he⟩
    rw [he] at htaken
    rw [htaken] at hfree
    exact absurd hfree (by simp [Seat.held])
  · rintro ⟨hok, -⟩
    rw [herr] at hok
    cases hok

theorem holdAtomic_iff (hks : ks ≠ []) :
    HoldAtomic r inv ks a ↔ holdRefusal r inv ks a ≠ none ∨ HoldFits r inv ks a := by
  cases h : holdRefusal r inv ks a with
  | some e => exact iff_of_true (.inl ⟨e, execHold_refused h⟩) (.inl nofun)
  | none =>
    rw [or_iff_right (not_not.mpr rfl)]
    constructor
    · intro hatomic
      by_contra hfits
      exact not_holdAtomic_stopped hks h hfits hatomic
    · intro hfits
      have hx := execHold_made h hfits
      rw [holdSrc, h] at hx
      rw [HoldAtomic, hx]
      exact .inr ⟨rfl, holdMade_writes r inv ks a h⟩

theorem seat_hold_of_taken {c : HoldCall} (hk : (r.seat k).status ≠ some "AVAILABLE") :
    (execHold r c.invKey c.seatKeys c.args).2.seat k = r.seat k := by
  cases h : holdRefusal r c.invKey c.seatKeys c.args with
  | some e => rw [execHold_refused h]
  | none =>
    obtain ⟨_, _, _, _, hfree⟩ := holdRefusal_eq_none_iff.mp h
    have hout : k ∉ c.seatKeys := fun hmem => hk (hfree k hmem)
    by_cases hfits : HoldFits r c.invKey c.seatKeys c.args
    · have hx := execHold_made h hfits
      rw [holdSrc, h] at hx
      rw [hx, seat_holdWrites, if_neg hout]
    · rw [(execHold_stopped h hfits).2, seat_execHoldWrites_other hout]

theorem seat_holds_of_taken {r' : Redis} {tr : List (Redis × HoldCall)} (h : Run HoldStep r tr r')
    (hk : (r.seat k).status ≠ some "AVAILABLE") : r'.seat k = r.seat k := by
  refine h.invariant (fun s => s.seat k = r.seat k) (fun _ _ => True) ?_ rfl fun _ _ => trivial
  intro s c s' hs _ hstep
  rw [HoldStep] at hstep
  rw [hstep, seat_hold_of_taken (by rw [hs]; exact hk), hs]

end Stops

/-- More milliseconds than the server counts. -/
def demoLongTtl : ℕ+ := ⟨10 ^ 16, by decide⟩

end CrowdTic
