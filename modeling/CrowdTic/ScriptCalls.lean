import CrowdTic.Runs
import CrowdTic.ScriptEffects

/-! Runs of script executions against one Redis, with time passing in
between, and everything a single execution can do to a seat. -/

namespace CrowdTic

inductive Call
  | hold (invKey : String) (seatKeys : List String) (a : HoldArgs)
  | release (invKey : String) (seatKeys : List String) (a : ReleaseArgs)
  | commit (invKey : String) (seatKeys : List String) (a : CommitArgs)
  | advance (ms : Nat)

def Call.exec (r : Redis) : Call → Redis
  | .hold inv ks a => (holdSrc r inv ks a).2
  | .release inv ks a => (releaseSrc r inv ks a).2
  | .commit inv ks a => (commitSrc r inv ks a).2
  | .advance ms => r.advance ms

def CallStep (r : Redis) (c : Call) (r' : Redis) : Prop := r' = c.exec r

/-- The keys of the call are seats of the event it names, as the handlers build them. -/
def Call.Shaped : Call → Prop
  | .hold _ ks a => ∀ k ∈ ks, ∃ s, k = seatKey a.eventId s
  | .release _ ks a => ∀ k ∈ ks, ∃ s, k = seatKey a.eventId s
  | .commit _ ks a => ∀ k ∈ ks, ∃ s, k = seatKey a.eventId s
  | .advance _ => True

theorem holdSrc_refused {r : Redis} {inv : String} {ks : List String} {a : HoldArgs}
    (h : holdRefusal r inv ks a ≠ none) : (holdSrc r inv ks a).2 = r := by
  cases he : holdRefusal r inv ks a with
  | none => exact absurd he h
  | some e => simp [holdSrc, he]

theorem holdSrc_accepted {r : Redis} {inv : String} {ks : List String} {a : HoldArgs}
    (h : holdRefusal r inv ks a = none) : (holdSrc r inv ks a).2 = holdWrites r inv ks a := by
  simp [holdSrc, h]

/-- The commit script gets past its replay exit and its seat checks. -/
def CommitRuns (r : Redis) (ks : List String) (a : CommitArgs) : Prop :=
  ledger r a = none ∧ commitRefusal r ks a = none

instance (r : Redis) (ks : List String) (a : CommitArgs) : Decidable (CommitRuns r ks a) :=
  inferInstanceAs (Decidable (_ ∧ _))

theorem commitSrc_accepted {r : Redis} {inv : String} {ks : List String} {a : CommitArgs}
    (h : CommitRuns r ks a) : (commitSrc r inv ks a).2 = commitWrites r inv ks a := by
  simp [commitSrc, h.1, h.2]

theorem commitSrc_idle {r : Redis} {inv : String} {ks : List String} {a : CommitArgs}
    (h : ¬ CommitRuns r ks a) : (commitSrc r inv ks a).2 = r := by
  cases hl : ledger r a with
  | some o => simp [commitSrc, hl]
  | none =>
    cases he : commitRefusal r ks a with
    | none => exact absurd ⟨hl, he⟩ h
    | some e => simp [commitSrc, hl, he]

theorem hold_exec_cases (r : Redis) (inv : String) (ks : List String) (a : HoldArgs) :
    holdRefusal r inv ks a = none ∧ (Call.hold inv ks a).exec r = holdWrites r inv ks a ∨
      (Call.hold inv ks a).exec r = r := by
  by_cases hr : holdRefusal r inv ks a = none
  · exact .inl ⟨hr, holdSrc_accepted hr⟩
  · exact .inr (holdSrc_refused hr)

theorem commit_exec_cases (r : Redis) (inv : String) (ks : List String) (a : CommitArgs) :
    CommitRuns r ks a ∧ (Call.commit inv ks a).exec r = commitWrites r inv ks a ∨
      (Call.commit inv ks a).exec r = r := by
  by_cases hr : CommitRuns r ks a
  · exact .inl ⟨hr, commitSrc_accepted hr⟩
  · exact .inr (commitSrc_idle hr)

/-- Everything one execution can do to the seat under the key `k`. -/
inductive SeatMove (r : Redis) (k : String) (r' : Redis) : Call → Prop
  | keep {c : Call} (hseat : r'.seat k = r.seat k) (httl : r'.hashes.ttl k = r.hashes.ttl k) :
      SeatMove r k r' c
  | take {inv : String} {ks : List String} {a : HoldArgs} (hk : k ∈ ks)
      (hfree : (r.seat k).status = some "AVAILABLE")
      (hseat : r'.seat k = .held a.userId a.holdId) : SeatMove r k r' (.hold inv ks a)
  | free {inv : String} {ks : List String} {a : ReleaseArgs} (hk : k ∈ ks)
      (hhold : (r.seat k).holdId = some a.holdId) (hseat : r'.seat k = .available)
      (httl : r'.hashes.ttl k = none) : SeatMove r k r' (.release inv ks a)
  | sell {inv : String} {ks : List String} {a : CommitArgs} (hk : k ∈ ks)
      (hruns : CommitRuns r ks a) (hheld : r.seat k = .held a.userId a.holdId)
      (hseat : r'.seat k = .sold a.userId a.holdId) (httl : r'.hashes.ttl k = none) :
      SeatMove r k r' (.commit inv ks a)
  | lapse {ms : Nat} (hlapsed : r.hashes.lapsed (r.now + ms) k = true)
      (hseat : r'.seat k = .gone) : SeatMove r k r' (.advance ms)

theorem seatMove_exec (e s : String) (r : Redis) (c : Call) :
    SeatMove r (seatKey e s) (c.exec r) c := by
  cases c with
  | hold inv ks a =>
    rcases hold_exec_cases r inv ks a with ⟨hr, hx⟩ | hx <;> rw [hx]
    · by_cases hk : seatKey e s ∈ ks
      · obtain ⟨_, _, _, _, hall⟩ := holdRefusal_eq_none_iff.mp hr
        exact .take hk (hall _ hk) (by simp [seat_holdWrites, hk])
      · exact .keep (by simp [seat_holdWrites, hk])
          (ttl_holdWrites r inv ks a _ hk (seatKey_ne_holdKey _ _ _ _))
    · exact .keep rfl rfl
  | release inv ks a =>
    have hh := seat_ttl_releaseWrites r inv ks a (seatKey_ne_holdKey e s a.eventId a.holdId)
    by_cases hk : seatKey e s ∈ ks
    · by_cases hd : (r.seat (seatKey e s)).holdId = some a.holdId
      · simp only [hk, if_true, released, hd, Prod.mk.injEq] at hh
        exact .free hk hd hh.1 hh.2
      · simp only [hk, if_true, released, hd, if_false, Prod.mk.injEq] at hh
        exact .keep hh.1 hh.2
    · simp only [hk, if_false, Prod.mk.injEq] at hh
      exact .keep hh.1 hh.2
  | commit inv ks a =>
    rcases commit_exec_cases r inv ks a with ⟨hr, hx⟩ | hx <;> rw [hx]
    · have hh := seat_ttl_commitWrites r inv ks a (seatKey_ne_holdKey e s a.eventId a.holdId)
      by_cases hk : seatKey e s ∈ ks
      · rcases commitRefusal_eq_none_iff.mp hr.2 _ hk with hs | hs
        · simp only [hk, if_true, committed, hs, Seat.held, Prod.mk.injEq] at hh
          exact .sell hk hr hs hh.1 hh.2
        · have hns : (r.seat (seatKey e s)).status ≠ some "HELD" := by simp [hs, Seat.sold]
          simp only [hk, if_true, committed, hns, if_false, Prod.mk.injEq] at hh
          exact .keep hh.1 hh.2
      · simp only [hk, if_false, Prod.mk.injEq] at hh
        exact .keep hh.1 hh.2
    · exact .keep rfl rfl
  | advance ms =>
    by_cases hl : r.hashes.lapsed (r.now + ms) (seatKey e s) = true
    · exact .lapse hl (by simp [Call.exec, seat_advance, hl])
    · exact .keep (by simp [Call.exec, seat_advance, hl]) (by simp [Call.exec, hl])

theorem ledger_exec {r : Redis} {c : Call} {e h v : String}
    (hv : (c.exec r).strings.get (orderHoldKey e h) = some v) :
    r.strings.get (orderHoldKey e h) = some v ∨ ∃ inv ks a, c = .commit inv ks a ∧
      CommitRuns r ks a ∧ orderHoldKey e h = orderHoldKey a.eventId a.holdId ∧ v = a.orderId := by
  cases c with
  | hold inv ks a =>
    refine .inl ?_
    rcases hold_exec_cases r inv ks a with ⟨_, hx⟩ | hx <;> rw [hx] at hv
    · rwa [strings_holdWrites] at hv
    · exact hv
  | release inv ks a =>
    have hx : ((Call.release inv ks a).exec r).strings = r.strings := strings_releaseWrites r inv ks a
    rw [hx] at hv
    exact .inl hv
  | commit inv ks a =>
    rcases commit_exec_cases r inv ks a with ⟨hr, hx⟩ | hx <;> rw [hx] at hv
    · rw [strings_commitWrites, if_neg (orderHoldKey_ne_orderKey _ _ _ _)] at hv
      by_cases hk : orderHoldKey e h = orderHoldKey a.eventId a.holdId
      · rw [if_pos hk] at hv
        exact .inr ⟨inv, ks, a, rfl, hr, hk, (Option.some.inj hv).symm⟩
      · rw [if_neg hk] at hv
        exact .inl hv
    · exact .inl hv
  | advance ms =>
    by_cases hl : r.strings.lapsed (r.now + ms) (orderHoldKey e h) = true
    · simp [Call.exec, hl] at hv
    · exact .inl (by simpa [Call.exec, hl] using hv)

theorem inventory_ttl_exec {r : Redis} {c : Call} {e i : String} (hc : c.Shaped)
    (h : r.hashes.ttl (inventoryKey e i) = none) :
    (c.exec r).hashes.ttl (inventoryKey e i) = none := by
  have hout {ks : List String} {e' : String} (hks : ∀ k ∈ ks, ∃ s, k = seatKey e' s) :
      inventoryKey e i ∉ ks := by
    intro hk
    obtain ⟨s, hs⟩ := hks _ hk
    exact seatKey_ne_inventoryKey _ _ _ _ hs.symm
  have hhold := inventoryKey_ne_holdKey e i
  cases c with
  | hold inv ks a =>
    rcases hold_exec_cases r inv ks a with ⟨_, hx⟩ | hx <;> rw [hx]
    · rw [ttl_holdWrites r inv ks a _ (hout hc) (hhold _ _), h]
    · exact h
  | release inv ks a =>
    have hh := seat_ttl_releaseWrites r inv ks a (hhold a.eventId a.holdId)
    rw [if_neg (hout hc)] at hh
    exact (congrArg Prod.snd hh).trans h
  | commit inv ks a =>
    rcases commit_exec_cases r inv ks a with ⟨_, hx⟩ | hx <;> rw [hx]
    · have hh := seat_ttl_commitWrites r inv ks a (hhold a.eventId a.holdId)
      rw [if_neg (hout hc)] at hh
      exact (congrArg Prod.snd hh).trans h
    · exact h
  | advance ms => simp [Call.exec, ExpMap.lapsed_of_ttl_none h, h]

section Demo

def demoEvent : String := "550e8400-e29b-41d4-a716-446655440010"
def demoVip : String := "550e8400-e29b-41d4-a716-446655440020"
def demoUser : String := "550e8400-e29b-41d4-a716-446655440030"
def demoHold : String := "550e8400-e29b-41d4-a716-446655440040"
def demoSeat : String := "550e8400-e29b-41d4-a716-446655440050"
def demoSeat' : String := "550e8400-e29b-41d4-a716-446655440051"

def demoInventory (seats : Nat) : Hash :=
  (((Hash.empty.setNum .quota (some seats)).setNum .available (some seats)).setNum
    .held (some 0)).setNum .sold (some 0)

def demoRedis : Redis where
  hashes := fun k =>
    if k = inventoryKey demoEvent demoVip then some ⟨demoInventory 2, none⟩
    else if k = seatKey demoEvent demoSeat ∨ k = seatKey demoEvent demoSeat' then
      some ⟨Hash.empty.setText .status (some "AVAILABLE"), none⟩
    else none
  counters := fun _ => none
  strings := fun _ => none
  now := 0

def demoTtl : ℕ+ := 600

def demoHoldArgs : HoldArgs where
  userId := demoUser
  holdId := demoHold
  ttl := demoTtl
  expiresAt := 600000
  maxPerUser := 4
  eventId := demoEvent

def demoCommitArgs : CommitArgs where
  holdId := demoHold
  userId := demoUser
  eventId := demoEvent
  orderId := "550e8400-e29b-41d4-a716-446655440060"
  soldAt := 1000

end Demo

end CrowdTic
