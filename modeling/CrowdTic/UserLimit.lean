import CrowdTic.CounterBalance

/-! The per-user limit counter against the seats the user has. The counter
bounds the seats as long as a release leaves it above the seats that the user
keeps and the counter outlives the seats. -/

namespace CrowdTic

/-- A user of an event and all the seats of the event. -/
structure Holder where
  event : String
  user : String
  seatKeys : Finset String
  plainEvent : PlainId event
  plainUser : PlainId user
  isSeat : ∀ k ∈ seatKeys, ∃ s, k = seatKey event s ∧ PlainId s

namespace Holder

def has (X : Holder) (v : Seat) : Prop :=
  (v.status = some "HELD" ∨ v.status = some "SOLD") ∧ v.heldBy = some X.user

instance (X : Holder) : DecidablePred X.has := fun v =>
  inferInstanceAs (Decidable ((v.status = some "HELD" ∨ v.status = some "SOLD") ∧ _))

def seatCount (X : Holder) (r : Redis) : Nat := Keyed.count X.seatKeys r.seat X.has

/-- The seats that the user keeps when those of the hold among `ks` are freed. -/
def keptCount (X : Holder) (r : Redis) (ks : List String) (holdId : String) : Nat :=
  (X.seatKeys.filter fun k => X.has (r.seat k) ∧ ¬ (k ∈ ks ∧ (r.seat k).holdId = some holdId)).card

def limitCount (X : Holder) (r : Redis) : Int :=
  (r.counters.get (limitKey X.event X.user)).getD 0

/-- Redis knows no seat of the event beside the listed ones. -/
def Complete (X : Holder) (r : Redis) : Prop :=
  ∀ s, seatKey X.event s ∉ X.seatKeys → r.seat (seatKey X.event s) = .gone

structure LimitKept (X : Holder) (m : Nat) (r : Redis) : Prop where
  complete : X.Complete r
  counted : X.seatCount r ≤ X.limitCount r
  limited : X.limitCount r ≤ m

theorem LimitKept.seatCount_le {X : Holder} {m : Nat} {r : Redis} (h : X.LimitKept m r) :
    X.seatCount r ≤ m := by
  have h1 := h.counted
  have h2 := h.limited
  omega

end Holder

/-- The conditions under which a call keeps the counter of the user above the
user's seats and below the limit. -/
def Call.KeepsLimit (X : Holder) (m : Nat) (r : Redis) : Call → Prop
  | .hold _ _ a => a.eventId = X.event → a.userId = X.user → a.maxPerUser ≤ m
  | .release _ ks a => a.eventId = X.event → a.userId = X.user →
      X.keptCount r ks a.holdId ≤ X.limitCount r - ks.length
  | .commit _ _ _ => True
  | .advance ms => r.counters.lapsed (r.now + ms) (limitKey X.event X.user) = true →
      X.seatCount r = 0

namespace Holder

variable {X : Holder} {m : Nat} {r : Redis}

theorem complete_exec {c : Call} (h : X.Complete r) : X.Complete (c.exec r) := by
  intro s hs
  have hg := h s hs
  have hm := seatMove_exec X.event s r c
  cases hm with
  | keep hseat _ => rw [hseat, hg]
  | take _ hfree _ => simp [hg, Seat.gone] at hfree
  | free _ hhold _ _ => simp [hg, Seat.gone] at hhold
  | sell _ _ hheld _ _ => simp [hg, Seat.gone, Seat.held] at hheld
  | lapse _ hseat => exact hseat

theorem has_of_has_exec {c : Call} {s : String}
    (htake : ∀ inv ks a, c = .hold inv ks a → seatKey X.event s ∈ ks → a.userId ≠ X.user)
    (h : X.has ((c.exec r).seat (seatKey X.event s))) : X.has (r.seat (seatKey X.event s)) := by
  have hm := seatMove_exec X.event s r c
  cases hm with
  | keep hseat _ => rwa [hseat] at h
  | take hk _ hseat => simp [hseat, has, Seat.held, htake _ _ _ rfl hk] at h
  | free _ _ hseat _ => simp [hseat, has, Seat.available] at h
  | sell _ _ hheld hseat _ => simpa [hseat, hheld, has, Seat.held, Seat.sold] using h
  | lapse _ hseat => simp [hseat, has, Seat.gone] at h

theorem seatCount_exec_le {c : Call} (hc : c.Shaped)
    (htake : ∀ inv ks a, c = .hold inv ks a → a.eventId = X.event → a.userId ≠ X.user) :
    X.seatCount (c.exec r) ≤ X.seatCount r := by
  refine Keyed.count_mono fun k hk hp => ?_
  obtain ⟨s, rfl, hs⟩ := X.isSeat k hk
  refine has_of_has_exec (fun inv ks a he hm => ?_) hp
  subst he
  obtain ⟨s', hs'⟩ := hc _ hm
  exact htake _ _ _ rfl (seatKey_braced_inj X.plainEvent hs hs'.symm).1

theorem limitCount_eq_of_counters {r' : Redis}
    (h : r'.counters.get (limitKey X.event X.user) = r.counters.get (limitKey X.event X.user)) :
    X.limitCount r' = X.limitCount r := by
  rw [limitCount, h, limitCount]

theorem limitKey_ne_of_ne {e u : String} (h : e = X.event → u ≠ X.user) :
    limitKey X.event X.user ≠ limitKey e u := fun hh =>
  have hi := limitKey_braced_inj X.plainEvent X.plainUser hh.symm
  h hi.1 hi.2

theorem limitKept_hold {inv : String} {ks : List String} {a : HoldArgs} (h : X.LimitKept m r)
    (hc : (Call.hold inv ks a).Shaped) (hk : (Call.hold inv ks a).KeepsLimit X m r) :
    X.LimitKept m ((Call.hold inv ks a).exec r) := by
  rcases hold_exec_cases r inv ks a with ⟨hr, hx⟩ | hx
  · obtain ⟨n, _, _, hlim, _⟩ := holdRefusal_eq_none_iff.mp hr
    by_cases hmine : a.eventId = X.event ∧ a.userId = X.user
    · obtain ⟨he, hu⟩ := hmine
      have hmax := hk he hu
      have hcount : X.seatCount (holdWrites r inv ks a) ≤ X.seatCount r + ks.length := by
        refine Keyed.count_le_add_length fun k _ hp => ?_
        by_cases hm : k ∈ ks
        · exact .inr hm
        · exact .inl (by simpa [seat_holdWrites, hm] using hp)
      have hlimit : X.limitCount (holdWrites r inv ks a) = X.limitCount r + ks.length := by
        simp [limitCount, counters_holdWrites, he, hu]
      have hc1 := h.counted
      rw [he, hu] at hlim
      refine ⟨complete_exec h.complete, ?_, ?_⟩ <;> rw [hx, hlimit]
      · omega
      · have : X.limitCount r + ks.length ≤ a.maxPerUser := hlim
        omega
    · have hne : a.eventId = X.event → a.userId ≠ X.user := fun he hu => hmine ⟨he, hu⟩
      have hlimit : X.limitCount ((Call.hold inv ks a).exec r) = X.limitCount r :=
        limitCount_eq_of_counters (by rw [hx, counters_holdWrites, if_neg (limitKey_ne_of_ne hne)])
      have hcount := seatCount_exec_le (X := X) (r := r) hc fun _ _ _ he => by cases he; exact hne
      exact ⟨complete_exec h.complete, by have := h.counted; omega, hlimit ▸ h.limited⟩
  · rwa [hx]

theorem limitKept_release {inv : String} {ks : List String} {a : ReleaseArgs}
    (h : X.LimitKept m r) (hc : (Call.release inv ks a).Shaped)
    (hk : (Call.release inv ks a).KeepsLimit X m r) :
    X.LimitKept m ((Call.release inv ks a).exec r) := by
  have hx : (Call.release inv ks a).exec r = releaseWrites r inv ks a := rfl
  by_cases hmine : a.eventId = X.event ∧ a.userId = X.user
  · obtain ⟨he, hu⟩ := hmine
    have hleft := hk he hu
    have hcount : X.seatCount (releaseWrites r inv ks a) = X.keptCount r ks a.holdId := by
      refine congrArg Finset.card (Finset.filter_congr fun k hm => ?_)
      obtain ⟨s, rfl, _⟩ := X.isSeat k hm
      rw [seat_releaseWrites r inv ks a (seatKey_ne_holdKey _ _ _ _)]
      by_cases hfreed : seatKey X.event s ∈ ks ∧ (r.seat (seatKey X.event s)).holdId = some a.holdId
      · simp [hfreed, has, Seat.available]
      · rw [if_neg hfreed, and_iff_left hfreed]
    have hlimit : X.limitCount (releaseWrites r inv ks a) = X.limitCount r - ks.length := by
      simp [limitCount, counters_releaseWrites, he, hu]
    have hmax := h.limited
    refine ⟨complete_exec h.complete, ?_, ?_⟩
    · rw [hx, hlimit, hcount]
      exact hleft
    · rw [hx, hlimit]
      omega
  · have hne : a.eventId = X.event → a.userId ≠ X.user := fun he hu => hmine ⟨he, hu⟩
    have hlimit : X.limitCount ((Call.release inv ks a).exec r) = X.limitCount r :=
      limitCount_eq_of_counters (by rw [hx, counters_releaseWrites, if_neg (limitKey_ne_of_ne hne)])
    have hcount := seatCount_exec_le (X := X) (r := r) hc fun _ _ _ he => by cases he
    exact ⟨complete_exec h.complete, by have := h.counted; omega, hlimit ▸ h.limited⟩

theorem limitKept_commit {inv : String} {ks : List String} {a : CommitArgs}
    (h : X.LimitKept m r) (hc : (Call.commit inv ks a).Shaped) :
    X.LimitKept m ((Call.commit inv ks a).exec r) := by
  have hcounters : ((Call.commit inv ks a).exec r).counters = r.counters := by
    rcases commit_exec_cases r inv ks a with ⟨_, hx⟩ | hx <;> rw [hx]
    exact counters_commitWrites r inv ks a
  have hlimit := limitCount_eq_of_counters (X := X) (congrArg (ExpMap.get · _) hcounters)
  have hcount := seatCount_exec_le (X := X) (r := r) hc fun _ _ _ he => by cases he
  exact ⟨complete_exec h.complete, by have := h.counted; omega, hlimit ▸ h.limited⟩

theorem limitKept_advance {ms : Nat} (h : X.LimitKept m r)
    (hk : (Call.advance ms).KeepsLimit X m r) : X.LimitKept m ((Call.advance ms).exec r) := by
  have hcount := seatCount_exec_le (X := X) (r := r) (c := .advance ms) trivial
    fun _ _ _ he => by cases he
  by_cases hl : r.counters.lapsed (r.now + ms) (limitKey X.event X.user) = true
  · have hlimit : X.limitCount ((Call.advance ms).exec r) = 0 := by
      simp [limitCount, Call.exec, hl]
    have h0 := hk hl
    exact ⟨complete_exec h.complete, by omega, by omega⟩
  · have hlimit : X.limitCount ((Call.advance ms).exec r) = X.limitCount r :=
      limitCount_eq_of_counters (by simp [Call.exec, hl])
    exact ⟨complete_exec h.complete, by have := h.counted; omega, hlimit ▸ h.limited⟩

theorem limitKept_exec {c : Call} (h : X.LimitKept m r) (hc : c.Shaped)
    (hk : c.KeepsLimit X m r) : X.LimitKept m (c.exec r) := by
  cases c with
  | hold inv ks a => exact limitKept_hold h hc hk
  | release inv ks a => exact limitKept_release h hc hk
  | commit inv ks a => exact limitKept_commit h hc
  | advance ms => exact limitKept_advance h hk

structure Unsold (X : Holder) (r : Redis) : Prop where
  complete : X.Complete r
  seats : ∀ k ∈ X.seatKeys, r.seat k = .available
  counter : r.counters.get (limitKey X.event X.user) = none

theorem Unsold.limitKept (h : X.Unsold r) (m : Nat) : X.LimitKept m r := by
  have h0 : X.seatCount r = 0 := Finset.card_eq_zero.mpr (Finset.filter_false_of_mem fun k hk => by
    simp [h.seats k hk, has, Seat.available])
  have hl : X.limitCount r = 0 := by simp [limitCount, h.counter]
  exact ⟨h.complete, by omega, by omega⟩

end Holder

def demoHolder : Holder where
  event := demoEvent
  user := demoUser
  seatKeys := demoCategory.seatKeys
  plainEvent := by decide
  plainUser := by decide
  isSeat k hk := by
    rcases Finset.mem_insert.mp hk with rfl | hk
    · exact ⟨demoSeat, rfl, by decide⟩
    · exact ⟨demoSeat', Finset.mem_singleton.mp hk, by decide⟩

theorem demoHolder_unsold : demoHolder.Unsold demoRedis where
  complete s hs := by
    have hne : s ≠ demoSeat ∧ s ≠ demoSeat' := by
      simpa [demoHolder, demoCategory] using hs
    have hinv := seatKey_ne_inventoryKey demoEvent s demoEvent demoVip
    simp [Redis.seat, Hashes.hget, ExpMap.get, demoRedis, demoHolder, hinv, hne, Seat.gone]
  seats := by decide
  counter := rfl

/-- Every hold of the event is made with the limit `m`. -/
def Call.Passes (X : Holder) (m : Nat) : Call → Prop
  | .hold _ _ a => a.eventId = X.event → a.maxPerUser = m
  | _ => True

def demoHoldOne (hold seat : String) : Call :=
  .hold demoCategory.invKey [seatKey demoEvent seat]
    { demoHoldArgs with holdId := hold, maxPerUser := 1 }

def demoCommitOne : Call :=
  .commit demoCategory.invKey [seatKey demoEvent demoSeat] demoCommitArgs

end CrowdTic
