import CrowdTic.ScriptCalls

/-! The counters of an inventory hash against the seats of its category. Each
script moves the counters by the number of keys it is given and the seats one
by one, so the two agree after an execution exactly when every key stands for
one seat that moves. -/

namespace CrowdTic

structure Category where
  event : String
  id : String
  seatKeys : Finset String
  isSeat : ∀ k ∈ seatKeys, ∃ s, k = seatKey event s

namespace Category

def invKey (C : Category) : String := inventoryKey C.event C.id

def statusCount (C : Category) (r : Redis) (st : String) : Nat :=
  Keyed.count C.seatKeys r.seat fun v => v.status = some st

/-- The inventory hash counts the seats of the category by status. -/
def CountersAgree (C : Category) (r : Redis) : Prop :=
  r.stock C.invKey = ⟨some (C.statusCount r "AVAILABLE"), some (C.statusCount r "HELD"),
    some (C.statusCount r "SOLD")⟩

/-- Every seat of the category is in a stage of its life, with no leftover fields. -/
def Tracked (C : Category) (r : Redis) : Prop :=
  ∀ k ∈ C.seatKeys, r.seat k = .available ∨ (∃ u h, r.seat k = .held u h) ∨
    ∃ u h, r.seat k = .sold u h

structure Untouched (C : Category) (r : Redis) : Prop where
  quota : r.hashes.hgetNum C.invKey .quota = some C.seatKeys.card
  stock : r.stock C.invKey = ⟨some C.seatKeys.card, some 0, some 0⟩
  seats : ∀ k ∈ C.seatKeys, r.seat k = .available

theorem Untouched.tracked {C : Category} {r : Redis} (h : C.Untouched r) : C.Tracked r :=
  fun k hk => .inl (h.seats k hk)

theorem Untouched.countersAgree {C : Category} {r : Redis} (h : C.Untouched r) :
    C.CountersAgree r := by
  have hall : C.statusCount r "AVAILABLE" = C.seatKeys.card :=
    congrArg Finset.card (Finset.filter_true_of_mem fun k hk => by
      simp [h.seats k hk, Seat.available])
  have hnone (st : String) (hst : st ≠ "AVAILABLE") : C.statusCount r st = 0 :=
    Finset.card_eq_zero.mpr (Finset.filter_false_of_mem fun k hk => by
      simpa [h.seats k hk, Seat.available] using Ne.symm hst)
  simp [CountersAgree, h.stock, hall, hnone]

end Category

/-- The call works on the keys of the category, with any arguments. -/
def Call.Within (C : Category) : Call → Prop
  | .hold inv ks _ => inv = C.invKey ∧ ∀ k ∈ ks, k ∈ C.seatKeys
  | .release inv ks _ => inv = C.invKey ∧ ∀ k ∈ ks, k ∈ C.seatKeys
  | .commit inv ks _ => inv = C.invKey ∧ ∀ k ∈ ks, k ∈ C.seatKeys
  | .advance _ => False

/-- Each key of the call stands for one seat that the call moves, unless the
call is refused or a replay. -/
def Call.Exact (r : Redis) : Call → Prop
  | .hold inv ks a => holdRefusal r inv ks a ≠ none ∨ ks.Nodup
  | .release _ ks a => ks.Nodup ∧ ∀ k ∈ ks,
      (r.seat k).status = some "HELD" ∧ (r.seat k).holdId = some a.holdId
  | .commit _ ks a => ¬ CommitRuns r ks a ∨
      ks.Nodup ∧ ∀ k ∈ ks, (r.seat k).status = some "HELD"
  | .advance _ => True

namespace Category

variable {C : Category} {r : Redis} {ks : List String}

theorem ne_holdKey (C : Category) {k : String} (hk : k ∈ C.seatKeys) (e h : String) :
    k ≠ holdKey e h := by
  obtain ⟨s, rfl⟩ := C.isSeat k hk
  exact seatKey_ne_holdKey _ _ _ _

theorem tracked_exec {c : Call} (ht : C.Tracked r) (hw : c.Within C) : C.Tracked (c.exec r) := by
  intro k hk
  obtain ⟨s, rfl⟩ := C.isSeat k hk
  have hm := seatMove_exec C.event s r c
  cases hm with
  | keep hseat _ => simpa only [hseat] using ht _ hk
  | take _ _ hseat => exact .inr (.inl ⟨_, _, hseat⟩)
  | free _ _ hseat _ => exact .inl hseat
  | sell _ _ _ hseat _ => exact .inr (.inr ⟨_, _, hseat⟩)
  | lapse _ _ => exact hw.elim

theorem hits_subset (hks : ∀ k ∈ ks, k ∈ C.seatKeys) (p : Seat → Prop) [DecidablePred p] :
    Keyed.hits ks r.seat p ⊆ C.seatKeys := fun k hk => hks k (Keyed.mem_hits.mp hk).1

section Hold

variable {a : HoldArgs}

theorem statusCount_holdWrites (hks : ∀ k ∈ ks, k ∈ C.seatKeys)
    (hfree : ∀ k ∈ ks, (r.seat k).status = some "AVAILABLE") :
    let T := Keyed.hits ks r.seat fun v => v.status = some "AVAILABLE"
    C.statusCount r "AVAILABLE" =
        C.statusCount (holdWrites r C.invKey ks a) "AVAILABLE" + T.card ∧
      C.statusCount (holdWrites r C.invKey ks a) "HELD" = C.statusCount r "HELD" + T.card ∧
      C.statusCount (holdWrites r C.invKey ks a) "SOLD" = C.statusCount r "SOLD" := by
  intro T
  have hT : ∀ k, k ∈ T ↔ k ∈ ks := fun k => by
    simpa [T] using fun hk => hfree k hk
  have hsub : T ⊆ C.seatKeys := hits_subset hks _
  refine ⟨Keyed.count_lose hsub ?_ ?_ ?_, Keyed.count_gain hsub ?_ ?_ ?_,
    Keyed.count_congr ?_⟩ <;> intro k hk <;>
    by_cases hm : k ∈ ks <;> simp_all [seat_holdWrites, Seat.held]

theorem countersAgree_hold_iff (hks : ∀ k ∈ ks, k ∈ C.seatKeys) (hb : C.CountersAgree r) :
    C.CountersAgree (holdSrc r C.invKey ks a).2 ↔ (Call.hold C.invKey ks a).Exact r := by
  by_cases hr : holdRefusal r C.invKey ks a = none
  · obtain ⟨_, _, _, _, hfree⟩ := holdRefusal_eq_none_iff.mp hr
    obtain ⟨ha, hh, hs⟩ := statusCount_holdWrites (a := a) hks hfree
    have hlen := Keyed.hits_card_eq_length_iff ks r.seat fun v => v.status = some "AVAILABLE"
    have hnd : (Call.hold C.invKey ks a).Exact r ↔ ks.Nodup := by simp [Call.Exact, hr]
    rw [holdSrc_accepted hr, CountersAgree, stock_holdWrites, if_pos rfl, hb, hnd, hs]
    simp only [Option.getD_some, Stock.mk.injEq, Option.some.injEq, and_true]
    rw [show ks.Nodup ↔ _ from ⟨fun h => hlen.mpr ⟨h, hfree⟩, fun h => (hlen.mp h).1⟩]
    omega
  · simp [holdSrc_refused hr, hb, Call.Exact, hr]

end Hold

section Release

variable {a : ReleaseArgs}

theorem statusCount_releaseWrites (ht : C.Tracked r) (hks : ∀ k ∈ ks, k ∈ C.seatKeys) :
    C.statusCount (releaseWrites r C.invKey ks a) "AVAILABLE" = C.statusCount r "AVAILABLE" +
        (Keyed.hits ks r.seat fun v => v.holdId = some a.holdId).card ∧
      C.statusCount r "HELD" = C.statusCount (releaseWrites r C.invKey ks a) "HELD" +
        (Keyed.hits ks r.seat fun v => v.status = some "HELD" ∧ v.holdId = some a.holdId).card ∧
      C.statusCount r "SOLD" = C.statusCount (releaseWrites r C.invKey ks a) "SOLD" +
        (Keyed.hits ks r.seat fun v => v.status = some "SOLD" ∧ v.holdId = some a.holdId).card := by
  have hseat (k : String) (hk : k ∈ C.seatKeys) :=
    seat_releaseWrites r C.invKey ks a (C.ne_holdKey hk a.eventId a.holdId)
  refine ⟨Keyed.count_gain (hits_subset hks _) ?_ ?_ ?_,
    Keyed.count_lose (hits_subset hks _) ?_ ?_ ?_, Keyed.count_lose (hits_subset hks _) ?_ ?_ ?_⟩
  · intro k hk hav
    obtain ⟨hm, hd⟩ := Keyed.mem_hits.mp hk
    rcases ht k (hks k hm) with hv | ⟨_, _, hv⟩ | ⟨_, _, hv⟩ <;>
      simp [hv, Seat.available, Seat.held, Seat.sold] at hav hd
  · intro k hk
    obtain ⟨hm, hd⟩ := Keyed.mem_hits.mp hk
    simp [hseat k (hks k hm), hm, hd, Seat.available]
  · intro k hk hT
    have hno : ¬ (k ∈ ks ∧ (r.seat k).holdId = some a.holdId) := fun h => hT (Keyed.mem_hits.mpr h)
    rw [hseat k hk, if_neg hno]
  · exact fun k hk => (Keyed.mem_hits.mp hk).2.1
  · intro k hk
    obtain ⟨hm, _, hd⟩ := Keyed.mem_hits.mp hk
    simp [hseat k (hks k hm), hm, hd, Seat.available]
  · intro k hk hT
    rw [hseat k hk]
    by_cases hno : k ∈ ks ∧ (r.seat k).holdId = some a.holdId
    · have hnh : (r.seat k).status ≠ some "HELD" :=
        fun h => hT (Keyed.mem_hits.mpr ⟨hno.1, h, hno.2⟩)
      simp [hno, hnh, Seat.available]
    · rw [if_neg hno]
  · exact fun k hk => (Keyed.mem_hits.mp hk).2.1
  · intro k hk
    obtain ⟨hm, _, hd⟩ := Keyed.mem_hits.mp hk
    simp [hseat k (hks k hm), hm, hd, Seat.available]
  · intro k hk hT
    rw [hseat k hk]
    by_cases hno : k ∈ ks ∧ (r.seat k).holdId = some a.holdId
    · have hns : (r.seat k).status ≠ some "SOLD" :=
        fun h => hT (Keyed.mem_hits.mpr ⟨hno.1, h, hno.2⟩)
      simp [hno, hns, Seat.available]
    · rw [if_neg hno]

theorem countersAgree_release_iff (ht : C.Tracked r) (hks : ∀ k ∈ ks, k ∈ C.seatKeys)
    (hb : C.CountersAgree r) :
    C.CountersAgree (releaseSrc r C.invKey ks a).2 ↔ (Call.release C.invKey ks a).Exact r := by
  obtain ⟨ha, hh, hs⟩ := statusCount_releaseWrites (a := a) ht hks
  have hlen := Keyed.hits_card_eq_length_iff ks r.seat
    fun v => v.status = some "HELD" ∧ v.holdId = some a.holdId
  have hle := Keyed.hits_card_le ks r.seat fun v => v.holdId = some a.holdId
  have hsub : (Keyed.hits ks r.seat fun v => v.status = some "HELD" ∧ v.holdId = some a.holdId) ⊆
      Keyed.hits ks r.seat fun v => v.holdId = some a.holdId := fun k hk => by
    have := Keyed.mem_hits.mp hk
    exact Keyed.mem_hits.mpr ⟨this.1, this.2.2⟩
  have hcard := Finset.card_le_card hsub
  have hsold : (Call.release C.invKey ks a).Exact r → (Keyed.hits ks r.seat
      fun v => v.status = some "SOLD" ∧ v.holdId = some a.holdId).card = 0 := by
    intro he
    refine Finset.card_eq_zero.mpr (Finset.eq_empty_of_forall_notMem fun k hk => ?_)
    obtain ⟨hm, hst, _⟩ := Keyed.mem_hits.mp hk
    simpa [hst] using (he.2 k hm).1
  have hinv : C.invKey ≠ holdKey a.eventId a.holdId := inventoryKey_ne_holdKey _ _ _ _
  simp only [releaseSrc, CountersAgree, stock_releaseWrites r C.invKey ks a hinv, if_true]
  rw [hb]
  simp only [Option.getD_some, Stock.mk.injEq, Option.some.injEq]
  constructor
  · rintro ⟨_, h2, _⟩
    exact hlen.mp (by omega)
  · intro he
    have h0 := hsold he
    have h1 := hlen.mpr he
    omega

end Release

section Commit

variable {a : CommitArgs}

theorem statusCount_commitWrites (hks : ∀ k ∈ ks, k ∈ C.seatKeys) :
    let T := Keyed.hits ks r.seat fun v => v.status = some "HELD"
    C.statusCount (commitWrites r C.invKey ks a) "AVAILABLE" = C.statusCount r "AVAILABLE" ∧
      C.statusCount r "HELD" = C.statusCount (commitWrites r C.invKey ks a) "HELD" + T.card ∧
      C.statusCount (commitWrites r C.invKey ks a) "SOLD" = C.statusCount r "SOLD" + T.card := by
  have hseat (k : String) (hk : k ∈ C.seatKeys) :=
    seat_commitWrites r C.invKey ks a (C.ne_holdKey hk a.eventId a.holdId)
  have hsub := hits_subset (r := r) hks fun v => v.status = some "HELD"
  refine ⟨Keyed.count_congr ?_, Keyed.count_lose hsub ?_ ?_ ?_, Keyed.count_gain hsub ?_ ?_ ?_⟩ <;>
    intro k hk
  · rw [hseat k hk]
    by_cases hm : k ∈ ks ∧ (r.seat k).status = some "HELD" <;> simp [hm]
  · exact (Keyed.mem_hits.mp hk).2
  · obtain ⟨hm, hd⟩ := Keyed.mem_hits.mp hk
    simp [hseat k (hks k hm), hm, hd]
  · intro hT
    rw [hseat k hk, if_neg fun h => hT (Keyed.mem_hits.mpr h)]
  · simp [(Keyed.mem_hits.mp hk).2]
  · obtain ⟨hm, hd⟩ := Keyed.mem_hits.mp hk
    simp [hseat k (hks k hm), hm, hd]
  · intro hT
    rw [hseat k hk, if_neg fun h => hT (Keyed.mem_hits.mpr h)]

theorem countersAgree_commit_iff (hks : ∀ k ∈ ks, k ∈ C.seatKeys) (hb : C.CountersAgree r) :
    C.CountersAgree (commitSrc r C.invKey ks a).2 ↔ (Call.commit C.invKey ks a).Exact r := by
  by_cases hr : CommitRuns r ks a
  · obtain ⟨ha, hh, hs⟩ := statusCount_commitWrites (r := r) (a := a) hks
    have hlen := Keyed.hits_card_eq_length_iff ks r.seat fun v => v.status = some "HELD"
    have hinv : C.invKey ≠ holdKey a.eventId a.holdId := inventoryKey_ne_holdKey _ _ _ _
    have hex : (Call.commit C.invKey ks a).Exact r ↔ _ := (or_iff_right (not_not.mpr hr)).trans hlen.symm
    rw [commitSrc_accepted hr, CountersAgree, stock_commitWrites r C.invKey ks a hinv, if_pos rfl,
      hb, hex, ha]
    simp only [Option.getD_some, Stock.mk.injEq, Option.some.injEq, true_and]
    omega
  · simp [commitSrc_idle hr, hb, Call.Exact, hr]

end Commit

theorem countersAgree_exec_iff {c : Call} (ht : C.Tracked r) (hb : C.CountersAgree r)
    (hw : c.Within C) : C.CountersAgree (c.exec r) ↔ c.Exact r := by
  cases c with
  | hold inv ks a =>
    obtain ⟨rfl, hks⟩ := hw
    exact countersAgree_hold_iff hks hb
  | release inv ks a =>
    obtain ⟨rfl, hks⟩ := hw
    exact countersAgree_release_iff ht hks hb
  | commit inv ks a =>
    obtain ⟨rfl, hks⟩ := hw
    exact countersAgree_commit_iff hks hb
  | advance ms => exact hw.elim

end Category

section Demo

def demoCategory : Category where
  event := demoEvent
  id := demoVip
  seatKeys := {seatKey demoEvent demoSeat, seatKey demoEvent demoSeat'}
  isSeat k hk := by
    rcases Finset.mem_insert.mp hk with rfl | hk
    · exact ⟨_, rfl⟩
    · exact ⟨_, Finset.mem_singleton.mp hk⟩

theorem demoCategory_untouched : demoCategory.Untouched demoRedis where
  quota := by decide
  stock := by decide
  seats := by decide

end Demo

end CrowdTic
