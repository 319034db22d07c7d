import CrowdTic.CommitsAgree
import Mathlib.Data.Set.Card

/-! What `redis/lua/commit.lua` books against what it sells. It books one seat
for every key it is given, and it sells the seats that are held. -/

namespace CrowdTic

/-- The keys are of the families that the script names. -/
structure CommitKeys (inv : String) (ks : List String) : Prop where
  inventory : ∃ e c, inv = inventoryKey e c
  seats : ∀ k ∈ ks, ∃ e s, k = seatKey e s

theorem CommitKeys.inv_ne_holdKey {inv : String} {ks : List String} (h : CommitKeys inv ks)
    (e i : String) : inv ≠ holdKey e i := by
  obtain ⟨e', c, rfl⟩ := h.inventory
  exact inventoryKey_ne_holdKey _ _ _ _

theorem CommitKeys.seat_ne_holdKey {inv k : String} {ks : List String} (h : CommitKeys inv ks)
    (hk : k ∈ ks) (e i : String) : k ≠ holdKey e i := by
  obtain ⟨e', s, rfl⟩ := h.seats k hk
  exact seatKey_ne_holdKey _ _ _ _

/-- The seats that were held and are sold. -/
def soldNow (r r' : Redis) : Set String :=
  {k | (r.seat k).status = some "HELD" ∧ (r'.seat k).status = some "SOLD"}

def Stock.total (s : Stock) : Int := s.available.getD 0 + s.held.getD 0 + s.sold.getD 0

structure CommitBooked (r : Redis) (inv : String) (ks : List String) (a : CommitLuaArgs) : Prop where
  idle : (∀ fields, (commitLua r inv ks a).1 ≠ .ok "SOLD" fields) →
    (soldNow r (commitLua r inv ks a).2).ncard = 0
  held : ((soldNow r (commitLua r inv ks a).2).ncard : Int) ≤ (r.stock inv).held.getD 0 →
    ((commitLua r inv ks a).2.stock inv).held.getD 0 =
      (r.stock inv).held.getD 0 - (soldNow r (commitLua r inv ks a).2).ncard
  sold : ((soldNow r (commitLua r inv ks a).2).ncard : Int) ≤ (r.stock inv).held.getD 0 →
    ((commitLua r inv ks a).2.stock inv).sold.getD 0 =
      (r.stock inv).sold.getD 0 + (soldNow r (commitLua r inv ks a).2).ncard
  total : ((soldNow r (commitLua r inv ks a).2).ncard : Int) ≤ (r.stock inv).held.getD 0 →
    ((commitLua r inv ks a).2.stock inv).total = (r.stock inv).total

def heldSeats (r : Redis) (ks : List String) : Nat :=
  (Keyed.hits ks r.seat fun v => v.status = some "HELD").card

section Counting

variable {r r' : Redis} {inv : String} {ks : List String} {a : CommitLuaArgs}

theorem soldNow_kept (h : r'.hashes = r.hashes) : (soldNow r r').ncard = 0 := by
  have hempty : soldNow r r' = ∅ := by
    refine Set.eq_empty_of_forall_notMem fun k hk => ?_
    have hseat : r'.seat k = r.seat k := by simp [Redis.seat, h]
    rw [soldNow, Set.mem_ofPred_eq, hseat] at hk
    exact absurd (hk.1.symm.trans hk.2) (by decide)
  rw [hempty, Set.ncard_empty]

theorem soldNow_writes (hkeys : CommitKeys inv ks) :
    (soldNow r (commitLuaWrites r inv ks a)).ncard = heldSeats r ks := by
  have hset : soldNow r (commitLuaWrites r inv ks a) =
      ↑(Keyed.hits ks r.seat fun v => v.status = some "HELD") := by
    ext k
    rw [Finset.mem_coe, Keyed.mem_hits, soldNow, Set.mem_ofPred_eq]
    constructor
    · rintro ⟨hheld, hsold⟩
      refine ⟨?_, hheld⟩
      by_contra hk
      by_cases hh : k = holdKey a.eventId a.holdId
      · have hgone : (commitLuaWrites r inv ks a).present k = false := by
          simp [present_commitLuaWrites, hh]
        rw [seat_of_absent hgone] at hsold
        cases hsold
      · rw [seat_commitLuaWrites r inv ks a hh, if_neg fun hkk => hk hkk.1] at hsold
        exact absurd (hheld.symm.trans hsold) (by decide)
    · rintro ⟨hk, hheld⟩
      refine ⟨hheld, ?_⟩
      rw [seat_commitLuaWrites r inv ks a (hkeys.seat_ne_holdKey hk _ _), if_pos ⟨hk, hheld⟩]
  rw [hset, Set.ncard_coe_finset]
  rfl

theorem commitLua_kept (h : ¬ CommitLuaSells r inv ks a) :
    (commitLua r inv ks a).2.hashes = r.hashes := by
  have hx := commitLua_outcome r inv ks a
  generalize commitLua r inv ks a = x at hx ⊢
  cases hx with
  | refused e _ => rfl
  | replayed _ _ => rfl
  | resold _ _ _ => exact hashes_commitLuaLedger r a
  | sold hs _ => exact absurd hs h
  | failed hs _ => exact absurd hs h

theorem commitBooked_of_not_sells (hs : ¬ CommitLuaSells r inv ks a) : CommitBooked r inv ks a := by
  have hkept := commitLua_kept hs
  have hn := soldNow_kept hkept
  have hstock : (commitLua r inv ks a).2.stock inv = r.stock inv := by simp [Redis.stock, hkept]
  refine ⟨fun _ => hn, ?_, ?_, ?_⟩
  · intro _
    rw [hstock, hn]
    omega
  · intro _
    rw [hstock, hn]
    omega
  · intro _
    rw [hstock]

theorem commitBooked_of_sells_iff (hkeys : CommitKeys inv ks) (hs : CommitLuaSells r inv ks a)
    (hfits : CommitLuaFits r inv ks) : CommitBooked r inv ks a ↔
      (r.stock inv).held.getD 0 < heldSeats r ks ∨ heldSeats r ks = ks.length := by
  obtain ⟨fields, hx⟩ := commitLua_sells hs hfits
  have hn : (soldNow r (commitLua r inv ks a).2).ncard = heldSeats r ks := by
    rw [hx]
    exact soldNow_writes hkeys
  have hstock : (commitLua r inv ks a).2.stock inv = ⟨(r.stock inv).available,
      clampedHeld (r.stock inv).held ks.length, some ((r.stock inv).sold.getD 0 + ks.length)⟩ := by
    rw [hx, stock_commitLuaWrites r inv ks a (hkeys.inv_ne_holdKey _ _), if_pos rfl]
  constructor
  · intro h
    by_cases hlt : (r.stock inv).held.getD 0 < heldSeats r ks
    · exact .inl hlt
    · have hsold := h.sold (by omega)
      rw [hstock, hn, Option.getD_some] at hsold
      exact .inr (by omega)
  · intro h
    have hexact (hcover : (heldSeats r ks : Int) ≤ (r.stock inv).held.getD 0) :
        (clampedHeld (r.stock inv).held ks.length).getD 0 =
          (r.stock inv).held.getD 0 - heldSeats r ks ∧ heldSeats r ks = ks.length := by
      have heq : heldSeats r ks = ks.length := h.resolve_left (by omega)
      have hpos : (0 : Int) < ks.length := by
        have hlen := List.length_pos_of_ne_nil hs.ready.seats
        omega
      rw [← (clampedHeld_eq_iff hpos).mpr (by omega), Option.getD_some]
      exact ⟨by omega, heq⟩
    refine ⟨fun hidle => absurd (congrArg Prod.fst hx) (hidle fields), ?_, ?_, ?_⟩
    · intro hcover
      rw [hn] at hcover ⊢
      rw [hstock]
      exact (hexact hcover).1
    · intro hcover
      rw [hn] at hcover ⊢
      rw [hstock, (hexact hcover).2, Option.getD_some]
    · intro hcover
      rw [hn] at hcover
      obtain ⟨hheld, heq⟩ := hexact hcover
      simp only [Stock.total, hstock, hheld, Option.getD_some]
      omega

theorem soldNow_stopped_pos (ts : Int) (hkeys : CommitKeys inv ks) (hs : CommitLuaSells r inv ks a) :
    0 < (soldNow r (execCommitLuaWrites inv ks a ts r).2).ncard := by
  have hlisted : soldNow r (execCommitLuaWrites inv ks a ts r).2 ⊆ ↑ks.toFinset := by
    rintro k ⟨hheld, hsold⟩
    rw [Finset.mem_coe, List.mem_toFinset]
    by_contra hk
    exact absurd (hheld.symm.trans (sold_before_of_unlisted hk hsold)) (by decide)
  obtain ⟨k, -, hheld, hsold⟩ : ∃ k ∈ ks, (r.seat k).status = some "HELD" ∧
      ((execCommitLuaWrites inv ks a ts r).2.seat k).status = some "SOLD" :=
    sold_of_execCommitLuaWrites (fun k hk => hkeys.seat_ne_holdKey hk a.eventId a.holdId) hs.held
  exact (Set.ncard_pos (ks.toFinset.finite_toSet.subset hlisted)).mpr ⟨k, hheld, hsold⟩

/-- A call that stops has sold a seat all the same. -/
theorem not_commitBooked_of_stopped (hkeys : CommitKeys inv ks) (hs : CommitLuaSells r inv ks a)
    (hfits : ¬ CommitLuaFits r inv ks) : ¬ CommitBooked r inv ks a := by
  intro h
  obtain ⟨e, hx⟩ := commitLua_stopped hs hfits
  have hidle := h.idle
  rw [hx] at hidle
  dsimp only at hidle
  have hpos := soldNow_stopped_pos (a.soldAtMs.getD r.now) hkeys hs
  have hzero := hidle nofun
  omega

/-- The script books what it sells exactly when it sells nothing, or when all its counters fit and the
counter does not cover the seats that it sells, or its keys are distinct and all held. -/
theorem commitLua_booked_iff (r : Redis) (a : CommitLuaArgs) (hkeys : CommitKeys inv ks) :
    CommitBooked r inv ks a ↔ ¬ CommitLuaSells r inv ks a ∨ CommitLuaFits r inv ks ∧
      ((r.stock inv).held.getD 0 < heldSeats r ks ∨
        ks.Nodup ∧ ∀ k ∈ ks, (r.seat k).status = some "HELD") := by
  have hall : heldSeats r ks = ks.length ↔ ks.Nodup ∧ ∀ k ∈ ks, (r.seat k).status = some "HELD" :=
    Keyed.hits_card_eq_length_iff ks r.seat _
  by_cases hs : CommitLuaSells r inv ks a
  · rw [or_iff_right (not_not.mpr hs), ← hall]
    by_cases hfits : CommitLuaFits r inv ks
    · rw [and_iff_right hfits]
      exact commitBooked_of_sells_iff hkeys hs hfits
    · exact iff_of_false (not_commitBooked_of_stopped hkeys hs hfits) fun h => hfits h.1
  · exact iff_of_true (commitBooked_of_not_sells hs) (.inl hs)

end Counting

section Demo

def demoLuaArgs : CommitLuaArgs := ⟨demoHold, demoUser, demoEvent, "", some 1000⟩

def demoSeatKeys : List String := [seatKey demoEvent demoSeat, seatKey demoEvent demoSeat']

theorem demoSeatKeys_families {ks : List String} (h : ∀ k ∈ ks, k ∈ demoSeatKeys) :
    CommitKeys (inventoryKey demoEvent demoVip) ks := by
  refine ⟨⟨_, _, rfl⟩, ?_⟩
  intro k hk
  rcases List.mem_cons.mp (h k hk) with rfl | hk
  · exact ⟨_, _, rfl⟩
  · exact ⟨_, _, List.mem_singleton.mp hk⟩

def demoBothHeld : Redis := (holdSrc demoRedis (inventoryKey demoEvent demoVip) demoSeatKeys demoHoldArgs).2

def demoOneSold : Redis :=
  (commitLua demoBothHeld (inventoryKey demoEvent demoVip) [seatKey demoEvent demoSeat] demoLuaArgs).2

theorem demo_commit_booked :
    CommitBooked demoBothHeld (inventoryKey demoEvent demoVip) demoSeatKeys demoLuaArgs := by
  refine (commitLua_booked_iff _ _ (demoSeatKeys_families fun _ hk => hk)).mpr (.inr ⟨?_, .inr ⟨?_, ?_⟩⟩)
  · constructor <;> decide +kernel
  · decide +kernel
  · decide +kernel

theorem demoOneSold_sells :
    CommitLuaSells demoOneSold (inventoryKey demoEvent demoVip) demoSeatKeys demoLuaArgs where
  ready := by constructor <;> decide +kernel
  fresh := by decide +kernel
  seats := by decide +kernel
  held := by decide +kernel

/-- Selling the second of two seats books two. -/
theorem partial_replay_misbooked : ¬ ∀ (r : Redis) (inv : String) (ks : List String) (a : CommitLuaArgs),
    CommitKeys inv ks → CommitBooked r inv ks a := by
  intro h
  have hkeys : CommitKeys (inventoryKey demoEvent demoVip) demoSeatKeys :=
    demoSeatKeys_families fun _ hk => hk
  have hbooked := h demoOneSold _ demoSeatKeys demoLuaArgs hkeys
  have hfits : CommitLuaFits demoOneSold (inventoryKey demoEvent demoVip) demoSeatKeys := by
    constructor <;> decide +kernel
  obtain ⟨fields, hx⟩ := commitLua_sells demoOneSold_sells hfits
  have hn : (soldNow demoOneSold (commitLua demoOneSold (inventoryKey demoEvent demoVip) demoSeatKeys
      demoLuaArgs).2).ncard = 1 := by
    rw [hx, soldNow_writes hkeys]
    decide +kernel
  have hcover : (1 : Int) ≤ (demoOneSold.stock (inventoryKey demoEvent demoVip)).held.getD 0 := by
    decide +kernel
  have hsold := hbooked.sold (by rw [hn]; exact hcover)
  rw [hn] at hsold
  exact absurd hsold (by decide +kernel)

end Demo

end CrowdTic
