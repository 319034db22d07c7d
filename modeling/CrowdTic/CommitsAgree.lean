import CrowdTic.CommitLua

/-! The embedded commit script beside `redis/lua/commit.lua`: the calls on which
the two have the same outcome. -/

namespace CrowdTic

def Reply.isOk : Reply → Bool
  | .ok _ _ => true
  | .err _ => false

/-- What both scripts must leave behind alike. -/
structure SameOutcome (a : CommitArgs) (r r' : Redis) : Prop where
  status : ∀ k, (r.seat k).status = (r'.seat k).status
  stock : ∀ k, r.stock k = r'.stock k
  ledger : r.strings.get (orderHoldKey a.eventId a.holdId) =
    r'.strings.get (orderHoldKey a.eventId a.holdId)
  reverse : r.strings.get (orderKey a.eventId a.orderId) =
    r'.strings.get (orderKey a.eventId a.orderId)
  holds : ∀ e h, r.present (holdKey e h) = r'.present (holdKey e h)

def CommitsAgree (r : Redis) (inv : String) (ks : List String) (a : CommitArgs) : Prop :=
  let embedded := execCommit r inv ks a
  let standalone := commitLua r inv ks a.lua
  embedded.1.isOk = standalone.1.isOk ∧
    (embedded.1.isOk = true → SameOutcome a embedded.2 standalone.2)

/-- The two agree on a replay that the ledger answers, on a refusal, on a sale of some held seat that
the held counter covers, and where both stop in their writes. -/
def CommitsMatch (r : Redis) (inv : String) (ks : List String) (a : CommitArgs) : Prop :=
  if ks = [] then ledger r a = none ∧ ¬ CommitFits r inv ks
  else
    ledger r a ≠ none ∨ r.strings.get (orderKey a.eventId a.orderId) ≠ some a.holdId ∧
      (commitRefusal r ks a ≠ none ∨ (∃ k ∈ ks, (r.seat k).status = some "HELD") ∧
        (CommitFits r inv ks ∧ CommitLuaFits r inv ks ∧
            ((ks.length : Int) ≤ (r.stock inv).held.getD 0 ∨ inv = holdKey a.eventId a.holdId) ∨
          ¬ CommitFits r inv ks ∧ ¬ CommitLuaFits r inv ks))

/-- The arguments that the claim of both scripts' callers gives: no id is empty. -/
structure CommitArgs.Filled (a : CommitArgs) : Prop where
  holdId : a.holdId ≠ ""
  userId : a.userId ≠ ""
  eventId : a.eventId ≠ ""
  orderId : a.orderId ≠ ""

section Standalone

variable {r : Redis} {inv : String} {ks : List String} {a : CommitArgs}

theorem CommitArgs.Filled.ready (ha : a.Filled) (hks : ks ≠ []) (hinv : r.present inv = true) :
    CommitLuaReady r inv ks a.lua :=
  ⟨ha.holdId, ha.userId, ha.eventId, hks, hinv⟩

theorem commitLua_replayed (ha : a.Filled) (hks : ks ≠ []) (hinv : r.present inv = true)
    (h : ledger r a ≠ none ∨ r.strings.get (orderKey a.eventId a.orderId) = some a.holdId) :
    ∃ fields, commitLua r inv ks a.lua = (.ok "ALREADY_COMMITTED" fields, r) := by
  have hreplay : ∃ existing, commitLuaReplay r a.lua = some existing := by
    cases hl : r.strings.get (orderHoldKey a.eventId a.holdId) with
    | some existing => exact ⟨existing, by simp [commitLuaReplay, CommitArgs.lua, ha.orderId, hl]⟩
    | none =>
      have hrev := h.resolve_left (not_not.mpr hl)
      exact ⟨a.orderId, by simp [commitLuaReplay, CommitArgs.lua, ha.orderId, hl, hrev]⟩
  obtain ⟨existing, he⟩ := hreplay
  exact commitLua_replay (ha.ready hks hinv) he

theorem commitLuaReplay_eq_none (hl : ledger r a = none)
    (hr : r.strings.get (orderKey a.eventId a.orderId) ≠ some a.holdId) :
    commitLuaReplay r a.lua = none := by
  have hl' : r.strings.get (orderHoldKey a.eventId a.holdId) = none := hl
  simp [commitLuaReplay, CommitArgs.lua, hl', hr]

theorem commitLua_refused (hl : ledger r a = none)
    (hr : r.strings.get (orderKey a.eventId a.orderId) ≠ some a.holdId)
    (hc : commitRefusal r ks a ≠ none) : (commitLua r inv ks a.lua).1.isOk = false := by
  have hfresh := commitLuaReplay_eq_none hl hr
  have hx := commitLua_outcome r inv ks a.lua
  generalize commitLua r inv ks a.lua = x at hx ⊢
  cases hx with
  | refused e _ => rfl
  | replayed _ h => cases hfresh.symm.trans h
  | resold _ _ hsold => exact absurd (commitRefusal_eq_none_iff.mpr fun k hk => .inr (hsold k hk)) hc
  | sold h _ => exact absurd (commitRefusal_eq_none_iff.mpr h.seats) hc
  | failed _ _ => rfl

/-- Past its seat loop the script only fills in the ledger when every seat is sold already. -/
theorem commitLua_resold (ha : a.Filled) (hks : ks ≠ []) (hinv : r.present inv = true)
    (hl : ledger r a = none) (hr : r.strings.get (orderKey a.eventId a.orderId) ≠ some a.holdId)
    (hc : commitRefusal r ks a = none) (hheld : ¬ ∃ k ∈ ks, (r.seat k).status = some "HELD") :
    ∃ fields, commitLua r inv ks a.lua = (.ok "ALREADY_COMMITTED" fields, commitLuaLedger r a.lua) := by
  refine commitLua_resale (ha.ready hks hinv) (commitLuaReplay_eq_none hl hr) ?_
  intro k hk
  refine (commitRefusal_eq_none_iff.mp hc k hk).resolve_left fun hseat => hheld ⟨k, hk, ?_⟩
  simp [hseat, Seat.held]

end Standalone

theorem clampedHeld_eq_iff {held : Option Int} {need : Int} (hn : 0 < need) :
    some (held.getD 0 - need) = clampedHeld held need ↔ need ≤ held.getD 0 := by
  unfold clampedHeld commitLuaDecr
  by_cases hlt : held.getD 0 < need
  · rw [if_pos hlt]
    by_cases hpos : 0 < held.getD 0
    · rw [if_pos hpos, Option.some.injEq]
      omega
    · rw [if_neg hpos]
      refine iff_of_false (fun he => ?_) (by omega)
      have hh := congrArg (Option.getD · 0) he
      simp only [Option.getD_some] at hh
      omega
  · rw [if_neg hlt, if_pos hn]
    exact iff_of_true rfl (by omega)

section Writes

variable (r : Redis) (inv : String) {ks : List String} {a : CommitArgs}

theorem sameOutcome_writes_iff (ha : a.Filled) (hks : ks ≠ []) :
    SameOutcome a (commitWrites r inv ks a) (commitLuaWrites r inv ks a.lua) ↔
      (ks.length : Int) ≤ (r.stock inv).held.getD 0 ∨ inv = holdKey a.eventId a.holdId := by
  have hlen : (0 : Int) < ks.length := by
    have hpos := List.length_pos_of_ne_nil hks
    omega
  constructor
  · intro h
    by_contra hc
    obtain ⟨hheld, hne⟩ := not_or.mp hc
    have hs := h.stock inv
    rw [stock_commitWrites r inv ks a hne, stock_commitLuaWrites r inv ks a.lua hne, if_pos rfl,
      if_pos rfl] at hs
    exact hheld ((clampedHeld_eq_iff hlen).mp (congrArg Stock.held hs))
  · intro h
    have hp (j : String) : (commitWrites r inv ks a).present j =
        (commitLuaWrites r inv ks a.lua).present j := by
      rw [present_commitWrites, present_commitLuaWrites]
      rfl
    have hgone (j : String) (hj : j = holdKey a.eventId a.holdId) :
        (commitWrites r inv ks a).present j = false := by
      simp [present_commitWrites, hj]
    refine ⟨fun k => ?_, fun k => ?_, ?_, ?_, fun e i => hp _⟩
    · by_cases hk : k = holdKey a.eventId a.holdId
      · rw [seat_of_absent (hgone k hk), seat_of_absent ((hp k).symm.trans (hgone k hk))]
      · rw [seat_commitWrites r inv ks a hk, seat_commitLuaWrites r inv ks a.lua hk]
    · by_cases hk : k = holdKey a.eventId a.holdId
      · rw [stock_of_absent (hgone k hk), stock_of_absent ((hp k).symm.trans (hgone k hk))]
      · rw [stock_commitWrites r inv ks a hk, stock_commitLuaWrites r inv ks a.lua hk]
        by_cases hi : k = inv
        · have hheld := h.resolve_right fun he => hk (hi.trans he)
          rw [if_pos hi, if_pos hi, (clampedHeld_eq_iff hlen).mpr hheld]
        · rw [if_neg hi, if_neg hi]
    · rw [strings_commitWrites, strings_commitLuaWrites r inv ks a.lua ha.orderId]
      rfl
    · rw [strings_commitWrites, strings_commitLuaWrites r inv ks a.lua ha.orderId]
      rfl

theorem not_sameOutcome_kept {r' : Redis} (hks : ks ≠ []) (hinv : r.present inv = true)
    (hkept : r'.hashes = r.hashes) : ¬ SameOutcome a (commitWrites r inv ks a) r' := by
  have hpos := List.length_pos_of_ne_nil hks
  intro h
  by_cases hi : inv = holdKey a.eventId a.holdId
  · have hh := h.holds a.eventId a.holdId
    rw [← hi, Redis.present, Redis.present, hkept] at hh
    have hgone : (commitWrites r inv ks a).present inv = false := by
      simp [present_commitWrites, hi]
    have hkeep : (commitWrites r inv ks a).present inv = true := by
      rw [Redis.present, hh]
      exact hinv
    exact absurd (hgone.symm.trans hkeep) (by decide)
  · have hs := h.stock inv
    have hr : r'.stock inv = r.stock inv := by simp [Redis.stock, hkept]
    rw [stock_commitWrites r inv ks a hi, if_pos rfl, hr] at hs
    have hsold := congrArg (fun x => (Stock.sold x).getD 0) hs
    simp only [Option.getD_some] at hsold
    omega

end Writes

variable {r : Redis} {inv : String} {ks : List String} {a : CommitArgs}

theorem commits_agree_empty (ha : a.Filled) :
    CommitsAgree r inv [] a ↔ ledger r a = none ∧ ¬ CommitFits r inv [] := by
  have hlua : (commitLua r inv [] a.lua).1.isOk = false := by
    simp [commitLua, CommitArgs.lua, ha.holdId, ha.userId, ha.eventId, Reply.isOk]
  rw [CommitsAgree, hlua]
  cases hl : ledger r a with
  | some existing => simp [execCommit_replayed hl, Reply.isOk]
  | none =>
    have hruns : CommitRuns r [] a := ⟨hl, rfl⟩
    by_cases hfits : CommitFits r inv []
    · simp [execCommit_made hruns hfits, hfits, Reply.isOk]
    · obtain ⟨e, r', hx⟩ := execCommit_stopped hruns hfits
      simp [hx, hfits, Reply.isOk]

/-- The embedded script goes to its writes, and the other answers without them. -/
theorem not_commitsAgree_kept (hks : ks ≠ []) (hinv : r.present inv = true) (hruns : CommitRuns r ks a)
    {fields : List (String × String)} {r' : Redis}
    (hx : commitLua r inv ks a.lua = (.ok "ALREADY_COMMITTED" fields, r')) (hkept : r'.hashes = r.hashes) :
    ¬ CommitsAgree r inv ks a := by
  rw [CommitsAgree, hx]
  rintro ⟨hok, hsame⟩
  by_cases hfits : CommitFits r inv ks
  · rw [execCommit_made hruns hfits] at hsame
    exact not_sameOutcome_kept r inv hks hinv hkept (hsame rfl)
  · obtain ⟨e, r'', hemb⟩ := execCommit_stopped hruns hfits
    rw [hemb] at hok
    cases hok

/-- Past the checks of the embedded script, with the reverse entry absent. -/
theorem commits_agree_on_writes (ha : a.Filled) (hks : ks ≠ []) (hinv : r.present inv = true)
    (hruns : CommitRuns r ks a) (hr : r.strings.get (orderKey a.eventId a.orderId) ≠ some a.holdId) :
    CommitsAgree r inv ks a ↔ (∃ k ∈ ks, (r.seat k).status = some "HELD") ∧
      (CommitFits r inv ks ∧ CommitLuaFits r inv ks ∧
          ((ks.length : Int) ≤ (r.stock inv).held.getD 0 ∨ inv = holdKey a.eventId a.holdId) ∨
        ¬ CommitFits r inv ks ∧ ¬ CommitLuaFits r inv ks) := by
  by_cases hheld : ∃ k ∈ ks, (r.seat k).status = some "HELD"
  · rw [CommitsAgree, and_iff_right hheld]
    have hsells : CommitLuaSells r inv ks a.lua :=
      ⟨ha.ready hks hinv, commitLuaReplay_eq_none hruns.1 hr, commitRefusal_eq_none_iff.mp hruns.2, hheld⟩
    have hiff := sameOutcome_writes_iff r inv ha hks
    by_cases hfits : CommitFits r inv ks
    · by_cases hlua : CommitLuaFits r inv ks
      · obtain ⟨fields, hx⟩ := commitLua_sells hsells hlua
        simpa [execCommit_made hruns hfits, hx, hfits, hlua, Reply.isOk] using hiff
      · obtain ⟨e, hx⟩ := commitLua_stopped hsells hlua
        simp [execCommit_made hruns hfits, hx, hfits, hlua, Reply.isOk]
    · obtain ⟨e, r', hemb⟩ := execCommit_stopped hruns hfits
      by_cases hlua : CommitLuaFits r inv ks
      · obtain ⟨fields, hx⟩ := commitLua_sells hsells hlua
        simp [hemb, hx, hfits, hlua, Reply.isOk]
      · obtain ⟨e', hx⟩ := commitLua_stopped hsells hlua
        simp [hemb, hx, hfits, hlua, Reply.isOk]
  · obtain ⟨fields, hx⟩ := commitLua_resold ha hks hinv hruns.1 hr hruns.2 hheld
    refine iff_of_false ?_ fun h => hheld h.1
    exact not_commitsAgree_kept hks hinv hruns hx (hashes_commitLuaLedger r a.lua)

/-- The two commit scripts agree exactly on the calls that match. -/
theorem commits_agree_iff (ha : a.Filled) (hinv : r.present inv = true) :
    CommitsAgree r inv ks a ↔ CommitsMatch r inv ks a := by
  rw [CommitsMatch]
  by_cases hks : ks = []
  · subst hks
    rw [if_pos rfl]
    exact commits_agree_empty ha
  · rw [if_neg hks]
    cases hl : ledger r a with
    | some existing =>
      obtain ⟨fields, hx⟩ := commitLua_replayed ha hks hinv (.inl (by simp [hl]))
      rw [CommitsAgree, hx, execCommit_replayed hl]
      exact iff_of_true ⟨rfl, fun _ => ⟨fun _ => rfl, fun _ => rfl, rfl, rfl, fun _ _ => rfl⟩⟩
        (.inl (by simp))
    | none =>
      rw [or_iff_right (by simp)]
      cases hc : commitRefusal r ks a with
      | some e =>
        rw [CommitsAgree, execCommit_refused hl hc]
        by_cases hr : r.strings.get (orderKey a.eventId a.orderId) = some a.holdId
        · obtain ⟨fields, hx⟩ := commitLua_replayed ha hks hinv (.inr hr)
          rw [hx]
          simp [Reply.isOk, hr]
        · have hx : (commitLua r inv ks a.lua).1.isOk = false := commitLua_refused hl hr (by simp [hc])
          rw [hx]
          simp [hr, Reply.isOk]
      | none =>
        have hruns : CommitRuns r ks a := ⟨hl, hc⟩
        by_cases hr : r.strings.get (orderKey a.eventId a.orderId) = some a.holdId
        · obtain ⟨fields, hx⟩ := commitLua_replayed ha hks hinv (.inr hr)
          exact iff_of_false (not_commitsAgree_kept hks hinv hruns hx rfl) fun h => h.1 hr
        · rw [and_iff_right hr, or_iff_right (by simp)]
          exact commits_agree_on_writes ha hks hinv hruns hr

section Demo

def demoRedisSold : Redis where
  hashes := fun k =>
    if k = inventoryKey demoEvent demoVip then
      some ⟨((demoInventory 2).setNum .available (some 1)).setNum .sold (some 1), none⟩
    else if k = seatKey demoEvent demoSeat then
      some ⟨((Hash.empty.setText .status (some "SOLD")).setText .heldBy (some demoUser)).setText
        .holdId (some demoHold), none⟩
    else none
  counters := fun _ => none
  strings := fun _ => none
  now := 86401000

theorem demoCommitArgs_filled : demoCommitArgs.Filled := by
  constructor <;> decide

def demoHeld : Redis :=
  (holdSrc demoRedis (inventoryKey demoEvent demoVip) [seatKey demoEvent demoSeat] demoHoldArgs).2

theorem commits_agree_on_sale :
    CommitsAgree demoHeld (inventoryKey demoEvent demoVip) [seatKey demoEvent demoSeat] demoCommitArgs := by
  refine (commits_agree_iff demoCommitArgs_filled (by decide +kernel)).mpr ?_
  rw [CommitsMatch, if_neg (by simp)]
  refine .inr ⟨by decide +kernel, .inr ⟨⟨_, List.mem_singleton.mpr rfl, by decide +kernel⟩, .inl ⟨?_, ?_, ?_⟩⟩⟩
  · constructor <;> decide +kernel
  · constructor <;> decide +kernel
  · exact .inl (by decide +kernel)

/-- The embedded script sells the seats of a sold hold a second time. -/
theorem late_retry_sells_again : ¬ ∀ (r : Redis) (inv : String) (ks : List String) (a : CommitArgs),
    a.Filled → r.present inv = true → CommitsAgree r inv ks a := by
  intro h
  have hh := h demoRedisSold (inventoryKey demoEvent demoVip) [seatKey demoEvent demoSeat]
    demoCommitArgs demoCommitArgs_filled (by decide +kernel)
  have hstock := (hh.2 (by decide +kernel)).stock (inventoryKey demoEvent demoVip)
  exact absurd (congrArg Stock.sold hstock) (by decide +kernel)

end Demo

end CrowdTic
