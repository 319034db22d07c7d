import CrowdTic.ScriptErrors

/-! The standalone commit script (`redis/lua/commit.lua`), command by command,
and what its writes do to seats, inventory counters and ledger entries. -/

namespace CrowdTic

open Remote

/-- An order id that is absent is empty. -/
structure CommitLuaArgs where
  holdId : String
  userId : String
  eventId : String
  orderId : String
  soldAtMs : Option Int

/-- The seat loop, with the number of seats that it has found sold to this hold. -/
def commitLuaSeats (r : Redis) (a : CommitLuaArgs) (holdExists : Bool) :
    Nat → List String → Except String Nat
  | alreadySold, [] => .ok alreadySold
  | alreadySold, k :: ks =>
    let st := r.hashes.hget k .status
    let hid := r.hashes.hget k .holdId
    let hb := r.hashes.hget k .heldBy
    if st = some "SOLD" then
      if hid = some a.holdId ∧ hb = some a.userId then
        commitLuaSeats r a holdExists (alreadySold + 1) ks
      else .error ("SEAT_ALREADY_SOLD:" ++ k)
    else if st ≠ some "HELD" then
      if holdExists = false ∧ alreadySold = 0 then .error "HOLD_NOT_FOUND"
      else .error ("SEAT_NOT_HELD:" ++ k ++ ":" ++ st.getD "nil")
    else if hid ≠ some a.holdId then .error ("HOLD_MISMATCH:" ++ k)
    else if hb ≠ some a.userId then .error ("USER_MISMATCH:" ++ k)
    else commitLuaSeats r a holdExists alreadySold ks

def execCommitLuaSeat (a : CommitLuaArgs) (ts : Int) (k : String) : Script Unit := fun r =>
  if r.hashes.hget k .status = some "HELD" then
    (do
      Script.write fun r => ((((r.hset k .status "SOLD").hsetNum k .soldAt ts).hset k .soldBy
        a.userId).hdelNum k .expiresAt).persist k
      Script.hincrby k .version 1 : Script Unit) r
  else (.ok (), r)

def commitLuaLedger (r : Redis) (a : CommitLuaArgs) : Redis :=
  if a.orderId = "" then r
  else
    let r := r.setEx (orderHoldKey a.eventId a.holdId) a.orderId daySec
    r.setEx (orderKey a.eventId a.orderId) a.holdId daySec

/-- The decrement of `held`, clamped to what is there. -/
def commitLuaDecr (heldVal need : Int) : Int := if heldVal < need then heldVal else need

def execCommitLuaCounters (invKey : String) (need : Int) : Script Unit := fun r =>
  let decr := commitLuaDecr ((r.hashes.hgetNum invKey .held).getD 0) need
  (do
    (if 0 < decr then Script.hincrby invKey .held (-decr) else pure ())
    Script.hincrby invKey .sold need : Script Unit) r

def execCommitLuaWrites (invKey : String) (seatKeys : List String) (a : CommitLuaArgs) (ts : Int) :
    Script Unit := do
  seatKeys.forM (execCommitLuaSeat a ts)
  execCommitLuaCounters invKey seatKeys.length
  Script.write fun r => commitLuaLedger (r.del (holdKey a.eventId a.holdId)) a

/-- The order that an earlier commit of this hold, or of this order id, has left. -/
def commitLuaReplay (r : Redis) (a : CommitLuaArgs) : Option String :=
  if a.orderId = "" then none
  else
    match r.strings.get (orderHoldKey a.eventId a.holdId) with
    | some existing => some existing
    | none =>
      if r.strings.get (orderKey a.eventId a.orderId) = some a.holdId then some a.orderId else none

def commitLua (r : Redis) (invKey : String) (seatKeys : List String) (a : CommitLuaArgs) :
    Reply × Redis :=
  if a.holdId = "" then (.err "HOLD_ID_REQUIRED", r)
  else if a.userId = "" then (.err "USER_ID_REQUIRED", r)
  else if a.eventId = "" then (.err "EVENT_ID_REQUIRED", r)
  else if seatKeys.length = 0 then (.err "NO_SEATS", r)
  else if r.hashes.get invKey = none then (.err "INV_NOT_FOUND", r)
  else
    match commitLuaReplay r a with
    | some existing => (.ok "ALREADY_COMMITTED" [("order_id", existing), ("hold_id", a.holdId)], r)
    | none =>
      let holdExists := (r.hashes.get (holdKey a.eventId a.holdId)).isSome
      let fields := [("hold_id", a.holdId), ("seats", toString seatKeys.length),
        ("order_id", a.orderId)]
      match commitLuaSeats r a holdExists 0 seatKeys with
      | .error e => (.err e, r)
      | .ok alreadySold =>
        if alreadySold = seatKeys.length then (.ok "ALREADY_COMMITTED" fields, commitLuaLedger r a)
        else
          (execCommitLuaWrites invKey seatKeys a (a.soldAtMs.getD r.now)).reply (.ok "SOLD" fields) r

/-- The embedded script's arguments as this one takes them. -/
def CommitArgs.lua (a : CommitArgs) : CommitLuaArgs :=
  ⟨a.holdId, a.userId, a.eventId, a.orderId, some a.soldAt⟩

section Seats

variable (r : Redis) (a : CommitLuaArgs) (holdExists : Bool)

def soldSeats (ks : List String) : Nat :=
  (ks.filter fun k => r.hashes.hget k .status = some "SOLD").length

theorem commitLuaSeats_eq_ok_iff (n m : Nat) (ks : List String) :
    commitLuaSeats r a holdExists n ks = .ok m ↔
      (∀ k ∈ ks, r.seat k = .held a.userId a.holdId ∨ r.seat k = .sold a.userId a.holdId) ∧
        m = n + soldSeats r ks := by
  induction ks generalizing n with
  | nil => simp [commitLuaSeats, soldSeats, eq_comm]
  | cons k ks ih =>
    rw [List.forall_mem_cons]
    by_cases hs : r.hashes.hget k .status = some "SOLD"
    · have hcount : soldSeats r (k :: ks) = soldSeats r ks + 1 := by simp [soldSeats, hs]
      have hseat : (r.seat k = .held a.userId a.holdId ∨ r.seat k = .sold a.userId a.holdId) ↔
          r.hashes.hget k .holdId = some a.holdId ∧ r.hashes.hget k .heldBy = some a.userId := by
        simp [Redis.seat, Seat.held, Seat.sold, hs, and_comm]
      rw [commitLuaSeats, if_pos hs, hcount, hseat]
      by_cases hh : r.hashes.hget k .holdId = some a.holdId ∧ r.hashes.hget k .heldBy = some a.userId
      · rw [if_pos hh, ih, and_iff_right hh]
        refine and_congr_right fun _ => ?_
        omega
      · simp [hh]
    · have hcount : soldSeats r (k :: ks) = soldSeats r ks := by simp [soldSeats, hs]
      have hseat : (r.seat k = .held a.userId a.holdId ∨ r.seat k = .sold a.userId a.holdId) ↔
          r.hashes.hget k .status = some "HELD" ∧ r.hashes.hget k .holdId = some a.holdId ∧
            r.hashes.hget k .heldBy = some a.userId := by
        simp only [Redis.seat, Seat.held, Seat.sold, Seat.mk.injEq, hs, false_and, or_false]
        tauto
      rw [commitLuaSeats, if_neg hs, hcount, hseat]
      by_cases hh : r.hashes.hget k .status = some "HELD"
      · by_cases h1 : r.hashes.hget k .holdId = some a.holdId
        · by_cases h2 : r.hashes.hget k .heldBy = some a.userId
          · simp [hh, h1, h2, ih]
          · simp [hh, h1, h2]
        · simp [hh, h1]
      · by_cases h0 : holdExists = false ∧ n = 0
        · simp [hh, h0]
        · simp [hh, h0]

end Seats

/-- A hash stands under the key. -/
def Redis.present (r : Redis) (k : String) : Bool := (r.hashes.get k).isSome

theorem seat_of_absent {r : Redis} {k : String} (h : r.present k = false) : r.seat k = .gone := by
  have hn : r.hashes.get k = none := by simpa [Redis.present] using h
  simp [Redis.seat, Hashes.hget, hn, Seat.gone]

theorem stock_of_absent {r : Redis} {k : String} (h : r.present k = false) :
    r.stock k = ⟨none, none, none⟩ := by
  have hn : r.hashes.get k = none := by simpa [Redis.present] using h
  simp [Redis.stock, Hashes.hgetNum, hn]

theorem present_of_status {r : Redis} {k s : String} (h : r.hashes.hget k .status = some s) :
    r.present k = true := by
  cases hg : r.hashes.get k with
  | none => simp [Hashes.hget, hg] at h
  | some v => simp [Redis.present, hg]

theorem present_commitSeat (a : CommitArgs) (r : Redis) (k j : String) :
    (commitSeat a r k).present j = r.present j := by
  by_cases h : r.hashes.hget k .status = some "HELD"
  · by_cases hj : j = k
    · subst hj
      rw [present_of_status h]
      simp [commitSeat, h, Redis.present, Hashes.hset, Hashes.hsetNum]
    · simp [commitSeat, h, Redis.present, Hashes.hset, Hashes.hsetNum, hj]
  · simp [commitSeat, h]

theorem present_commitWrites (r : Redis) (inv : String) (ks : List String) (a : CommitArgs)
    (j : String) : (commitWrites r inv ks a).present j =
      (j ≠ holdKey a.eventId a.holdId && (j = inv || r.present j)) := by
  have hl : (ks.foldl (commitSeat a) r).present j = r.present j :=
    Keyed.foldl_unchanged (Redis.present · j) (fun s k => present_commitSeat a s k j) ks r
  rw [← hl]
  by_cases hh : j = holdKey a.eventId a.holdId
  · simp [commitWrites, Redis.present, hh]
  · by_cases hi : j = inv
    · subst hi
      simp [commitWrites, Redis.present, Hashes.hincrby, Hashes.hsetNum, hh]
    · simp [commitWrites, Redis.present, Hashes.hincrby, Hashes.hsetNum, hh, hi]

def commitLuaSeat (a : CommitLuaArgs) (ts : Int) (r : Redis) (k : String) : Redis :=
  if r.hashes.hget k .status = some "HELD" then
    let r := ((r.hset k .status "SOLD").hsetNum k .soldAt ts).hset k .soldBy a.userId
    ((r.hdelNum k .expiresAt).persist k).hincrby k .version 1
  else r

def commitLuaCounters (r : Redis) (invKey : String) (need : Int) : Redis :=
  let decr := commitLuaDecr ((r.hashes.hgetNum invKey .held).getD 0) need
  let r := if 0 < decr then r.hincrby invKey .held (-decr) else r
  r.hincrby invKey .sold need

/-- The writes of a commit in which no command fails. -/
def commitLuaWrites (r : Redis) (invKey : String) (seatKeys : List String) (a : CommitLuaArgs) :
    Redis :=
  let ts := a.soldAtMs.getD r.now
  let r := seatKeys.foldl (commitLuaSeat a ts) r
  let r := commitLuaCounters r invKey seatKeys.length
  commitLuaLedger (r.del (holdKey a.eventId a.holdId)) a

section Effects

variable (r : Redis) (inv : String) (ks : List String) (a : CommitLuaArgs) (ts : Int) (k : String)
  {j : String}

theorem present_commitLuaSeat : (commitLuaSeat a ts r k).present j = r.present j := by
  by_cases h : r.hashes.hget k .status = some "HELD"
  · by_cases hj : j = k
    · subst hj
      rw [present_of_status h]
      simp [commitLuaSeat, h, Redis.present, Hashes.hset, Hashes.hsetNum, Hashes.hdelNum,
        Hashes.hincrby]
    · simp [commitLuaSeat, h, Redis.present, Hashes.hset, Hashes.hsetNum, Hashes.hdelNum,
        Hashes.hincrby, hj]
  · simp [commitLuaSeat, h]

theorem seat_commitLuaSeat : (commitLuaSeat a ts r k).seat j =
    if j = k then (committed (r.seat j, none)).1 else r.seat j := by
  by_cases h : r.hashes.hget k .status = some "HELD"
  · by_cases hj : j = k
    · subst hj
      simp [commitLuaSeat, committed, Redis.seat, h]
    · simp [commitLuaSeat, Redis.seat, h, hj]
  · by_cases hj : j = k
    · subst hj
      simp [commitLuaSeat, committed, Redis.seat, h]
    · simp [commitLuaSeat, h, hj]

theorem stock_commitLuaSeat : (commitLuaSeat a ts r k).stock j = r.stock j := by
  by_cases h : r.hashes.hget k .status = some "HELD" <;> simp [commitLuaSeat, Redis.stock, h]

theorem strings_commitLuaSeat : (commitLuaSeat a ts r k).strings = r.strings := by
  by_cases h : r.hashes.hget k .status = some "HELD" <;> simp [commitLuaSeat, h]

theorem hashes_commitLuaLedger : (commitLuaLedger r a).hashes = r.hashes := by
  by_cases h : a.orderId = "" <;> simp [commitLuaLedger, h]

theorem strings_commitLuaLedger (ho : a.orderId ≠ "") : (commitLuaLedger r a).strings.get j =
    if j = orderKey a.eventId a.orderId then some a.holdId
    else if j = orderHoldKey a.eventId a.holdId then some a.orderId
    else r.strings.get j := by
  simp [commitLuaLedger, ho]

/-- What is left of `held` after a decrement that stops at 0. -/
def clampedHeld (held : Option Int) (need : Int) : Option Int :=
  if 0 < commitLuaDecr (held.getD 0) need then some (held.getD 0 - commitLuaDecr (held.getD 0) need)
  else held

theorem stock_commitLuaCounters (need : Int) : (commitLuaCounters r inv need).stock j =
    if j = inv then ⟨(r.stock inv).available, clampedHeld (r.stock inv).held need,
      some ((r.stock inv).sold.getD 0 + need)⟩
    else r.stock j := by
  unfold commitLuaCounters clampedHeld
  by_cases hd : 0 < commitLuaDecr ((r.hashes.hgetNum inv .held).getD 0) need
  · by_cases hj : j = inv <;> simp [Redis.stock, hd, hj, sub_eq_add_neg]
  · by_cases hj : j = inv <;> simp [Redis.stock, hd, hj]

theorem seat_commitLuaCounters (need : Int) : (commitLuaCounters r inv need).seat j = r.seat j := by
  unfold commitLuaCounters
  by_cases hd : 0 < commitLuaDecr ((r.hashes.hgetNum inv .held).getD 0) need <;> simp [Redis.seat, hd]

theorem present_commitLuaCounters (need : Int) :
    (commitLuaCounters r inv need).present j = (j = inv || r.present j) := by
  unfold commitLuaCounters
  by_cases hd : 0 < commitLuaDecr ((r.hashes.hgetNum inv .held).getD 0) need <;>
    by_cases hj : j = inv <;>
      simp [Redis.present, Hashes.hincrby, Hashes.hsetNum, hd, hj]

theorem strings_commitLuaCounters (need : Int) :
    (commitLuaCounters r inv need).strings = r.strings := by
  unfold commitLuaCounters
  by_cases hd : 0 < commitLuaDecr ((r.hashes.hgetNum inv .held).getD 0) need <;> simp [hd]

theorem seat_commitLuaWrites (hj : j ≠ holdKey a.eventId a.holdId) :
    (commitLuaWrites r inv ks a).seat j =
      if j ∈ ks ∧ (r.seat j).status = some "HELD" then { r.seat j with status := some "SOLD" }
      else r.seat j := by
  have hl := Keyed.foldl_view Redis.seat (g := commitLuaSeat a (a.soldAtMs.getD r.now))
    (φ := fun v => (committed (v, none)).1)
    (fun v => by by_cases h : v.status = some "HELD" <;> simp [committed, h])
    (fun s k i => seat_commitLuaSeat s a _ k (j := i)) ks r j
  have hw : (commitLuaWrites r inv ks a).seat j =
      (ks.foldl (commitLuaSeat a (a.soldAtMs.getD r.now)) r).seat j := by
    have hc := seat_commitLuaCounters (ks.foldl (commitLuaSeat a (a.soldAtMs.getD r.now)) r) inv
      ks.length (j := j)
    rw [← hc]
    simp [commitLuaWrites, Redis.seat, hashes_commitLuaLedger, hj]
  rw [hw, hl]
  by_cases hk : j ∈ ks <;> by_cases h : (r.seat j).status = some "HELD" <;> simp [committed, hk, h]

theorem stock_commitLuaWrites (hj : j ≠ holdKey a.eventId a.holdId) :
    (commitLuaWrites r inv ks a).stock j =
      if j = inv then ⟨(r.stock inv).available, clampedHeld (r.stock inv).held ks.length,
        some ((r.stock inv).sold.getD 0 + ks.length)⟩
      else r.stock j := by
  have hl (i : String) : (ks.foldl (commitLuaSeat a (a.soldAtMs.getD r.now)) r).stock i = r.stock i :=
    Keyed.foldl_unchanged (Redis.stock · i) (fun s k => stock_commitLuaSeat s a _ k) ks r
  simp only [← hl]
  rw [← stock_commitLuaCounters]
  simp [commitLuaWrites, Redis.stock, hashes_commitLuaLedger, hj]

theorem present_commitLuaWrites : (commitLuaWrites r inv ks a).present j =
    (j ≠ holdKey a.eventId a.holdId && (j = inv || r.present j)) := by
  have hl : (ks.foldl (commitLuaSeat a (a.soldAtMs.getD r.now)) r).present j = r.present j :=
    Keyed.foldl_unchanged (Redis.present · j) (fun s k => present_commitLuaSeat s a _ k) ks r
  rw [← hl, ← present_commitLuaCounters _ inv ks.length]
  by_cases hj : j = holdKey a.eventId a.holdId <;>
    simp [commitLuaWrites, Redis.present, hashes_commitLuaLedger, hj]

theorem strings_commitLuaWrites (ho : a.orderId ≠ "") : (commitLuaWrites r inv ks a).strings.get j =
    if j = orderKey a.eventId a.orderId then some a.holdId
    else if j = orderHoldKey a.eventId a.holdId then some a.orderId
    else r.strings.get j := by
  have hl : (ks.foldl (commitLuaSeat a (a.soldAtMs.getD r.now)) r).strings = r.strings :=
    Keyed.foldl_unchanged Redis.strings (fun s k => strings_commitLuaSeat s a _ k) ks r
  rw [commitLuaWrites, strings_commitLuaLedger _ _ ho]
  simp [strings_commitLuaCounters, hl]

end Effects

/-- The version of a seat that is to be sold can be raised. -/
def VersionFits (r : Redis) (k : String) : Prop :=
  (r.seat k).status = some "HELD" → Counts ((r.hashes.hgetNum k .version).getD 0) 1

instance (r : Redis) (k : String) : Decidable (VersionFits r k) := inferInstanceAs (Decidable (_ → _))

/-- The seat versions and the counters stay within 64 bits. -/
structure CommitLuaFits (r : Redis) (inv : String) (ks : List String) : Prop where
  versions : ∀ k ∈ ks, VersionFits r k
  held : 0 < commitLuaDecr ((r.stock inv).held.getD 0) ks.length →
    Counts ((r.stock inv).held.getD 0) (-commitLuaDecr ((r.stock inv).held.getD 0) ks.length)
  sold : Counts ((r.stock inv).sold.getD 0) ks.length

section Errors

variable {r t : Redis} {inv k j : String} {ks : List String} {a : CommitLuaArgs} {ts : Int}

theorem execCommitLuaSeat_completes :
    Completes (execCommitLuaSeat a ts k) r (VersionFits r k) (commitLuaSeat a ts r k) := by
  intro t
  rw [execCommitLuaSeat, commitLuaSeat, VersionFits]
  by_cases h : r.hashes.hget k .status = some "HELD"
  · have hheld : (r.seat k).status = some "HELD" := h
    rw [if_pos h, if_pos h, forall_prop_of_true hheld]
    refine (Script.write_completes.bind Script.count_completes).congr ?_ t
    simp
  · have hfree : ¬ (r.seat k).status = some "HELD" := h
    rw [if_neg h, if_neg h, forall_prop_of_false hfree]
    exact Completes.pure t

theorem execCommitLuaCounters_completes {need : Int} : Completes (execCommitLuaCounters inv need) r
    ((0 < commitLuaDecr ((r.stock inv).held.getD 0) need →
        Counts ((r.stock inv).held.getD 0) (-commitLuaDecr ((r.stock inv).held.getD 0) need)) ∧
      Counts ((r.stock inv).sold.getD 0) need) (commitLuaCounters r inv need) := by
  intro t
  have hheld : (r.stock inv).held = r.hashes.hgetNum inv .held := rfl
  have hsold : (r.stock inv).sold = r.hashes.hgetNum inv .sold := rfl
  rw [execCommitLuaCounters, commitLuaCounters, hheld, hsold]
  generalize commitLuaDecr ((r.hashes.hgetNum inv .held).getD 0) need = decr
  by_cases hpos : 0 < decr
  · simp only [if_pos hpos, forall_prop_of_true hpos]
    refine (Script.count_completes.bind Script.count_completes).congr ?_ t
    simp
  · simp only [if_neg hpos, forall_prop_of_false hpos]
    exact Completes.pure.bind Script.count_completes t

theorem version_commitLuaSeat (hj : j ≠ k) :
    (commitLuaSeat a ts r k).hashes.hgetNum j .version = r.hashes.hgetNum j .version := by
  by_cases h : r.hashes.hget k .status = some "HELD" <;> simp [commitLuaSeat, h, hj]

/-- A seat that is listed twice is raised once. -/
theorem versionFits_commitLuaSeat (hfits : VersionFits r k) :
    VersionFits (commitLuaSeat a ts r k) j ↔ VersionFits r j := by
  by_cases hj : j = k
  · subst hj
    by_cases h : r.hashes.hget j .status = some "HELD"
    · have hsold : ((commitLuaSeat a ts r j).seat j).status = some "SOLD" := by
        rw [seat_commitLuaSeat, if_pos rfl]
        simp [committed, Redis.seat, h]
      refine iff_of_true ?_ hfits
      intro hheld
      exact absurd (hsold.symm.trans hheld) (by decide)
    · simp [commitLuaSeat, h]
  · rw [VersionFits, VersionFits, seat_commitLuaSeat, if_neg hj, version_commitLuaSeat hj]

theorem execCommitLuaWrites_completes :
    Completes (execCommitLuaWrites inv ks a (a.soldAtMs.getD r.now)) r (CommitLuaFits r inv ks)
      (commitLuaWrites r inv ks a) := by
  have hseats (ts : Int) : Completes (ks.forM (execCommitLuaSeat a ts)) r (∀ k ∈ ks, VersionFits r k)
      (ks.foldl (commitLuaSeat a ts) r) :=
    .forM (fun _ _ => execCommitLuaSeat_completes) (fun _ _ _ => versionFits_commitLuaSeat) ks r
  have hstock (ts : Int) : (ks.foldl (commitLuaSeat a ts) r).stock inv = r.stock inv :=
    Keyed.foldl_unchanged (Redis.stock · inv) (fun s k => stock_commitLuaSeat s a ts k) ks r
  refine ((hseats _).bind (execCommitLuaCounters_completes.bind Script.write_completes)).congr ?_
  rw [hstock]
  constructor
  · rintro ⟨hversions, ⟨hheld, hsold⟩, -⟩
    exact ⟨hversions, hheld, hsold⟩
  · rintro ⟨hversions, hheld, hsold⟩
    exact ⟨hversions, ⟨hheld, hsold⟩, trivial⟩

theorem seat_execCommitLuaSeat : (execCommitLuaSeat a ts k r).2.seat j =
    if j = k then (committed (r.seat j, none)).1 else r.seat j := by
  by_cases h : r.hashes.hget k .status = some "HELD"
  · rw [execCommitLuaSeat, if_pos h]
    generalize hv : (if j = k then (committed (r.seat j, none)).1 else r.seat j) = v
    have hversion : Keeps (fun s : Redis => s.seat j = v) (Script.hincrby k .version 1) := by
      refine Script.keeps_count ?_
      rintro s rfl
      simp [Redis.seat]
    refine Keeps.after (P := fun s : Redis => s.seat j = v) (fun _ => hversion) ?_
    rw [← hv]
    by_cases hj : j = k
    · subst hj
      simp [Script.write, committed, Redis.seat, h]
    · simp [Script.write, Redis.seat, hj]
  · rw [execCommitLuaSeat, if_neg h]
    by_cases hj : j = k
    · subst hj
      simp [committed, Redis.seat, h]
    · simp [hj]

theorem keeps_execCommitLuaSeat_sold : Keeps (fun s : Redis => (s.seat j).status = some "SOLD")
    (execCommitLuaSeat a ts k) := by
  intro s hs
  rw [seat_execCommitLuaSeat]
  by_cases hj : j = k
  · subst hj
    simp [committed, hs]
  · rw [if_neg hj]
    exact hs

/-- However the loop ends, it has sold the first seat that was held. -/
theorem sold_of_loop (h : ∃ k ∈ ks, (r.seat k).status = some "HELD") :
    ∃ k ∈ ks, (r.seat k).status = some "HELD" ∧
      ((ks.forM (execCommitLuaSeat a ts) r).2.seat k).status = some "SOLD" := by
  induction ks generalizing r with
  | nil => simp at h
  | cons k ks ih =>
    rw [forM_cons]
    by_cases hk : (r.seat k).status = some "HELD"
    · refine ⟨k, List.mem_cons_self, hk, ?_⟩
      refine Keeps.after (P := fun s : Redis => (s.seat k).status = some "SOLD")
        (fun _ => .forM fun _ _ => keeps_execCommitLuaSeat_sold) ?_
      rw [seat_execCommitLuaSeat, if_pos rfl]
      simp [committed, hk]
    · have hskip : execCommitLuaSeat a ts k r = (.ok (), r) := if_neg hk
      obtain ⟨j, hj, hheld, hsold⟩ := ih (by simpa [hk] using h)
      rw [bind_ok hskip]
      exact ⟨j, List.mem_cons_of_mem k hj, hheld, hsold⟩

theorem keeps_execCommitLuaCounters (v : Seat) {need : Int} :
    Keeps (fun s : Redis => s.seat j = v) (execCommitLuaCounters inv need) := by
  have hcount (f : NumField) (d : Int) : Keeps (fun s : Redis => s.seat j = v) (Script.hincrby inv f d) := by
    refine Script.keeps_count ?_
    rintro s rfl
    simp [Redis.seat]
  intro s hs
  exact Keeps.bind (.ite (hcount _ _) (.pure ())) (fun _ => hcount _ _) s hs

theorem seat_cleanup : (commitLuaLedger (r.del (holdKey a.eventId a.holdId)) a).seat j =
    if j = holdKey a.eventId a.holdId then .gone else r.seat j := by
  by_cases hj : j = holdKey a.eventId a.holdId <;>
    simp [Redis.seat, hashes_commitLuaLedger, Seat.gone, hj]

/-- However the script ends past its checks, a held seat is sold. -/
theorem sold_of_execCommitLuaWrites (hks : ∀ k ∈ ks, k ≠ holdKey a.eventId a.holdId)
    (h : ∃ k ∈ ks, (r.seat k).status = some "HELD") : ∃ k ∈ ks, (r.seat k).status = some "HELD" ∧
      ((execCommitLuaWrites inv ks a ts r).2.seat k).status = some "SOLD" := by
  obtain ⟨k, hk, hheld, hsold⟩ : ∃ k ∈ ks, (r.seat k).status = some "HELD" ∧
      ((ks.forM (execCommitLuaSeat a ts) r).2.seat k).status = some "SOLD" := sold_of_loop h
  refine ⟨k, hk, hheld, ?_⟩
  refine Keeps.after (P := fun s : Redis => (s.seat k).status = some "SOLD") (fun _ => ?_) hsold
  refine .bind ?_ fun _ => Script.keeps_write ?_
  · intro s hs
    have hkept : (execCommitLuaCounters inv ks.length s).2.seat k = s.seat k :=
      keeps_execCommitLuaCounters (s.seat k) s rfl
    rw [hkept]
    exact hs
  · intro s hs
    rw [seat_cleanup, if_neg (hks k hk)]
    exact hs

theorem sold_before_of_unlisted (hj : j ∉ ks)
    (hsold : ((execCommitLuaWrites inv ks a ts r).2.seat j).status = some "SOLD") :
    (r.seat j).status = some "SOLD" := by
  have hall : Keeps (fun s : Redis => s.seat j = r.seat j ∨ s.seat j = .gone)
      (execCommitLuaWrites inv ks a ts) := by
    refine .bind (.forM fun k hk s hs => ?_) fun _ => .bind (fun s hs => ?_) fun _ =>
      Script.keeps_write fun s hs => ?_
    · have hne : j ≠ k := fun he => hj (he ▸ hk)
      rwa [seat_execCommitLuaSeat, if_neg hne]
    · have hkept : (execCommitLuaCounters inv ks.length s).2.seat j = s.seat j :=
        keeps_execCommitLuaCounters (s.seat j) s rfl
      rwa [hkept]
    · by_cases hh : j = holdKey a.eventId a.holdId
      · exact .inr (by rw [seat_cleanup, if_pos hh])
      · rwa [seat_cleanup, if_neg hh]
  rcases hall r (.inl rfl) with hkept | hgone
  · rwa [hkept] at hsold
  · rw [hgone] at hsold
    cases hsold

end Errors

section Outcomes

variable {r : Redis} {inv : String} {ks : List String} {a : CommitLuaArgs}

theorem soldSeats_eq_length_iff
    (h : ∀ k ∈ ks, r.seat k = .held a.userId a.holdId ∨ r.seat k = .sold a.userId a.holdId) :
    soldSeats r ks = ks.length ↔ ¬ ∃ k ∈ ks, (r.seat k).status = some "HELD" := by
  rw [soldSeats, List.length_filter_eq_length_iff]
  constructor
  · rintro hsold ⟨k, hk, hheld⟩
    have hst : r.hashes.hget k .status = some "SOLD" := by simpa using hsold k hk
    simp [Redis.seat, hst] at hheld
  · intro hnone k hk
    rcases h k hk with hseat | hseat
    · exact absurd ⟨k, hk, by simp [hseat, Seat.held]⟩ hnone
    · simpa [Redis.seat, Seat.sold] using congrArg Seat.status hseat

/-- The script gets past its argument checks. -/
structure CommitLuaReady (r : Redis) (inv : String) (ks : List String) (a : CommitLuaArgs) : Prop where
  holdId : a.holdId ≠ ""
  userId : a.userId ≠ ""
  eventId : a.eventId ≠ ""
  seats : ks ≠ []
  inventory : r.present inv = true

theorem commitLua_ready (h : CommitLuaReady r inv ks a) : commitLua r inv ks a =
    match commitLuaReplay r a with
    | some existing => (.ok "ALREADY_COMMITTED" [("order_id", existing), ("hold_id", a.holdId)], r)
    | none =>
      let fields := [("hold_id", a.holdId), ("seats", toString ks.length), ("order_id", a.orderId)]
      match commitLuaSeats r a (r.present (holdKey a.eventId a.holdId)) 0 ks with
      | .error e => (.err e, r)
      | .ok alreadySold =>
        if alreadySold = ks.length then (.ok "ALREADY_COMMITTED" fields, commitLuaLedger r a)
        else (execCommitLuaWrites inv ks a (a.soldAtMs.getD r.now)).reply (.ok "SOLD" fields) r := by
  have hn : r.hashes.get inv ≠ none := by
    intro hnone
    have hpresent := h.inventory
    simp [Redis.present, hnone] at hpresent
  have hlen : ks.length ≠ 0 := by simpa using h.seats
  unfold commitLua
  simp only [h.holdId, h.userId, h.eventId, hlen, hn, if_false]
  rfl

/-- The script gets to its writes. -/
structure CommitLuaSells (r : Redis) (inv : String) (ks : List String) (a : CommitLuaArgs) : Prop where
  ready : CommitLuaReady r inv ks a
  fresh : commitLuaReplay r a = none
  seats : ∀ k ∈ ks, r.seat k = .held a.userId a.holdId ∨ r.seat k = .sold a.userId a.holdId
  held : ∃ k ∈ ks, (r.seat k).status = some "HELD"

inductive CommitLuaOutcome (r : Redis) (inv : String) (ks : List String) (a : CommitLuaArgs) :
    Reply × Redis → Prop
  | refused (e : String) (h : ¬ CommitLuaSells r inv ks a) : CommitLuaOutcome r inv ks a (.err e, r)
  | replayed {existing : String} {fields : List (String × String)} (hready : CommitLuaReady r inv ks a)
      (h : commitLuaReplay r a = some existing) :
      CommitLuaOutcome r inv ks a (.ok "ALREADY_COMMITTED" fields, r)
  | resold {fields : List (String × String)} (hready : CommitLuaReady r inv ks a)
      (hfresh : commitLuaReplay r a = none) (hsold : ∀ k ∈ ks, r.seat k = .sold a.userId a.holdId) :
      CommitLuaOutcome r inv ks a (.ok "ALREADY_COMMITTED" fields, commitLuaLedger r a)
  | sold {fields : List (String × String)} (h : CommitLuaSells r inv ks a)
      (hfits : CommitLuaFits r inv ks) :
      CommitLuaOutcome r inv ks a (.ok "SOLD" fields, commitLuaWrites r inv ks a)
  | failed {e : String} (h : CommitLuaSells r inv ks a) (hfits : ¬ CommitLuaFits r inv ks) :
      CommitLuaOutcome r inv ks a
        (.err e, (execCommitLuaWrites inv ks a (a.soldAtMs.getD r.now) r).2)

theorem commitLua_replay (hready : CommitLuaReady r inv ks a) {existing : String}
    (h : commitLuaReplay r a = some existing) :
    ∃ fields, commitLua r inv ks a = (.ok "ALREADY_COMMITTED" fields, r) := by
  rw [commitLua_ready hready, h]
  exact ⟨_, rfl⟩

theorem commitLua_resale (hready : CommitLuaReady r inv ks a) (hfresh : commitLuaReplay r a = none)
    (hsold : ∀ k ∈ ks, r.seat k = .sold a.userId a.holdId) :
    ∃ fields, commitLua r inv ks a = (.ok "ALREADY_COMMITTED" fields, commitLuaLedger r a) := by
  have hall : ∀ k ∈ ks, r.seat k = .held a.userId a.holdId ∨ r.seat k = .sold a.userId a.holdId :=
    fun k hk => .inr (hsold k hk)
  have hcount : soldSeats r ks = ks.length := by
    rw [soldSeats_eq_length_iff hall]
    rintro ⟨k, hk, hheld⟩
    simp [hsold k hk, Seat.sold] at hheld
  have hloop := (commitLuaSeats_eq_ok_iff r a (r.present (holdKey a.eventId a.holdId)) 0 ks.length ks).mpr
    ⟨hall, by omega⟩
  rw [commitLua_ready hready, hfresh, hloop]
  exact ⟨_, if_pos rfl⟩

theorem commitLua_writes (h : CommitLuaSells r inv ks a) :
    ∃ fields, commitLua r inv ks a =
      (execCommitLuaWrites inv ks a (a.soldAtMs.getD r.now)).reply (.ok "SOLD" fields) r := by
  have hloop := (commitLuaSeats_eq_ok_iff r a (r.present (holdKey a.eventId a.holdId)) 0 (soldSeats r ks)
    ks).mpr ⟨h.seats, by omega⟩
  have hne : soldSeats r ks ≠ ks.length := fun he => (soldSeats_eq_length_iff h.seats).mp he h.held
  rw [commitLua_ready h.ready, h.fresh, hloop]
  exact ⟨_, if_neg hne⟩

theorem commitLua_sells (h : CommitLuaSells r inv ks a) (hfits : CommitLuaFits r inv ks) :
    ∃ fields, commitLua r inv ks a = (.ok "SOLD" fields, commitLuaWrites r inv ks a) := by
  obtain ⟨fields, hx⟩ := commitLua_writes h
  refine ⟨fields, ?_⟩
  rw [hx, Script.reply, execCommitLuaWrites_completes.ok hfits]

theorem commitLua_stopped (h : CommitLuaSells r inv ks a) (hfits : ¬ CommitLuaFits r inv ks) :
    ∃ e, commitLua r inv ks a =
      (.err e, (execCommitLuaWrites inv ks a (a.soldAtMs.getD r.now) r).2) := by
  obtain ⟨fields, hx⟩ := commitLua_writes h
  obtain ⟨e, r', hrun⟩ := (execCommitLuaWrites_completes (a := a)).error hfits
  refine ⟨e, ?_⟩
  rw [hx, Script.reply, hrun]

theorem commitLua_unready (h : ¬ CommitLuaReady r inv ks a) :
    ∃ e, commitLua r inv ks a = (.err e, r) := by
  by_cases h1 : a.holdId = ""
  · exact ⟨"HOLD_ID_REQUIRED", by simp [commitLua, h1]⟩
  by_cases h2 : a.userId = ""
  · exact ⟨"USER_ID_REQUIRED", by simp [commitLua, h1, h2]⟩
  by_cases h3 : a.eventId = ""
  · exact ⟨"EVENT_ID_REQUIRED", by simp [commitLua, h1, h2, h3]⟩
  by_cases h4 : ks = []
  · exact ⟨"NO_SEATS", by simp [commitLua, h1, h2, h3, h4]⟩
  have h5 : r.hashes.get inv = none := by
    by_contra hn
    exact h ⟨h1, h2, h3, h4, by simpa [Redis.present, Option.isSome_iff_ne_none] using hn⟩
  exact ⟨"INV_NOT_FOUND", by simp [commitLua, h1, h2, h3, h4, h5]⟩

theorem commitLua_outcome (r : Redis) (inv : String) (ks : List String) (a : CommitLuaArgs) :
    CommitLuaOutcome r inv ks a (commitLua r inv ks a) := by
  by_cases hready : CommitLuaReady r inv ks a
  · cases hreplay : commitLuaReplay r a with
    | some existing =>
      rw [commitLua_ready hready, hreplay]
      exact .replayed hready hreplay
    | none =>
      cases hloop : commitLuaSeats r a (r.present (holdKey a.eventId a.holdId)) 0 ks with
      | error e =>
        rw [commitLua_ready hready, hreplay, hloop]
        refine .refused e fun hs => ?_
        have hn := (commitLuaSeats_eq_ok_iff r a (r.present (holdKey a.eventId a.holdId)) 0
          (soldSeats r ks) ks).mpr ⟨hs.seats, by omega⟩
        exact absurd (hloop.symm.trans hn) (by simp)
      | ok n =>
        obtain ⟨hall, -⟩ := (commitLuaSeats_eq_ok_iff r a _ 0 n ks).mp hloop
        by_cases hheld : ∃ k ∈ ks, (r.seat k).status = some "HELD"
        · have hsells : CommitLuaSells r inv ks a := ⟨hready, hreplay, hall, hheld⟩
          by_cases hfits : CommitLuaFits r inv ks
          · obtain ⟨fields, hx⟩ := commitLua_sells hsells hfits
            rw [hx]
            exact .sold hsells hfits
          · obtain ⟨e, hx⟩ := commitLua_stopped hsells hfits
            rw [hx]
            exact .failed hsells hfits
        · have hsold : ∀ k ∈ ks, r.seat k = .sold a.userId a.holdId := fun k hk =>
            (hall k hk).resolve_left fun hseat => hheld ⟨k, hk, by simp [hseat, Seat.held]⟩
          obtain ⟨fields, hx⟩ := commitLua_resale hready hreplay hsold
          rw [hx]
          exact .resold hready hreplay hsold
  · obtain ⟨e, hx⟩ := commitLua_unready hready
    rw [hx]
    exact .refused e fun hs => hready hs.ready

end Outcomes

end CrowdTic
