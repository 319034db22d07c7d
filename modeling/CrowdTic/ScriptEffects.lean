import CrowdTic.KeyedUpdates
import CrowdTic.Scripts

/-! What the writes of each script do to seats, inventory counters, limit
counters and times to live. -/

namespace CrowdTic

@[ext] structure Stock where
  available : Option Int
  held : Option Int
  sold : Option Int
  deriving DecidableEq

def Redis.stock (r : Redis) (k : String) : Stock :=
  ⟨r.hashes.hgetNum k .available, r.hashes.hgetNum k .held, r.hashes.hgetNum k .sold⟩

section Hold

variable (r : Redis) (inv : String) (ks : List String) (a : HoldArgs) (k j : String)

theorem seat_holdSeat :
    (holdSeat a r k).seat j = if j = k then .held a.userId a.holdId else r.seat j := by
  by_cases h : j = k <;> simp [holdSeat, Redis.seat, Seat.held, h]

theorem stock_holdSeat : (holdSeat a r k).stock j = r.stock j := by
  simp [holdSeat, Redis.stock]

theorem seat_holdWrites : (holdWrites r inv ks a).seat j =
    if j ∈ ks then .held a.userId a.holdId else r.seat j := by
  have hl := Keyed.foldl_view Redis.seat (g := holdSeat a)
    (φ := fun _ => .held a.userId a.holdId) (fun _ => rfl) (seat_holdSeat (a := a)) ks r j
  rw [← hl]
  simp [holdWrites, Redis.seat]

theorem stock_holdWrites : (holdWrites r inv ks a).stock j =
    if j = inv then ⟨some ((r.stock inv).available.getD 0 - ks.length),
      some ((r.stock inv).held.getD 0 + ks.length), (r.stock inv).sold⟩
    else r.stock j := by
  have hl (i : String) : (ks.foldl (holdSeat a) r).stock i = r.stock i :=
    Keyed.foldl_unchanged (Redis.stock · i) (fun s k => stock_holdSeat s a k i) ks r
  simp only [← hl]
  by_cases h : j = inv <;> simp [holdWrites, Redis.stock, h, sub_eq_add_neg]

theorem counters_holdWrites : (holdWrites r inv ks a).counters.get j =
    if j = limitKey a.eventId a.userId then some ((r.counters.get j).getD 0 + ks.length)
    else r.counters.get j := by
  have hl : (ks.foldl (holdSeat a) r).counters = r.counters :=
    Keyed.foldl_unchanged (g := holdSeat a) Redis.counters (fun _ _ => rfl) ks r
  by_cases h : j = limitKey a.eventId a.userId <;> simp [holdWrites, hl, h]

theorem strings_holdWrites : (holdWrites r inv ks a).strings = r.strings :=
  Keyed.foldl_unchanged Redis.strings (g := holdSeat a) (fun _ _ => rfl) ks r

theorem ttl_holdWrites (hks : j ∉ ks) (hj : j ≠ holdKey a.eventId a.holdId) :
    (holdWrites r inv ks a).hashes.ttl j = r.hashes.ttl j := by
  have hl : (ks.foldl (holdSeat a) r).hashes.ttl j = r.hashes.ttl j :=
    Keyed.foldl_unlisted (fun s : Redis => s.hashes.ttl j)
      (fun s k hk => by simp [holdSeat, Ne.symm hk]) ks r hks
  simp [holdWrites, hj, hl]

end Hold

section Release

variable (r : Redis) (inv : String) (ks : List String) (a : ReleaseArgs) (k : String) {j : String}

def released (hold : String) (v : Seat × Option Nat) : Seat × Option Nat :=
  if v.1.holdId = some hold then (.available, none) else v

theorem released_released (hold : String) (v : Seat × Option Nat) :
    released hold (released hold v) = released hold v := by
  by_cases h : v.1.holdId = some hold <;> simp [released, h, Seat.available]

theorem seat_ttl_releaseSeat : ((releaseSeat a r k).seat j, (releaseSeat a r k).hashes.ttl j) =
    if j = k then released a.holdId (r.seat j, r.hashes.ttl j) else (r.seat j, r.hashes.ttl j) := by
  by_cases h : r.hashes.hget k .holdId = some a.holdId
  · by_cases hj : j = k
    · subst hj
      simp [releaseSeat, released, Redis.seat, Seat.available, h]
    · simp [releaseSeat, Redis.seat, h, hj]
  · by_cases hj : j = k
    · subst hj
      simp [releaseSeat, released, Redis.seat, h]
    · simp [releaseSeat, h, hj]

theorem stock_releaseSeat : (releaseSeat a r k).stock j = r.stock j := by
  by_cases h : r.hashes.hget k .holdId = some a.holdId <;> simp [releaseSeat, Redis.stock, h]

theorem seat_ttl_releaseWrites (hj : j ≠ holdKey a.eventId a.holdId) :
    ((releaseWrites r inv ks a).seat j, (releaseWrites r inv ks a).hashes.ttl j) =
      if j ∈ ks then released a.holdId (r.seat j, r.hashes.ttl j)
      else (r.seat j, r.hashes.ttl j) := by
  have hl := Keyed.foldl_view (fun (s : Redis) i => (s.seat i, s.hashes.ttl i))
    (g := releaseSeat a) (released_released a.holdId)
    (fun s k i => seat_ttl_releaseSeat s a k (j := i)) ks r j
  rw [← hl]
  simp [releaseWrites, Redis.seat, hj]

theorem seat_releaseWrites (hj : j ≠ holdKey a.eventId a.holdId) :
    (releaseWrites r inv ks a).seat j =
      if j ∈ ks ∧ (r.seat j).holdId = some a.holdId then .available else r.seat j := by
  have hh := congrArg Prod.fst (seat_ttl_releaseWrites r inv ks a hj)
  by_cases hk : j ∈ ks <;> by_cases h : (r.seat j).holdId = some a.holdId <;>
    simpa [released, hk, h] using hh

theorem stock_releaseWrites (hj : j ≠ holdKey a.eventId a.holdId) :
    (releaseWrites r inv ks a).stock j =
      if j = inv then ⟨some ((r.stock inv).available.getD 0 + ks.length),
        some ((r.stock inv).held.getD 0 - ks.length), (r.stock inv).sold⟩
      else r.stock j := by
  have hl (i : String) : (ks.foldl (releaseSeat a) r).stock i = r.stock i :=
    Keyed.foldl_unchanged (Redis.stock · i) (fun s k => stock_releaseSeat s a k) ks r
  simp only [← hl]
  by_cases h : j = inv
  · subst h
    simp [releaseWrites, Redis.stock, hj, sub_eq_add_neg]
  · simp [releaseWrites, Redis.stock, h, hj]

theorem counters_releaseWrites (j : String) : (releaseWrites r inv ks a).counters.get j =
    if j = limitKey a.eventId a.userId then some ((r.counters.get j).getD 0 - ks.length)
    else r.counters.get j := by
  have hl : (ks.foldl (releaseSeat a) r).counters = r.counters :=
    Keyed.foldl_unchanged Redis.counters (fun s k => by
      by_cases h : s.hashes.hget k .holdId = some a.holdId <;> simp [releaseSeat, h]) ks r
  by_cases h : j = limitKey a.eventId a.userId <;> simp [releaseWrites, hl, h, sub_eq_add_neg]

theorem strings_releaseWrites : (releaseWrites r inv ks a).strings = r.strings :=
  Keyed.foldl_unchanged Redis.strings (g := releaseSeat a) (fun s k => by
    by_cases h : s.hashes.hget k .holdId = some a.holdId <;> simp [releaseSeat, h]) ks r

end Release

section Commit

variable (r : Redis) (inv : String) (ks : List String) (a : CommitArgs) (k : String) {j : String}

def committed (v : Seat × Option Nat) : Seat × Option Nat :=
  if v.1.status = some "HELD" then ({ v.1 with status := some "SOLD" }, none) else v

theorem committed_committed (v : Seat × Option Nat) : committed (committed v) = committed v := by
  by_cases h : v.1.status = some "HELD" <;> simp [committed, h]

theorem seat_ttl_commitSeat : ((commitSeat a r k).seat j, (commitSeat a r k).hashes.ttl j) =
    if j = k then committed (r.seat j, r.hashes.ttl j) else (r.seat j, r.hashes.ttl j) := by
  by_cases h : r.hashes.hget k .status = some "HELD"
  · by_cases hj : j = k
    · subst hj
      simp [commitSeat, committed, Redis.seat, h]
    · simp [commitSeat, Redis.seat, h, hj]
  · by_cases hj : j = k
    · subst hj
      simp [commitSeat, committed, Redis.seat, h]
    · simp [commitSeat, h, hj]

theorem stock_commitSeat : (commitSeat a r k).stock j = r.stock j := by
  by_cases h : r.hashes.hget k .status = some "HELD" <;> simp [commitSeat, Redis.stock, h]

theorem seat_ttl_commitWrites (hj : j ≠ holdKey a.eventId a.holdId) :
    ((commitWrites r inv ks a).seat j, (commitWrites r inv ks a).hashes.ttl j) =
      if j ∈ ks then committed (r.seat j, r.hashes.ttl j) else (r.seat j, r.hashes.ttl j) := by
  have hl := Keyed.foldl_view (fun (s : Redis) i => (s.seat i, s.hashes.ttl i))
    (g := commitSeat a) committed_committed
    (fun s k i => seat_ttl_commitSeat s a k (j := i)) ks r j
  rw [← hl]
  simp [commitWrites, Redis.seat, hj]

theorem seat_commitWrites (hj : j ≠ holdKey a.eventId a.holdId) :
    (commitWrites r inv ks a).seat j =
      if j ∈ ks ∧ (r.seat j).status = some "HELD" then { r.seat j with status := some "SOLD" }
      else r.seat j := by
  have hh := congrArg Prod.fst (seat_ttl_commitWrites r inv ks a hj)
  by_cases hk : j ∈ ks <;> by_cases h : (r.seat j).status = some "HELD" <;>
    simpa [committed, hk, h] using hh

theorem stock_commitWrites (hj : j ≠ holdKey a.eventId a.holdId) :
    (commitWrites r inv ks a).stock j =
      if j = inv then ⟨(r.stock inv).available, some ((r.stock inv).held.getD 0 - ks.length),
        some ((r.stock inv).sold.getD 0 + ks.length)⟩
      else r.stock j := by
  have hl (i : String) : (ks.foldl (commitSeat a) r).stock i = r.stock i :=
    Keyed.foldl_unchanged (Redis.stock · i) (fun s k => stock_commitSeat s a k) ks r
  simp only [← hl]
  by_cases h : j = inv
  · subst h
    simp [commitWrites, Redis.stock, hj, sub_eq_add_neg]
  · simp [commitWrites, Redis.stock, h, hj]

theorem counters_commitWrites : (commitWrites r inv ks a).counters = r.counters :=
  Keyed.foldl_unchanged Redis.counters (g := commitSeat a) (fun s k => by
    by_cases h : s.hashes.hget k .status = some "HELD" <;> simp [commitSeat, h]) ks r

theorem strings_commitWrites (j : String) : (commitWrites r inv ks a).strings.get j =
    if j = orderKey a.eventId a.orderId then some a.holdId
    else if j = orderHoldKey a.eventId a.holdId then some a.orderId
    else r.strings.get j := by
  have hl : (ks.foldl (commitSeat a) r).strings = r.strings :=
    Keyed.foldl_unchanged Redis.strings (g := commitSeat a) (fun s k => by
      by_cases h : s.hashes.hget k .status = some "HELD" <;> simp [commitSeat, h]) ks r
  simp [commitWrites, hl]

end Commit

section Refusals

variable {r : Redis} {inv : String} {ks : List String}

theorem holdRefusal_eq_none_iff {a : HoldArgs} : holdRefusal r inv ks a = none ↔
    ∃ n, (r.stock inv).available = some n ∧ ks.length ≤ n ∧
      (r.counters.get (limitKey a.eventId a.userId)).getD 0 + ks.length ≤ a.maxPerUser ∧
      ∀ k ∈ ks, (r.seat k).status = some "AVAILABLE" := by
  cases hn : r.hashes.hgetNum inv .available with
  | none => simp [holdRefusal, Redis.stock, hn]
  | some n =>
    by_cases h1 : n < ks.length
    · simp [holdRefusal, Redis.stock, hn, h1]
    · by_cases h2 : a.maxPerUser <
          (r.counters.get (limitKey a.eventId a.userId)).getD 0 + ks.length
      · simp [holdRefusal, Redis.stock, hn, h1, h2]
      · simp [holdRefusal, Redis.stock, Redis.seat, hn, h1, h2, Int.not_lt.mp h1,
          Int.not_lt.mp h2]

theorem commitAccepts_iff {a : CommitArgs} {k : String} : commitAccepts r a k = true ↔
    r.seat k = .held a.userId a.holdId ∨ r.seat k = .sold a.userId a.holdId := by
  simp only [commitAccepts, Redis.seat, Seat.held, Seat.sold, Seat.mk.injEq]
  grind

theorem commitRefusal_eq_none_iff {a : CommitArgs} : commitRefusal r ks a = none ↔
    ∀ k ∈ ks, r.seat k = .held a.userId a.holdId ∨ r.seat k = .sold a.userId a.holdId := by
  simp [commitRefusal, ← commitAccepts_iff]

end Refusals

section Advance

variable (r : Redis) (ms : Nat) (j : String)

theorem seat_advance : (r.advance ms).seat j =
    if r.hashes.lapsed (r.now + ms) j then .gone else r.seat j := by
  by_cases h : r.hashes.lapsed (r.now + ms) j = true <;> simp [Redis.seat, Seat.gone, h]

theorem stock_advance (h : r.hashes.lapsed (r.now + ms) j = false) :
    (r.advance ms).stock j = r.stock j := by
  simp [Redis.stock, h]

end Advance

end CrowdTic
