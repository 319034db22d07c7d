import CrowdTic.RemoteCalls
import CrowdTic.ScriptCalls

/-! The hold and commit scripts as Redis runs them, command by command. Counters
and deadlines are signed integers of 64 bits, and a command that would leave
them fails: it stops the script, and the writes before it stay. -/

namespace CrowdTic

open Remote

abbrev Script (α : Type) := Program String Redis α

def IsInt64 (n : Int) : Prop := -2 ^ 63 ≤ n ∧ n < 2 ^ 63

instance (n : Int) : Decidable (IsInt64 n) := inferInstanceAs (Decidable (_ ∧ _))

/-- A counter and what an increment makes of it. -/
def Counts (n d : Int) : Prop := IsInt64 n ∧ IsInt64 (n + d)

instance (n d : Int) : Decidable (Counts n d) := inferInstanceAs (Decidable (_ ∧ _))

/-- The server counts the deadline in milliseconds. -/
def Redis.Expires (r : Redis) (ms : ℕ+) : Prop := r.now + ms < 2 ^ 63

instance (r : Redis) (ms : ℕ+) : Decidable (r.Expires ms) := inferInstanceAs (Decidable (_ < _))

namespace Script

def write (f : Redis → Redis) : Script Unit := fun r => (.ok (), f r)

def checked (ok : Redis → Prop) [DecidablePred ok] (error : String) (f : Redis → Redis) : Script Unit :=
  fun r => if ok r then (.ok (), f r) else (.error error, r)

/-- An increment of the counter that `n` reads. -/
def count (n : Redis → Int) (d : Int) (error : String) (f : Redis → Redis) : Script Unit := do
  checked (fun r => IsInt64 (n r)) error id
  checked (fun r => IsInt64 (n r + d)) "ERR increment or decrement would overflow" f

def hincrby (k : String) (f : NumField) (d : Int) : Script Unit :=
  count (fun r => (r.hashes.hgetNum k f).getD 0) d "ERR hash value is not an integer" (·.hincrby k f d)

def incrby (k : String) (d : Int) : Script Unit :=
  count (fun r => (r.counters.get k).getD 0) d "ERR value is not an integer or out of range" (·.incrby k d)

/-- A timeout of `ms` milliseconds, which the command is given as the number `n`. -/
def timeout (command k : String) (n ms : ℕ+) : Script Unit := do
  checked (fun _ => IsInt64 n) "ERR value is not an integer or out of range" id
  checked (·.Expires ms) ("ERR invalid expire time in '" ++ command ++ "' command") (·.pexpire k ms)

def pexpire (k : String) (ms : ℕ+) : Script Unit := timeout "pexpire" k ms ms

/-- `EXPIRE` of a hash, in seconds. -/
def expire (k : String) (sec : ℕ+) : Script Unit := timeout "expire" k sec (millis sec)

section Commands

variable {n : Redis → Int} {d : Int} {e : String} {ok : Redis → Prop} [DecidablePred ok]
  {f : Redis → Redis} {r t : Redis} {P : Redis → Prop}

theorem write_completes : Completes (write f) r True (f r) := by
  intro t
  constructor
  · intro h
    exact ⟨trivial, (congrArg Prod.snd h).symm⟩
  · rintro ⟨-, rfl⟩
    rfl

theorem checked_completes : Completes (checked ok e f) r (ok r) (f r) := by
  intro t
  by_cases h : ok r
  · have hrun : checked ok e f r = write f r := if_pos h
    rw [hrun, write_completes, true_and, and_iff_right h]
  · have hrun : checked ok e f r = (.error e, r) := if_neg h
    rw [hrun]
    exact iff_of_false nofun fun hok => h hok.1

theorem count_completes : Completes (count n d e f) r (Counts (n r) d) (f r) :=
  checked_completes.bind checked_completes

theorem timeout_completes {command k : String} {n ms : ℕ+} (hn : (n : Nat) ≤ ms) :
    Completes (timeout command k n ms) r (r.Expires ms) (r.pexpire k ms) := by
  refine (checked_completes.bind checked_completes).congr (and_iff_right_of_imp fun hfits => ?_)
  simp only [id, Redis.Expires, IsInt64] at hfits ⊢
  omega

theorem pexpire_completes {k : String} {ms : ℕ+} :
    Completes (pexpire k ms) r (r.Expires ms) (r.pexpire k ms) := timeout_completes le_rfl

theorem expire_completes {k : String} {sec : ℕ+} :
    Completes (expire k sec) r (r.Expires (millis sec)) (r.pexpire k (millis sec)) :=
  timeout_completes (Nat.le_mul_of_pos_right _ (PNat.pos _))

theorem keeps_write (h : ∀ r, P r → P (f r)) : Keeps P (write f) := h

theorem keeps_checked (h : ∀ r, P r → P (f r)) : Keeps P (checked ok e f) := by
  intro r hr
  by_cases hok : ok r
  · simpa [checked, hok] using h r hr
  · simpa [checked, hok] using hr

theorem keeps_count (h : ∀ r, P r → P (f r)) : Keeps P (count n d e f) :=
  .bind (keeps_checked fun _ hr => hr) fun _ => keeps_checked h

theorem keeps_timeout {command k : String} {n ms : ℕ+} (h : ∀ r, P r → P (r.pexpire k ms)) :
    Keeps P (timeout command k n ms) :=
  .bind (keeps_checked fun _ hr => hr) fun _ => keeps_checked h

end Commands

end Script

/-- What a script has written before it fails stays. -/
def Script.reply (x : Script Unit) (done : Reply) (r : Redis) : Reply × Redis :=
  match x r with
  | (.ok (), r') => (done, r')
  | (.error e, r') => (.err e, r')

section Hold

def execHoldSeat (a : HoldArgs) (k : String) : Script Unit := do
  Script.write fun r => (((r.hset k .status "HELD").hset k .heldBy a.userId).hset k .holdId
    a.holdId).hsetNum k .expiresAt a.expiresAt
  Script.pexpire k (millis a.ttl)

/-- What comes behind the loop over the seats. -/
def execHoldCounts (invKey : String) (seatKeys : List String) (a : HoldArgs) : Script Unit := do
  let need : Int := seatKeys.length
  let key := holdKey a.eventId a.holdId
  let limit := limitKey a.eventId a.userId
  Script.hincrby invKey .available (-need)
  Script.hincrby invKey .held need
  Script.incrby limit need
  Script.write (·.expireCounter limit daySec)
  Script.write fun r => ((r.hset key .userId a.userId).hset key .seats
    (",".intercalate seatKeys)).hsetNum key .expiresAt a.expiresAt
  Script.expire key a.ttl

def execHoldWrites (invKey : String) (seatKeys : List String) (a : HoldArgs) : Script Unit := do
  seatKeys.forM (execHoldSeat a)
  execHoldCounts invKey seatKeys a

def execHold (r : Redis) (invKey : String) (seatKeys : List String) (a : HoldArgs) : Reply × Redis :=
  match holdRefusal r invKey seatKeys a with
  | some e => (.err e, r)
  | none => (execHoldWrites invKey seatKeys a).reply (.ok "HELD" [("hold_id", a.holdId)]) r

/-- All that the hold counts, and its deadline, stay within 64 bits. -/
structure HoldFits (r : Redis) (inv : String) (ks : List String) (a : HoldArgs) : Prop where
  deadline : r.Expires (millis a.ttl)
  available : Counts ((r.stock inv).available.getD 0) (-ks.length)
  held : Counts ((r.stock inv).held.getD 0) ks.length
  limit : Counts ((r.counters.get (limitKey a.eventId a.userId)).getD 0) ks.length

variable {r t : Redis} {inv k : String} {ks : List String} {a : HoldArgs}

theorem execHoldSeat_completes :
    Completes (execHoldSeat a k) r (r.Expires (millis a.ttl)) (holdSeat a r k) :=
  (Script.write_completes.bind Script.pexpire_completes).congr (iff_of_eq (true_and _))

theorem execHoldWrites_completes :
    Completes (execHoldWrites inv ks a) r (HoldFits r inv ks a) (holdWrites r inv ks a) := by
  have hseats : Completes (ks.forM (execHoldSeat a)) r (∀ _ ∈ ks, r.Expires (millis a.ttl))
      (ks.foldl (holdSeat a) r) :=
    .forM (p := fun s _ => Redis.Expires s (millis a.ttl)) (fun _ _ => execHoldSeat_completes)
      (fun _ _ _ _ => Iff.rfl) ks r
  have hstock : (ks.foldl (holdSeat a) r).stock inv = r.stock inv :=
    Keyed.foldl_unchanged (Redis.stock · inv) (fun s k => stock_holdSeat s a k inv) ks r
  have hcounters : (ks.foldl (holdSeat a) r).counters = r.counters :=
    Keyed.foldl_unchanged Redis.counters (g := holdSeat a) (fun _ _ => rfl) ks r
  have hnow : (ks.foldl (holdSeat a) r).now = r.now :=
    Keyed.foldl_unchanged Redis.now (g := holdSeat a) (fun _ _ => rfl) ks r
  refine (hseats.bind (Script.count_completes.bind (Script.count_completes.bind
    (Script.count_completes.bind (Script.write_completes.bind (Script.write_completes.bind
      Script.expire_completes)))))).congr ?_
  have havailable : (ks.foldl (holdSeat a) r).hashes.hgetNum inv .available = (r.stock inv).available :=
    congrArg Stock.available hstock
  have hheld : (ks.foldl (holdSeat a) r).hashes.hgetNum inv .held = (r.stock inv).held :=
    congrArg Stock.held hstock
  constructor
  · rintro ⟨-, hava, hhel, hlim, -, -, hend⟩
    exact ⟨by simpa [Redis.Expires, hnow] using hend, by simpa [havailable] using hava,
      by simpa [hheld] using hhel, by simpa [hcounters] using hlim⟩
  · rintro ⟨hend, hava, hhel, hlim⟩
    exact ⟨fun _ _ => hend, by simpa [havailable] using hava, by simpa [hheld] using hhel,
      by simpa [hcounters] using hlim, trivial, trivial, by simpa [Redis.Expires, hnow] using hend⟩

theorem execHold_refused {e : String} (h : holdRefusal r inv ks a = some e) :
    execHold r inv ks a = (.err e, r) := by
  simp only [execHold, h]

theorem execHold_made (h : holdRefusal r inv ks a = none) (hfits : HoldFits r inv ks a) :
    execHold r inv ks a = holdSrc r inv ks a := by
  simp only [execHold, holdSrc, h, Script.reply, execHoldWrites_completes.ok hfits]

/-- A hold that does not fit stops between its writes. -/
theorem execHold_stopped (h : holdRefusal r inv ks a = none) (hfits : ¬ HoldFits r inv ks a) :
    (∃ e, (execHold r inv ks a).1 = .err e) ∧
      (execHold r inv ks a).2 = (execHoldWrites inv ks a r).2 := by
  obtain ⟨e, t, hrun⟩ := execHoldWrites_completes.error hfits
  simp only [execHold, h, Script.reply, hrun]
  exact ⟨⟨e, rfl⟩, trivial⟩

theorem seat_execHoldSeat (a : HoldArgs) (k j : String) (r : Redis) : (execHoldSeat a k r).2.seat j =
    if j = k then .held a.userId a.holdId else r.seat j := by
  generalize hv : (if j = k then Seat.held a.userId a.holdId else r.seat j) = v
  have hexpire (ms : ℕ+) : Keeps (fun s : Redis => s.seat j = v) (Script.pexpire k ms) := by
    refine Script.keeps_timeout ?_
    rintro s rfl
    simp [Redis.seat]
  rw [execHoldSeat]
  generalize millis a.ttl = ms
  refine Keeps.after (P := fun s : Redis => s.seat j = v) (fun _ => hexpire ms) ?_
  rw [← hv]
  by_cases h : j = k <;> simp [Script.write, Redis.seat, Seat.held, h]

theorem keeps_execHoldCounts (j : String) (v : Seat) :
    Keeps (fun s : Redis => s.seat j = v) (execHoldCounts inv ks a) := by
  refine .bind (Script.keeps_count ?_) fun _ => .bind (Script.keeps_count ?_) fun _ =>
    .bind (Script.keeps_count ?_) fun _ => .bind (Script.keeps_write ?_) fun _ =>
      .bind (Script.keeps_write ?_) fun _ => Script.keeps_timeout ?_
  all_goals
    rintro r rfl
    simp [Redis.seat]

end Hold

section Commit

def execCommitWrites (invKey : String) (seatKeys : List String) (a : CommitArgs) : Script Unit := do
  let need : Int := seatKeys.length
  seatKeys.forM fun k => Script.write (commitSeat a · k)
  Script.hincrby invKey .held (-need)
  Script.hincrby invKey .sold need
  Script.write (·.setEx (orderHoldKey a.eventId a.holdId) a.orderId daySec)
  Script.write (·.setEx (orderKey a.eventId a.orderId) a.holdId daySec)
  Script.write (·.del (holdKey a.eventId a.holdId))

def execCommit (r : Redis) (invKey : String) (seatKeys : List String) (a : CommitArgs) : Reply × Redis :=
  match ledger r a with
  | some existing => (.ok "ALREADY_COMMITTED" [("order_id", existing)], r)
  | none =>
    match commitRefusal r seatKeys a with
    | some e => (.err e, r)
    | none => (execCommitWrites invKey seatKeys a).reply (.ok "COMMITTED" [("order_id", a.orderId)]) r

structure CommitFits (r : Redis) (inv : String) (ks : List String) : Prop where
  held : Counts ((r.stock inv).held.getD 0) (-ks.length)
  sold : Counts ((r.stock inv).sold.getD 0) ks.length

variable {r t : Redis} {inv : String} {ks : List String} {a : CommitArgs}

theorem execCommitWrites_completes :
    Completes (execCommitWrites inv ks a) r (CommitFits r inv ks) (commitWrites r inv ks a) := by
  have hseats : Completes (ks.forM fun k => Script.write (commitSeat a · k)) r (∀ _ ∈ ks, True)
      (ks.foldl (commitSeat a) r) :=
    .forM (fun _ _ => Script.write_completes) (fun _ _ _ _ => Iff.rfl) ks r
  have hstock : (ks.foldl (commitSeat a) r).stock inv = r.stock inv :=
    Keyed.foldl_unchanged (Redis.stock · inv) (fun s k => stock_commitSeat s a k) ks r
  refine (hseats.bind (Script.count_completes.bind (Script.count_completes.bind
    (Script.write_completes.bind (Script.write_completes.bind Script.write_completes))))).congr ?_
  have hheld : (ks.foldl (commitSeat a) r).hashes.hgetNum inv .held = (r.stock inv).held :=
    congrArg Stock.held hstock
  have hsold : (ks.foldl (commitSeat a) r).hashes.hgetNum inv .sold = (r.stock inv).sold :=
    congrArg Stock.sold hstock
  constructor
  · rintro ⟨-, hhel, hsol, -⟩
    exact ⟨by simpa [hheld] using hhel, by simpa [hsold] using hsol⟩
  · rintro ⟨hhel, hsol⟩
    exact ⟨fun _ _ => trivial, by simpa [hheld] using hhel, by simpa [hsold] using hsol,
      trivial, trivial, trivial⟩

theorem execCommit_replayed {existing : String} (h : ledger r a = some existing) :
    execCommit r inv ks a = (.ok "ALREADY_COMMITTED" [("order_id", existing)], r) := by
  simp only [execCommit, h]

theorem execCommit_refused {e : String} (hl : ledger r a = none) (h : commitRefusal r ks a = some e) :
    execCommit r inv ks a = (.err e, r) := by
  simp only [execCommit, hl, h]

theorem execCommit_made (h : CommitRuns r ks a) (hfits : CommitFits r inv ks) : execCommit r inv ks a =
    (.ok "COMMITTED" [("order_id", a.orderId)], commitWrites r inv ks a) := by
  simp only [execCommit, h.1, h.2, Script.reply, execCommitWrites_completes.ok hfits]

theorem execCommit_stopped (h : CommitRuns r ks a) (hfits : ¬ CommitFits r inv ks) :
    ∃ e r', execCommit r inv ks a = (.err e, r') := by
  obtain ⟨e, r', hrun⟩ := (execCommitWrites_completes (a := a)).error hfits
  exact ⟨e, r', by simp only [execCommit, h.1, h.2, Script.reply, hrun]⟩

end Commit

end CrowdTic
