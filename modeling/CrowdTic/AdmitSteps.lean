import CrowdTic.AdmitCalls

/-! What the parts of one `handleAdmit` do when their calls are answered, and
how they end when a call fails: the pop, the tokens, and the way to the bucket. -/

namespace CrowdTic

open Ranked Remote

section Replies

variable {link : AdmitLink}

theorem everyOther_flat (text : ℚ → String) (l : List Entry) :
    everyOther (l.flatMap fun e => [e.member, text e.score]) = members l := by
  induction l with
  | nil => rfl
  | cons e l ih => simpa [everyOther, members] using ih

theorem users_of (popped : List Entry) : (PopReply.of link popped).users = members popped := by
  cases h : link.nested with
  | false => simp [PopReply.of, PopReply.users, h, everyOther_flat]
  | true => simp [PopReply.of, PopReply.users, h, members]

theorem user_of (popped : List Entry) : (PopReply.of link popped).user = (members popped).head? := by
  cases h : link.nested <;> cases popped <;> simp [PopReply.of, PopReply.user, h, members]

end Replies

section Pops

variable {link : AdmitLink} {s : AdmitServer}

theorem popMin_zero (s : AdmitServer) : (s.popMin 0).2 = s := by
  simp [AdmitServer.popMin, members]

theorem popMin_nil (h : s.room.active = []) (k : Nat) : (s.popMin k).2 = s := by
  obtain ⟨room, popped, debited⟩ := s
  obtain ⟨pool, active, admitted, bucket⟩ := room
  obtain rfl : active = [] := h
  simp [AdmitServer.popMin, members]

theorem popMin_popMin (s : AdmitServer) (j k : Nat) :
    ((s.popMin j).2.popMin k).2 = (s.popMin (j + k)).2 := by
  simp [AdmitServer.popMin, members, List.drop_drop, List.take_add]

theorem popLoop_round {i left : Nat} {acc : List String} {x : Entry} {l : List Entry}
    (hf : link.net.fate (.popOne i) = .answered) (ha : s.room.active = x :: l) :
    popLoop link i (left + 1) acc s =
      popLoop link (i + 1) left (acc ++ [x.member]) (s.popMin 1).2 := by
  have hmembers : members (s.popMin 1).1 = [x.member] := by simp [AdmitServer.popMin, ha, members]
  rw [popLoop, bind_ok (call_answered hf)]
  dsimp only
  rw [user_of, hmembers, List.head?_cons]

/-- The loop has popped some users when it ends or throws, and returns those behind `acc`. -/
theorem popLoop_run (link : AdmitLink) (i left : Nat) (acc : List String) (s : AdmitServer) :
    ∃ m out, popLoop link i left acc s = (out, (s.popMin m).2) ∧
      (out = .ok (acc ++ members (s.room.active.take m)) ∨ out = .error ()) := by
  induction left generalizing i acc s with
  | zero =>
    refine ⟨0, .ok acc, ?_, .inl (by simp [members])⟩
    rw [popMin_zero]
    rfl
  | succ left ih =>
    cases hf : link.net.fate (.popOne i) with
    | failedBefore =>
      exact ⟨0, _, by rw [popLoop, bind_error (call_failedBefore hf), popMin_zero], .inr rfl⟩
    | failedAfter => exact ⟨1, _, bind_error (call_failedAfter hf), .inr rfl⟩
    | answered =>
      cases ha : s.room.active with
      | nil =>
        refine ⟨0, .ok acc, ?_, .inl (by simp [members])⟩
        rw [popLoop, bind_ok (call_answered hf)]
        dsimp only
        rw [user_of, popMin_nil ha, popMin_zero]
        simp [AdmitServer.popMin, ha, members]
        rfl
      | cons x l =>
        have hrest : (s.popMin 1).2.room.active = l := by simp [AdmitServer.popMin, ha]
        obtain ⟨m, out, hrun, hout⟩ := ih (i + 1) (acc ++ [x.member]) (s.popMin 1).2
        rw [popMin_popMin] at hrun
        rw [hrest] at hout
        refine ⟨1 + m, out, (popLoop_round hf ha).trans hrun, ?_⟩
        simpa [members, Nat.add_comm 1 m] using hout

theorem popLoop_answered {left : Nat} (i : Nat) (acc : List String) (hl : left ≤ s.room.active.length)
    (h : ∀ j < left, link.net.fate (.popOne (i + j)) = .answered) :
    popLoop link i left acc s =
      (.ok (acc ++ members (s.room.active.take left)), (s.popMin left).2) := by
  induction left generalizing i acc s with
  | zero =>
    rw [popMin_zero]
    simp [members]
    rfl
  | succ left ih =>
    cases ha : s.room.active with
    | nil => simp [ha] at hl
    | cons x l =>
      have hrest : (s.popMin 1).2.room.active = l := by simp [AdmitServer.popMin, ha]
      obtain ⟨hfirst, hlater⟩ := (rounds_answered_iff link.net .popOne).mp h
      have hnext := ih (s := (s.popMin 1).2) (i + 1) (acc ++ [x.member])
        (by rw [hrest]; simpa [ha] using hl) hlater
      rw [popMin_popMin, hrest, Nat.add_comm 1 left] at hnext
      rw [popLoop_round hfirst ha, hnext]
      simp [members]

/-- A loop that does not get through throws, and unless its first round is refused somebody is
gone by then. -/
theorem popLoop_failed {left : Nat} (i : Nat) (acc : List String) (hl : left ≤ s.room.active.length)
    (h : ¬ ∀ j < left, link.net.fate (.popOne (i + j)) = .answered) :
    ∃ m, popLoop link i left acc s = (.error (), (s.popMin m).2) ∧
      (link.net.fate (.popOne i) ≠ .failedBefore → 0 < m) := by
  induction left generalizing i acc s with
  | zero => exact absurd (fun j hj => absurd hj (Nat.not_lt_zero j)) h
  | succ left ih =>
    cases hf : link.net.fate (.popOne i) with
    | failedBefore =>
      refine ⟨0, ?_, fun hn => absurd rfl hn⟩
      rw [popLoop, bind_error (call_failedBefore hf), popMin_zero]
    | failedAfter => exact ⟨1, bind_error (call_failedAfter hf), fun _ => Nat.one_pos⟩
    | answered =>
      cases ha : s.room.active with
      | nil => simp [ha] at hl
      | cons x l =>
        have hrest : (s.popMin 1).2.room.active = l := by simp [AdmitServer.popMin, ha]
        have hlater : ¬ ∀ j < left, link.net.fate (.popOne (i + 1 + j)) = .answered :=
          fun hall => h ((rounds_answered_iff link.net .popOne).mpr ⟨hf, hall⟩)
        obtain ⟨m, hrun, -⟩ := ih (s := (s.popMin 1).2) (i + 1) (acc ++ [x.member])
          (by rw [hrest]; simpa [ha] using hl) hlater
        rw [popMin_popMin] at hrun
        exact ⟨1 + m, (popLoop_round hf ha).trans hrun, fun _ => Nat.add_pos_left Nat.one_pos m⟩

theorem toNat_ceil_of_den {want : ℚ} (h : want.den = 1) : ⌈want⌉.toNat = want.num.toNat := by
  have hnum : (want.num : ℚ) = want := (Rat.den_eq_one_iff want).mp h
  have hceil : ⌈want⌉ = want.num := by
    rw [← hnum, Int.ceil_intCast]
    simp
  rw [hceil]

theorem popOnRedis_answered {want : ℚ} (hd : want.den = 1) (h : link.net.fate .popMin = .answered) :
    popOnRedis link want s =
      (.ok (members (s.room.active.take ⌈want⌉.toNat)), (s.popMin ⌈want⌉.toNat).2) := by
  rw [toNat_ceil_of_den hd]
  refine catch_ok ?_
  rw [if_pos hd, bind_ok (call_answered h)]
  dsimp only
  rw [users_of]
  rfl

theorem popOnRedis_refused {want : ℚ} (h : want.den = 1 → link.net.fate .popMin = .failedBefore) :
    popOnRedis link want s = popLoop link 0 ⌈want⌉.toNat [] s := by
  refine catch_error ?_
  by_cases hd : want.den = 1
  · rw [if_pos hd]
    exact bind_error (call_failedBefore (h hd))
  · rw [if_neg hd]
    rfl

/-- The answer to the `ZPOPMIN` is lost, and the loop goes on behind the users that it has popped. -/
theorem popOnRedis_lost {want : ℚ} (hd : want.den = 1) (h : link.net.fate .popMin = .failedAfter) :
    popOnRedis link want s = popLoop link 0 ⌈want⌉.toNat [] (s.popMin ⌈want⌉.toNat).2 := by
  refine catch_error ?_
  rw [if_pos hd, toNat_ceil_of_den hd]
  exact bind_error (call_failedAfter h)

theorem popOnKv_answered (want : ℚ) (s : AdmitServer) (hget : link.net.fate .popMin = .answered)
    (hput : link.net.fate .putQueue = .answered) :
    popOnKv link want s = (.ok (members ((sortByScore s.room.active).take ⌊want⌋.toNat)),
      { s with
        room := { s.room with active := (sortByScore s.room.active).drop ⌊want⌋.toNat }
        popped := s.popped ++ members ((sortByScore s.room.active).take ⌊want⌋.toNat) }) := by
  rw [popOnKv, bind_ok (call_answered hget)]
  dsimp only
  rw [bind_ok (call_answered hput)]
  rfl

end Pops

section Signing

variable {cfg : RoomConfig} {link : AdmitLink} {s : AdmitServer}

def AdmitLink.MarkAnswered (link : AdmitLink) (k : Nat) : Prop :=
  link.net.fate .getMark = .answered ∧ link.net.fate .setMark = .answered ∧
    ∀ i < k, link.net.fate (.setJti i) = .answered

theorem issueTokens_answered (hjwt : cfg.jwtSecret ≠ "") {i : Nat} {users : List String}
    (h : ∀ j < users.length, link.net.fate (.setJti (i + j)) = .answered) :
    issueTokens cfg link i users s = (.ok users, s) := by
  induction users generalizing i with
  | nil => rfl
  | cons uid rest ih =>
    obtain ⟨hfirst, hrest⟩ := (rounds_answered_iff link.net .setJti).mp h
    rw [issueTokens, if_neg hjwt, bind_ok (call_answered hfirst), bind_ok (ih hrest)]
    rfl

theorem issueTokens_failed (hjwt : cfg.jwtSecret ≠ "") {i : Nat} {users : List String}
    (h : ¬ ∀ j < users.length, link.net.fate (.setJti (i + j)) = .answered) :
    Throws (issueTokens cfg link i users) s := by
  induction users generalizing i with
  | nil => exact absurd (fun j hj => absurd hj (Nat.not_lt_zero j)) h
  | cons uid rest ih =>
    rw [issueTokens, if_neg hjwt]
    refine .call fun hfirst => .bind (ih fun hrest => h ?_)
    exact (rounds_answered_iff link.net .setJti).mpr ⟨hfirst, hrest⟩

def AdmitServer.SameQueue (s s' : AdmitServer) : Prop :=
  s'.room.active = s.room.active ∧ s'.popped = s.popped ∧ s'.debited = s.debited

theorem issueTokens_keeps (i : Nat) (users : List String) :
    Keeps s.SameQueue (issueTokens cfg link i users) := by
  induction users generalizing i with
  | nil => exact .pure _
  | cons uid rest ih =>
    have hjti : Keeps s.SameQueue (call link.net (.setJti i) fun _ s => ((), s)) :=
      .call fun _ _ h => h
    intro s' hs'
    rw [issueTokens]
    by_cases hjwt : cfg.jwtSecret = ""
    · rwa [if_pos hjwt]
    · rw [if_neg hjwt]
      exact Keeps.bind hjti (fun _ => .bind (ih (i + 1)) fun _ => .pure _) s' hs'

theorem markAndSign_keeps (users : List String) (remaining : Int) :
    Keeps s.SameQueue (markAndSign cfg link users remaining) := by
  have hget : Keeps s.SameQueue (call link.net .getMark fun now s => (s.room.watermark now, s)) :=
    .call fun _ _ h => h
  have hset (mark : Nat) : Keeps s.SameQueue (call link.net .setMark fun now s => ((), s.setRoom
      { s.room with admitted := some ⟨mark, some (now + 3600000)⟩ })) := .call fun _ _ h => h
  exact .bind hget fun _ => .bind (hset _) fun _ => .bind (issueTokens_keeps 0 users) fun _ => .pure _

theorem markAndSign_answered (hjwt : cfg.jwtSecret ≠ "") {users : List String} (remaining : Int)
    (h : link.MarkAnswered users.length) :
    let watermark := s.room.watermark (link.net.clock .getMark) + users.length
    markAndSign cfg link users remaining s = (.ok (.admitted watermark remaining users),
      s.setRoom { s.room with
        admitted := some ⟨watermark, some (link.net.clock .setMark + 3600000)⟩ }) := by
  dsimp only
  rw [markAndSign, bind_ok (call_answered h.1), bind_ok (call_answered h.2.1),
    bind_ok (issueTokens_answered hjwt (by simpa using h.2.2))]
  rfl

/-- The run behind the pop answers with all users who were popped, or throws. -/
theorem markAndSign_run (link : AdmitLink) (hjwt : cfg.jwtSecret ≠ "") (users : List String)
    (remaining : Int) (s : AdmitServer) : ∃ out s', markAndSign cfg link users remaining s = (out, s') ∧
      s.SameQueue s' ∧
        (link.MarkAnswered users.length ∧ (∃ mark, out = .ok (.admitted mark remaining users)) ∨
          ¬ link.MarkAnswered users.length ∧ out = .error ()) := by
  have hkeeps : s.SameQueue (markAndSign cfg link users remaining s).2 :=
    markAndSign_keeps users remaining s ⟨rfl, rfl, rfl⟩
  by_cases h : link.MarkAnswered users.length
  · rw [markAndSign_answered hjwt remaining h] at hkeeps ⊢
    exact ⟨_, _, rfl, hkeeps, .inl ⟨h, _, rfl⟩⟩
  · have hthrown : Throws (markAndSign cfg link users remaining) s := by
      refine .call fun hget => .call fun hset => .bind (issueTokens_failed hjwt ?_)
      intro hjti
      exact h ⟨hget, hset, by simpa using hjti⟩
    obtain ⟨s', hs'⟩ := hthrown
    rw [hs'] at hkeeps
    exact ⟨_, s', hs', hkeeps, .inr ⟨h, rfl⟩⟩

end Signing

section Gate

variable {cfg : RoomConfig} {link : AdmitLink} {q : AdmitRequest} {s : AdmitServer}

def AdmitLink.ShuffleAnswered (cfg : RoomConfig) (link : AdmitLink) (r : Room) : Prop :=
  link.net.fate .poolSize = .answered ∧ link.net.fate .activeSize = .answered ∧
    (r.pool ≠ [] → r.active = [] → link.net.fate .pipeline = .answered ∧
      match cfg.backend with
      | .redis => link.net.fate .range = .answered
      | .kv => link.net.fate .putPool = .answered ∧ link.net.fate .putMark = .answered)

/-- What the call works with: on Redis a missing bucket where the `GET` has failed. -/
def AdmitLink.bucketRead (link : AdmitLink) (entry : Option (Expiring BucketState)) :
    Option BucketState :=
  if link.net.fate .getBucket = .answered then Expiring.live entry (link.net.clock .getBucket)
  else none

/-- The room that the shuffle of the call leaves. -/
def AdmitLink.shuffled (cfg : RoomConfig) (link : AdmitLink) (q : AdmitRequest) (r : Room) : Room :=
  r.maybeShufflePool cfg (link.net.clock .pipeline) q.draws

structure PassesBucket (cfg : RoomConfig) (link : AdmitLink) (batch : BatchField) (r : Room) : Prop where
  counted : link.net.fate .card = .answered
  waiting : r.active ≠ []
  read : cfg.backend = .kv → link.net.fate .getBucket = .answered
  written : link.net.fate .setBucket = .answered
  allowed : batch.want r.active.length ≤
    bucketTokens cfg.fl cfg.rate (link.bucketRead r.bucket) (link.net.clock .getBucket)

structure ReachesPop (cfg : RoomConfig) (link : AdmitLink) (q : AdmitRequest) (r : Room) : Prop where
  authorized : q.authorized cfg = true
  shuffle : link.ShuffleAnswered cfg r
  passes : PassesBucket cfg link q.batch (link.shuffled cfg q r)

theorem shuffleOnRedis_answered (hb : cfg.backend = .redis) (draws : Nat → Draw)
    (h : link.ShuffleAnswered cfg s.room) : ∃ b, shuffleOnRedis link draws s =
      (.ok b, s.setRoom (s.room.maybeShufflePool cfg (link.net.clock .pipeline) draws)) := by
  obtain ⟨hpool, hactive, hrest⟩ := h
  rw [shuffleOnRedis, bind_ok (call_answered hpool), bind_ok (call_answered hactive)]
  dsimp only
  rw [Room.maybeShufflePool]
  by_cases hp : s.room.pool.length = 0
  · rw [if_pos hp, if_pos hp]
    exact ⟨false, rfl⟩
  · rw [if_neg hp, if_neg hp]
    by_cases ha : 0 < s.room.active.length
    · rw [if_pos ha, if_pos ha]
      exact ⟨false, rfl⟩
    · have hnil : s.room.active = [] := List.length_eq_zero_iff.mp (Nat.eq_zero_of_not_pos ha)
      obtain ⟨hpipe, hrange⟩ := hrest (fun hn => hp (by simp [hn])) hnil
      simp only [hb] at hrange
      have hfound : ¬ (members s.room.pool).length = 0 := by simpa [members] using hp
      rw [if_neg ha, if_neg ha, bind_ok (call_answered hrange)]
      dsimp only
      rw [if_neg hfound, bind_ok (call_answered hpipe), hb]
      exact ⟨true, rfl⟩

theorem shuffleOnKv_answered (hb : cfg.backend = .kv) (draws : Nat → Draw)
    (h : link.ShuffleAnswered cfg s.room) :
    let r := s.room.maybeShufflePool cfg (link.net.clock .pipeline) draws
    ∃ b admitted, shuffleOnKv link draws s = (.ok b, s.setRoom { r with admitted }) ∧
      (link.net.clock .putMark = link.net.clock .pipeline → admitted = r.admitted) := by
  obtain ⟨hpool, hactive, hrest⟩ := h
  rw [shuffleOnKv, bind_ok (call_answered hpool), bind_ok (call_answered hactive)]
  dsimp only
  rw [Room.maybeShufflePool]
  by_cases hp : s.room.pool.length = 0
  · rw [if_pos hp, if_pos hp]
    exact ⟨false, s.room.admitted, rfl, fun _ => rfl⟩
  · rw [if_neg hp, if_neg hp]
    by_cases ha : 0 < s.room.active.length
    · rw [if_pos ha, if_pos ha]
      exact ⟨false, s.room.admitted, rfl, fun _ => rfl⟩
    · have hnil : s.room.active = [] := List.length_eq_zero_iff.mp (Nat.eq_zero_of_not_pos ha)
      obtain ⟨hpipe, hput⟩ := hrest (fun hn => hp (by simp [hn])) hnil
      simp only [hb] at hput
      rw [if_neg ha, if_neg ha, bind_ok (call_answered hpipe), bind_ok (call_answered hput.1),
        bind_ok (call_answered hput.2), hb]
      exact ⟨true, _, rfl, fun hclock => by rw [hclock]⟩

/-- An answered shuffle does what the atomic one does, up to the deadline of the watermark. -/
theorem shuffleCalls_run (draws : Nat → Draw) (h : link.ShuffleAnswered cfg s.room) :
    let r := s.room.maybeShufflePool cfg (link.net.clock .pipeline) draws
    ∃ b admitted, shuffleCalls cfg link draws s = (.ok b, s.setRoom { r with admitted }) ∧
      (link.net.clock .putMark = link.net.clock .pipeline → admitted = r.admitted) := by
  unfold shuffleCalls
  cases hb : cfg.backend with
  | redis =>
    obtain ⟨b, hrun⟩ := shuffleOnRedis_answered hb draws h
    exact ⟨b, _, hrun, fun _ => rfl⟩
  | kv => exact shuffleOnKv_answered hb draws h

theorem shuffleCalls_answered (h : link.ShuffleAnswered cfg s.room) :
    ∃ b s', shuffleCalls cfg link q.draws s = (.ok b, s') ∧ s.SameCounts s' ∧
      s'.room.active = (link.shuffled cfg q s.room).active ∧
      s'.room.bucket = (link.shuffled cfg q s.room).bucket ∧
      (link.net.clock .putMark = link.net.clock .pipeline →
        s'.room = link.shuffled cfg q s.room) := by
  obtain ⟨b, admitted, hrun, hmark⟩ := shuffleCalls_run q.draws h
  refine ⟨b, _, hrun, ⟨rfl, rfl⟩, rfl, rfl, fun hclock => ?_⟩
  rw [hmark hclock]
  rfl

theorem shuffleOnRedis_failed (hb : cfg.backend = .redis) (draws : Nat → Draw)
    (h : ¬ link.ShuffleAnswered cfg s.room) : Throws (shuffleOnRedis link draws) s := by
  refine .call fun hpool => .call fun hactive => ?_
  have hnot : ¬ (s.room.pool ≠ [] → s.room.active = [] →
      link.net.fate .pipeline = .answered ∧ link.net.fate .range = .answered) := by
    intro hall
    refine h ⟨hpool, hactive, ?_⟩
    simpa only [hb] using hall
  simp only [Classical.not_imp] at hnot
  obtain ⟨hp, ha, hlost⟩ := hnot
  have hfound : ¬ (members s.room.pool).length = 0 := by simpa [members] using hp
  rw [if_neg (by simpa using hp), if_neg (by simp [ha])]
  refine .call fun hrange => ?_
  rw [if_neg hfound]
  exact .call fun hpipe => absurd ⟨hpipe, hrange⟩ hlost

theorem shuffleOnKv_failed (hb : cfg.backend = .kv) (draws : Nat → Draw)
    (h : ¬ link.ShuffleAnswered cfg s.room) : Throws (shuffleOnKv link draws) s := by
  refine .call fun hpool => .call fun hactive => ?_
  have hnot : ¬ (s.room.pool ≠ [] → s.room.active = [] →
      link.net.fate .pipeline = .answered ∧ link.net.fate .putPool = .answered ∧
        link.net.fate .putMark = .answered) := by
    intro hall
    refine h ⟨hpool, hactive, ?_⟩
    simpa only [hb] using hall
  simp only [Classical.not_imp] at hnot
  obtain ⟨hp, ha, hlost⟩ := hnot
  rw [if_neg (by simpa using hp), if_neg (by simp [ha])]
  exact .call fun hpipe => .call fun hput => .call fun hmark => absurd ⟨hpipe, hput, hmark⟩ hlost

theorem shuffleCalls_failed (draws : Nat → Draw) (h : ¬ link.ShuffleAnswered cfg s.room) :
    Throws (shuffleCalls cfg link draws) s := by
  unfold shuffleCalls
  cases hb : cfg.backend with
  | redis => exact shuffleOnRedis_failed hb draws h
  | kv => exact shuffleOnKv_failed hb draws h

theorem shuffleCalls_empty (draws : Nat → Draw) (hp : s.room.pool = []) :
    (shuffleCalls cfg link draws s).2 = s := by
  have hlen : s.room.pool.length = 0 := by rw [hp]; rfl
  unfold shuffleCalls
  cases cfg.backend with
  | redis =>
    refine read_bind_keeps (read_bind_keeps ?_)
    dsimp only
    rw [if_pos hlen, pure_run]
  | kv =>
    refine read_bind_keeps (read_bind_keeps ?_)
    dsimp only
    rw [if_pos hlen, pure_run]

theorem readBucket_answered (hget : cfg.backend = .kv → link.net.fate .getBucket = .answered) :
    readBucket cfg link s = (.ok (link.bucketRead s.room.bucket), s) := by
  unfold readBucket AdmitLink.bucketRead
  cases hb : cfg.backend with
  | redis => exact read_catch_run _ _ _ _ _
  | kv =>
    rw [if_pos (hget hb)]
    exact call_answered (hget hb)

def AdmitServer.debit (cfg : RoomConfig) (link : AdmitLink) (s : AdmitServer) (need : ℚ) :
    AdmitServer :=
  let now := link.net.clock .getBucket
  let state := link.bucketRead s.room.bucket
  let out := tokenBucketConsume cfg.fl cfg.rate state now need
  { s with
    room := { s.room with bucket := some ⟨out.2, some (link.net.clock .setBucket + 120000)⟩ }
    debited := if out.1.allowed then s.debited + need else s.debited }

theorem bucketCalls_answered (hget : cfg.backend = .kv → link.net.fate .getBucket = .answered)
    (hset : link.net.fate .setBucket = .answered) (need : ℚ) : bucketCalls cfg link need s =
      (.ok (tokenBucketConsume cfg.fl cfg.rate (link.bucketRead s.room.bucket) (link.net.clock .getBucket)
        need).1, s.debit cfg link need) := by
  rw [bucketCalls, bind_ok (readBucket_answered hget), bind_ok (call_answered hset)]
  rfl

theorem bucketCalls_failed (hset : link.net.fate .setBucket ≠ .answered) (need : ℚ) :
    Throws (bucketCalls cfg link need) s :=
  .after fun _ _ _ => .call fun hf => absurd hf hset

def AdmitLink.refuses (cfg : RoomConfig) (link : AdmitLink) (batch : BatchField) (r : Room) : Prop :=
  bucketTokens cfg.fl cfg.rate (link.bucketRead r.bucket) (link.net.clock .getBucket) <
    batch.want r.active.length

theorem bucketGate_answered {batch : BatchField} (hcard : link.net.fate .card = .answered)
    (hlen : s.room.active.length ≠ 0)
    (hget : cfg.backend = .kv → link.net.fate .getBucket = .answered)
    (hset : link.net.fate .setBucket = .answered) :
    let want := batch.want s.room.active.length
    let out := (tokenBucketConsume cfg.fl cfg.rate (link.bucketRead s.room.bucket)
      (link.net.clock .getBucket) want).1
    bucketGate cfg link batch s = (.ok (if out.allowed = false then
      .inl (.rateLimited out.retryAfterMs out.remaining s.room.active.length)
      else .inr (want, out.remaining)), s.debit cfg link want) := by
  dsimp only
  rw [bucketGate, bind_ok (call_answered hcard)]
  dsimp only
  rw [if_neg hlen, bind_ok (bucketCalls_answered hget hset _)]
  by_cases hallowed : (tokenBucketConsume cfg.fl cfg.rate (link.bucketRead s.room.bucket)
      (link.net.clock .getBucket) (batch.want s.room.active.length)).1.allowed = false
  · rw [if_pos hallowed, if_pos hallowed]
    rfl
  · rw [if_neg hallowed, if_neg hallowed]
    rfl

theorem bucketGate_passes {batch : BatchField} (h : PassesBucket cfg link batch s.room) :
    ∃ remaining s', bucketGate cfg link batch s =
      (.ok (.inr (batch.want s.room.active.length, remaining)), s') ∧
      s'.room.active = s.room.active ∧ s'.popped = s.popped ∧
      s'.debited = s.debited + batch.want s.room.active.length := by
  have hlen : s.room.active.length ≠ 0 := fun he => h.waiting (List.length_eq_zero_iff.mp he)
  have hallowed := not_lt.mpr h.allowed
  rw [bucketGate_answered h.counted hlen h.read h.written]
  simp only [AdmitServer.debit, tokenBucketConsume, if_neg hallowed]
  exact ⟨_, _, rfl, rfl, rfl, rfl⟩

theorem bucketGate_empty {batch : BatchField} (hcard : link.net.fate .card = .answered)
    (hlen : s.room.active.length = 0) :
    bucketGate cfg link batch s = (.ok (.inl .queueEmpty), s) := by
  rw [bucketGate, bind_ok (call_answered hcard)]
  dsimp only
  rw [if_pos hlen]
  rfl

theorem bucketGate_refused {batch : BatchField} (hcard : link.net.fate .card = .answered)
    (hlen : s.room.active.length ≠ 0)
    (hget : cfg.backend = .kv → link.net.fate .getBucket = .answered)
    (hset : link.net.fate .setBucket = .answered) (h : ¬ PassesBucket cfg link batch s.room) :
    ∃ reply s', bucketGate cfg link batch s = (.ok (.inl reply), s') ∧
      s'.room.active = s.room.active ∧ s.SameCounts s' := by
  have hne : s.room.active ≠ [] := fun he => hlen (by simp [he])
  have hrefused : link.refuses cfg batch s.room :=
    not_le.mp fun hallowed => h ⟨hcard, hne, hget, hset, hallowed⟩
  rw [AdmitLink.refuses] at hrefused
  rw [bucketGate_answered hcard hlen hget hset]
  simp only [AdmitServer.debit, tokenBucketConsume, if_pos hrefused]
  exact ⟨_, _, rfl, rfl, rfl, rfl⟩

theorem bucketGate_failed {batch : BatchField} (h : ¬ (link.net.fate .card = .answered ∧
    (s.room.active.length ≠ 0 → link.net.fate .setBucket = .answered))) :
    Throws (bucketGate cfg link batch) s := by
  refine .call fun hcard => ?_
  obtain ⟨hlen, hset⟩ := Classical.not_imp.mp fun hall => h ⟨hcard, hall⟩
  dsimp only
  rw [if_neg hlen]
  exact (bucketCalls_failed hset _).bind

/-- A call that the bucket does not let pass ends with a reply or an exception. -/
theorem bucketGate_stops {batch : BatchField} (hb : cfg.backend = .redis)
    (h : ¬ PassesBucket cfg link batch s.room) (w : ℚ × Int) :
    (bucketGate cfg link batch s).1 ≠ .ok (.inr w) := by
  by_cases hcalls : link.net.fate .card = .answered ∧
      (s.room.active.length ≠ 0 → link.net.fate .setBucket = .answered)
  · obtain ⟨hcard, hset⟩ := hcalls
    by_cases hlen : s.room.active.length = 0
    · rw [bucketGate_empty hcard hlen]
      intro he
      cases he
    · have hkv : cfg.backend = .kv → link.net.fate .getBucket = .answered := by simp [hb]
      obtain ⟨reply, s', hrun, -⟩ := bucketGate_refused hcard hlen hkv (hset hlen) h
      rw [hrun]
      intro he
      cases he
  · exact (bucketGate_failed hcalls).not_ok _

theorem bucketGate_turnsAway {batch : BatchField}
    (hnet : ∀ c, c ≠ .popMin → link.net.fate c = .answered)
    (h : ¬ PassesBucket cfg link batch s.room) : ∃ reply s',
    bucketGate cfg link batch s = (.ok (.inl reply), s') ∧ s'.room.active = s.room.active ∧
      s.SameCounts s' := by
  have hcard : link.net.fate .card = .answered := hnet .card nofun
  by_cases hlen : s.room.active.length = 0
  · exact ⟨_, s, bucketGate_empty hcard hlen, rfl, rfl, rfl⟩
  · exact bucketGate_refused hcard hlen (fun _ => hnet .getBucket nofun) (hnet .setBucket nofun) h

theorem PassesBucket.congr {batch : BatchField} {r r' : Room} (ha : r'.active = r.active)
    (hb : r'.bucket = r.bucket) :
    PassesBucket cfg link batch r' ↔ PassesBucket cfg link batch r := by
  constructor <;> intro h
  · exact ⟨h.counted, ha ▸ h.waiting, h.read, h.written, ha ▸ hb ▸ h.allowed⟩
  · exact ⟨h.counted, ha ▸ h.waiting, h.read, h.written, ha ▸ hb ▸ h.allowed⟩

theorem gateCalls_reaches (h : ReachesPop cfg link q s.room) : ∃ remaining s',
    gateCalls cfg link q s =
      (.ok (.inr (q.batch.want (link.shuffled cfg q s.room).active.length, remaining)), s') ∧
    s'.room.active = (link.shuffled cfg q s.room).active ∧ s'.popped = s.popped ∧
    s'.debited = s.debited + q.batch.want (link.shuffled cfg q s.room).active.length := by
  obtain ⟨b, s₁, hshuffle, ⟨hpopped, hdebited⟩, hactive, hbucket, -⟩ :=
    shuffleCalls_answered (q := q) h.shuffle
  have hpass := (PassesBucket.congr hactive hbucket).mpr h.passes
  obtain ⟨remaining, s', hgate, ha, hp, hd⟩ := bucketGate_passes hpass
  rw [gateCalls, if_neg (by simp [h.authorized]), bind_ok hshuffle, hgate, ← hactive, ← hpopped,
    ← hdebited]
  exact ⟨remaining, s', rfl, ha, hp, hd⟩

theorem gateCalls_stops (hb : cfg.backend = .redis) (h : ¬ ReachesPop cfg link q s.room)
    (w : ℚ × Int) : (gateCalls cfg link q s).1 ≠ .ok (.inr w) := by
  rw [gateCalls]
  cases ha : q.authorized cfg with
  | false =>
    rw [if_pos rfl]
    exact nofun
  | true =>
    rw [if_neg (by simp)]
    by_cases hs : link.ShuffleAnswered cfg s.room
    · obtain ⟨b, s₁, hshuffle, -, hactive, hbucket, -⟩ := shuffleCalls_answered (q := q) hs
      rw [bind_ok hshuffle]
      exact bucketGate_stops hb
        (fun hpass => h ⟨ha, hs, (PassesBucket.congr hactive hbucket).mp hpass⟩) w
    · exact (shuffleCalls_failed q.draws hs).bind.not_ok _

theorem shuffleOnRedis_keeps (draws : Nat → Draw) (popped : List String) :
    Keeps (fun s : AdmitServer => s.popped = popped) (shuffleOnRedis link draws) := by
  refine .bind ?_ fun pSize => .bind ?_ fun aSize => .ite (.pure _) (.ite (.pure _) (.bind ?_
    fun found => .ite (.pure _) (.bind ?_ fun _ => .pure _)))
  all_goals exact .call fun _ _ h => h

theorem bucketGate_keeps (batch : BatchField) (hb : cfg.backend = .redis) (popped : List String) :
    Keeps (fun s : AdmitServer => s.popped = popped) (bucketGate cfg link batch) := by
  have hread : Keeps (fun s : AdmitServer => s.popped = popped) (readBucket cfg link) := by
    rw [readBucket, hb]
    exact .catch (.call fun _ _ h => h) fun _ => .pure none
  refine .bind ?_ fun activeSize => .ite (.pure _) (.bind (.bind hread fun state => .bind ?_
    fun _ => .pure _) fun bucket => .ite (.pure _) (.pure _))
  all_goals exact .call fun _ _ h => h

theorem gateCalls_keeps (link : AdmitLink) (q : AdmitRequest) (hb : cfg.backend = .redis)
    (popped : List String) :
    Keeps (fun s : AdmitServer => s.popped = popped) (gateCalls cfg link q) := by
  refine .ite (.pure _) (.bind ?_ fun _ => bucketGate_keeps q.batch hb popped)
  rw [shuffleCalls, hb]
  exact shuffleOnRedis_keeps q.draws popped

end Gate

section Demo

def demoLink (fate : AdmitCall → CallFate) : AdmitLink where
  net := ⟨fate, fun _ => 2000⟩
  nested := false
  scoreText _ := "1000"

end Demo

end CrowdTic
