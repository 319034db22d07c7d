import CrowdTic.AdmitSteps
import CrowdTic.RetryAfter

/-! Whom an admission pops and what it pays for them: the head of the queue,
for no more than the tokens that it has taken from the bucket. -/

namespace CrowdTic

open Ranked Remote

/-- Every call is answered, but on Redis the `ZPOPMIN` with the count may be refused. -/
structure AdmitLink.Answers (link : AdmitLink) (b : Backend) : Prop where
  others : ∀ c, c ≠ .popMin → link.net.fate c = .answered
  pop : link.net.fate .popMin ≠ .failedAfter
  get : b = .kv → link.net.fate .popMin = .answered

/-- The queue that a call finds, behind the shuffle if it makes one. -/
def AdmitLink.queue (cfg : RoomConfig) (link : AdmitLink) (q : AdmitRequest) (r : Room) : List Entry :=
  if q.authorized cfg then (link.shuffled cfg q r).active else r.active

/-- The popped users are the ones with the lowest scores, in the order of their scores, the others
have kept theirs, and the bucket was debited for every one of them. -/
def PaidHead (queue : List Entry) (s : AdmitServer) : Prop :=
  ∃ head, s.popped = members head ∧ (head ++ s.room.active).Perm queue ∧
    head.Pairwise ScoreLE ∧ (∀ x ∈ head, ∀ y ∈ s.room.active, x.score ≤ y.score) ∧
      (head.length : ℚ) ≤ s.debited ∧ s.debited ≤ admitBatch

section Head

variable {cfg : RoomConfig} {link : AdmitLink} {q : AdmitRequest} {s : AdmitServer} {r : Room}

theorem scoreLE_of_order {b : Backend} {x y : Entry} (h : b.order x y) : ScoreLE x y := by
  cases b with
  | redis =>
    rcases h with hlt | ⟨heq, -⟩
    · exact hlt.le
    · exact heq.le
  | kv => exact h

theorem popCalls_answered (hnet : link.Answers cfg.backend) {want : ℚ}
    (hl : want ≤ s.room.active.length) :
    let queue := cfg.backend.front s.room.active
    let k := cfg.backend.popCount want
    ∃ s', popCalls cfg link want s = (.ok (members (queue.take k)), s') ∧
      s'.room = { s.room with active := queue.drop k } ∧
      s'.popped = s.popped ++ members (queue.take k) ∧ s'.debited = s.debited := by
  cases hb : cfg.backend with
  | kv =>
    have hpop := popOnKv_answered want s (hnet.get hb) (hnet.others .putQueue nofun)
    refine ⟨_, Eq.trans ?_ hpop, rfl, rfl, rfl⟩
    rw [popCalls, hb]
  | redis =>
    have hle : ⌈want⌉.toNat ≤ s.room.active.length :=
      Int.toNat_le.mpr (Int.ceil_le.mpr (by exact_mod_cast hl))
    have hrun : popCalls cfg link want s =
        (.ok (members (s.room.active.take ⌈want⌉.toNat)), (s.popMin ⌈want⌉.toNat).2) := by
      rw [popCalls, hb]
      by_cases hc : want.den = 1 ∧ link.net.fate .popMin = .answered
      · exact popOnRedis_answered hc.1 hc.2
      · have hrefused : want.den = 1 → link.net.fate .popMin = .failedBefore := by
          intro hd
          cases hf : link.net.fate .popMin with
          | answered => exact absurd ⟨hd, hf⟩ hc
          | failedBefore => rfl
          | failedAfter => exact absurd hf hnet.pop
        rw [← List.nil_append (members _)]
        exact (popOnRedis_refused hrefused).trans
          (popLoop_answered 0 [] hle fun j _ => hnet.others _ nofun)
    exact ⟨_, hrun, rfl, rfl, rfl⟩

theorem gateCalls_unauthorized (ha : q.authorized cfg = false) :
    gateCalls cfg link q s = (.ok (.inl .unauthorized), s) := by
  rw [gateCalls, if_pos ha]
  rfl

theorem shuffleAnswered_of_answers (hnet : link.Answers cfg.backend) (r : Room) :
    link.ShuffleAnswered cfg r := by
  refine ⟨hnet.others _ nofun, hnet.others _ nofun, fun _ _ => ⟨hnet.others _ nofun, ?_⟩⟩
  cases cfg.backend with
  | redis => exact hnet.others _ nofun
  | kv => exact ⟨hnet.others _ nofun, hnet.others _ nofun⟩

theorem turned_away_run (hnet : link.Answers cfg.backend) (h : ¬ ReachesPop cfg link q r) :
    let run := handleAdmitCalls cfg link q ⟨r, [], 0⟩
    run.2.room.active = link.queue cfg q r ∧ run.2.popped = [] ∧ run.2.debited = 0 := by
  dsimp only
  rw [handleAdmitCalls, AdmitLink.queue]
  cases ha : q.authorized cfg with
  | false =>
    rw [bind_ok (gateCalls_unauthorized ha)]
    exact ⟨rfl, rfl, rfl⟩
  | true =>
    have hshuffled := shuffleAnswered_of_answers hnet r
    obtain ⟨b, s₁, hshuffle, ⟨hpopped, hdebited⟩, hactive, hbucket, -⟩ :=
      shuffleCalls_answered (s := ⟨r, [], 0⟩) (q := q) hshuffled
    have hpass : ¬ PassesBucket cfg link q.batch s₁.room := fun hpass =>
      h ⟨ha, hshuffled, (PassesBucket.congr hactive hbucket).mp hpass⟩
    obtain ⟨reply, s₂, hrun, hsame, hp, hd⟩ := bucketGate_turnsAway hnet.others hpass
    have hgate : gateCalls cfg link q ⟨r, [], 0⟩ = (.ok (.inl reply), s₂) := by
      rw [gateCalls, if_neg (by simp [ha]), bind_ok hshuffle, hrun]
    rw [bind_ok hgate]
    exact ⟨hsame.trans hactive, hp.trans hpopped, hd.trans hdebited⟩

theorem popped_run (hnet : link.Answers cfg.backend) (hjwt : cfg.jwtSecret ≠ "")
    (h : ReachesPop cfg link q r) :
    let run := handleAdmitCalls cfg link q ⟨r, [], 0⟩
    let want := q.batch.want (link.queue cfg q r).length
    let queue := cfg.backend.front (link.queue cfg q r)
    let k := cfg.backend.popCount want
    run.2.room.active = queue.drop k ∧ run.2.popped = members (queue.take k) ∧
      run.2.debited = want := by
  have hqueue : link.queue cfg q r = (link.shuffled cfg q r).active := if_pos h.authorized
  obtain ⟨remaining, s₁, hgate, hactive, hpopped, hdebited⟩ := gateCalls_reaches (s := ⟨r, [], 0⟩) h
  have hl : q.batch.want (link.shuffled cfg q r).active.length ≤ s₁.room.active.length := by
    rw [hactive]
    exact (want_le _ _).1
  obtain ⟨s₂, hpop, hroom, hp, hd⟩ := popCalls_answered hnet hl
  obtain ⟨out, s₃, hrun, ⟨ha', hp', hd'⟩, -⟩ :=
    markAndSign_run link hjwt _ remaining s₂
  dsimp only
  rw [hqueue, handleAdmitCalls, bind_ok hgate]
  dsimp only
  rw [bind_ok hpop, hrun, ha', hp', hd', hroom, hp, hd, hactive, hpopped, hdebited]
  exact ⟨rfl, rfl, zero_add _⟩

theorem popAndSign_atomic {now : Nat} (hnet : link.Answers cfg.backend) (hjwt : cfg.jwtSecret ≠ "")
    (hclock : ∀ c, link.net.clock c = now) (hs : s.popped = []) {want : ℚ}
    (hl : want ≤ s.room.active.length) (remaining : Int) :
    let run := (popCalls cfg link want >>= fun users => markAndSign cfg link users remaining) s
    let admission := s.room.popFront cfg now want remaining
    run.1 = .ok admission.reply ∧ run.2.room = admission.room ∧ run.2.popped = admission.popped := by
  obtain ⟨s₂, hpop, hroom, hp, -⟩ := popCalls_answered hnet hl
  have hmark (k : Nat) : link.MarkAnswered k :=
    ⟨hnet.others _ nofun, hnet.others _ nofun, fun _ _ => hnet.others _ nofun⟩
  dsimp only
  rw [bind_ok hpop, markAndSign_answered hjwt remaining (hmark _), hclock, hclock, Room.popFront,
    if_neg fun h => hjwt h.1]
  refine ⟨?_, ?_, ?_⟩
  · rw [hroom]
    rfl
  · rw [AdmitServer.setRoom, hroom]
    rfl
  · rw [AdmitServer.setRoom, hp, hs]
    rfl

/-- A run whose calls are answered at one instant does what the atomic admission does. -/
theorem handleAdmitCalls_atomic {now : Nat} (hnet : link.Answers cfg.backend)
    (hjwt : cfg.jwtSecret ≠ "") (hclock : ∀ c, link.net.clock c = now) :
    let run := handleAdmitCalls cfg link q ⟨r, [], 0⟩
    let admission := r.handleAdmit cfg now q
    run.1 = .ok admission.reply ∧ run.2.room = admission.room ∧ run.2.popped = admission.popped := by
  dsimp only
  rw [handleAdmitCalls, Room.handleAdmit]
  cases ha : q.authorized cfg with
  | false =>
    rw [bind_ok (gateCalls_unauthorized ha), if_pos rfl]
    exact ⟨rfl, rfl, rfl⟩
  | true =>
    have hcard : link.net.fate .card = .answered := hnet.others .card (by simp)
    have hget : link.net.fate .getBucket = .answered := hnet.others .getBucket (by simp)
    have hset : link.net.fate .setBucket = .answered := hnet.others .setBucket (by simp)
    obtain ⟨b, s₁, hshuffle, ⟨hpopped, -⟩, -, -, hsame⟩ :=
      shuffleCalls_answered (s := ⟨r, [], 0⟩) (q := q) (shuffleAnswered_of_answers hnet r)
    have hroom : s₁.room = r.maybeShufflePool cfg now q.draws := by
      rw [hsame (by rw [hclock, hclock]), AdmitLink.shuffled, hclock]
    have hgate : gateCalls cfg link q ⟨r, [], 0⟩ = bucketGate cfg link q.batch s₁ := by
      rw [gateCalls, if_neg (by simp [ha]), bind_ok hshuffle]
    rw [if_neg (by simp), ← hroom]
    dsimp only
    by_cases hlen : s₁.room.active.length = 0
    · rw [bind_ok (hgate.trans (bucketGate_empty hcard hlen)), if_pos hlen]
      exact ⟨rfl, rfl, hpopped⟩
    · have hread : link.bucketRead s₁.room.bucket = Expiring.live s₁.room.bucket now := by
        rw [AdmitLink.bucketRead, if_pos hget, hclock]
      rw [bind_ok (hgate.trans (bucketGate_answered hcard hlen (fun _ => hget) hset)), if_neg hlen,
        hread, hclock]
      cases hout : tokenBucketConsume cfg.fl cfg.rate (Expiring.live s₁.room.bucket now) now
          (q.batch.want s₁.room.active.length) with
      | mk out b' =>
        have hdebit : (s₁.debit cfg link (q.batch.want s₁.room.active.length)).room =
            { s₁.room with bucket := some ⟨b', some (now + 120000)⟩ } := by
          simp only [AdmitServer.debit, hread, hclock, hout]
        dsimp only
        cases hallowed : out.allowed with
        | false =>
          rw [if_pos rfl, if_pos rfl]
          exact ⟨rfl, hdebit, hpopped⟩
        | true =>
          rw [if_neg (by simp), if_neg (by simp), ← hdebit]
          have hnobody : (s₁.debit cfg link (q.batch.want s₁.room.active.length)).popped = [] := hpopped
          refine popAndSign_atomic hnet hjwt hclock hnobody ?_ _
          rw [hdebit]
          exact (want_le _ _).1

/-- The loop behind a refused `ZPOPMIN` rounds a fraction up. -/
theorem popCount_le_iff (b : Backend) {want : ℚ} (hw : 1 ≤ want) :
    (b.popCount want : ℚ) ≤ want ↔ b = .kv ∨ want.den = 1 := by
  cases b with
  | kv =>
    have hnonneg : 0 ≤ ⌊want⌋ := Int.floor_nonneg.mpr (by linarith)
    have hcast : ((⌊want⌋.toNat : Nat) : ℚ) = (⌊want⌋ : Int) := by
      exact_mod_cast Int.toNat_of_nonneg hnonneg
    refine iff_of_true ?_ (.inl rfl)
    rw [Backend.popCount, hcast]
    exact Int.floor_le want
  | redis =>
    have hnonneg : 0 ≤ ⌈want⌉ := Int.ceil_nonneg (by linarith)
    have hcast : ((⌈want⌉.toNat : Nat) : ℚ) = (⌈want⌉ : Int) := by
      exact_mod_cast Int.toNat_of_nonneg hnonneg
    rw [Backend.popCount, hcast, or_iff_right nofun]
    constructor
    · intro hle
      have heq : ((⌈want⌉ : Int) : ℚ) = want := le_antisymm hle (Int.le_ceil want)
      rw [← heq]
      exact Rat.den_intCast _
    · intro hd
      have hnum : (want.num : ℚ) = want := (Rat.den_eq_one_iff want).mp hd
      have hceil : ⌈want⌉ ≤ want.num := Int.ceil_le.mpr hnum.ge
      calc ((⌈want⌉ : Int) : ℚ) ≤ want.num := by exact_mod_cast hceil
        _ = want := hnum

theorem queue_pairwise (h : r.Ordered cfg.backend) :
    (link.queue cfg q r).Pairwise cfg.backend.order := by
  rw [AdmitLink.queue]
  cases q.authorized cfg with
  | false => exact h.active
  | true => exact (h.maybeShufflePool _ _).active

theorem queue_of_reaches (h : ReachesPop cfg link q r) :
    link.queue cfg q r = (link.shuffled cfg q r).active := if_pos h.authorized

theorem popCount_le (b : Backend) {want : ℚ} {n : Nat} (h : want ≤ n) : b.popCount want ≤ n := by
  have hceil : ⌈want⌉ ≤ (n : Int) := Int.ceil_le.mpr (by exact_mod_cast h)
  cases b with
  | redis => exact Int.toNat_le.mpr hceil
  | kv => exact Int.toNat_le.mpr ((Int.floor_le_ceil want).trans hceil)

theorem paidHead_of_split {queue : List Entry} {k : Nat} (hsorted : queue.Pairwise ScoreLE)
    (hk : k ≤ queue.length) (hactive : s.room.active = queue.drop k)
    (hpopped : s.popped = members (queue.take k)) (hmax : s.debited ≤ admitBatch) :
    PaidHead queue s ↔ (k : ℚ) ≤ s.debited := by
  have hlen : (queue.take k).length = k := List.length_take_of_le hk
  rw [← List.take_append_drop k queue, List.pairwise_append] at hsorted
  obtain ⟨hhead, -, hcross⟩ := hsorted
  constructor
  · rintro ⟨head, hmembers, -, -, -, hpaid, -⟩
    have hsame : head.length = k := by
      have hlengths := congrArg List.length (hmembers.symm.trans hpopped)
      rw [members, members, List.length_map, List.length_map, hlen] at hlengths
      exact hlengths
    rwa [hsame] at hpaid
  · intro hpaid
    refine ⟨queue.take k, hpopped, ?_, hhead, ?_, by rwa [hlen], hmax⟩
    · rw [hactive, List.take_append_drop]
    · rw [hactive]
      exact hcross

end Head

section Demo

def demoHalf : AdmitRequest := ⟨"", .truthy (some (3 / 2)), fun _ => demoDraw⟩

theorem demoLink_answers (b : Backend) : (demoLink fun _ => .answered).Answers b :=
  ⟨fun _ _ => rfl, nofun, fun _ => rfl⟩

end Demo

end CrowdTic
