import CrowdTic.AdmitSteps
import CrowdTic.RetryAfter

/-! Users whom a failing admission has removed from the queue. A call that fails
behind the pop throws the list of the popped users away. -/

namespace CrowdTic

open Ranked Remote

def tokensOf : Except Unit AdmitReply → List String
  | .ok (.admitted _ _ users) => users
  | _ => []

def NobodyDropped (run : Except Unit AdmitReply × AdmitServer) : Prop :=
  ∀ u ∈ run.2.popped, u ∈ tokensOf run.1 ∨ u ∈ members run.2.room.active

/-- The failures that nobody is lost by: none once somebody is popped. A loop whose first round is
refused has popped nobody. -/
def AdmitLink.KeepsUsers (link : AdmitLink) (want : ℚ) : Prop :=
  let k := ⌈want⌉.toNat
  if want.den = 1 ∧ link.net.fate .popMin ≠ .failedBefore then
    link.net.fate .popMin = .answered ∧ link.MarkAnswered k
  else
    link.net.fate (.popOne 0) = .failedBefore ∨
      (∀ i < k, link.net.fate (.popOne i) = .answered) ∧ link.MarkAnswered k

section Pop

variable {cfg : RoomConfig} {link : AdmitLink} {s : AdmitServer}

theorem exists_first {k : Nat} (hk : 0 < k) (hl : k ≤ s.room.active.length) :
    ∃ u rest, members s.room.active = u :: rest := by
  have hlen : 0 < (members s.room.active).length := by
    rw [members, List.length_map]
    omega
  exact List.exists_cons_of_length_pos hlen

/-- Where the first user of the queue is popped and gets no token, somebody is lost. -/
theorem not_nobodyDropped {run : Except Unit AdmitReply × AdmitServer} {m : Nat} (hm : 0 < m)
    (hn : (members s.room.active).Nodup) (hs : s.popped = []) {u : String} {rest : List String}
    (hu : members s.room.active = u :: rest) (hrun : (s.popMin m).2.SameQueue run.2)
    (htoken : u ∉ tokensOf run.1) : ¬ NobodyDropped run := by
  obtain ⟨hactive, hpopped, -⟩ := hrun
  obtain ⟨m, rfl⟩ := Nat.exists_eq_succ_of_ne_zero hm.ne'
  have hout : members run.2.room.active = rest.drop m := by
    have hdrop : members (s.popMin (m + 1)).2.room.active = (members s.room.active).drop (m + 1) :=
      List.map_drop
    rw [hactive, hdrop, hu, List.drop_succ_cons]
  have hin : u ∈ run.2.popped := by
    have htake : (s.popMin (m + 1)).2.popped = (members s.room.active).take (m + 1) := by
      simp [AdmitServer.popMin, hs, members, List.map_take]
    rw [hpopped, htake, hu, List.take_succ_cons]
    exact List.mem_cons_self
  rw [hu] at hn
  intro h
  rcases h u hin with ht | ha
  · exact htoken ht
  · rw [hout] at ha
    exact (List.nodup_cons.mp hn).1 (List.mem_of_mem_drop ha)

theorem markAndSign_nobodyDropped (hjwt : cfg.jwtSecret ≠ "") (hn : (members s.room.active).Nodup)
    (hs : s.popped = []) {k : Nat} (hk : 0 < k) (hl : k ≤ s.room.active.length) (remaining : Int) :
    NobodyDropped (markAndSign cfg link (members (s.room.active.take k)) remaining (s.popMin k).2) ↔
      link.MarkAnswered k := by
  have hlen : (members (s.room.active.take k)).length = k := by simp [members, hl]
  obtain ⟨out, s', hrun, hsame, hout⟩ := markAndSign_run link hjwt
    (members (s.room.active.take k)) remaining (s.popMin k).2
  rw [hrun]
  rw [hlen] at hout
  rcases hout with ⟨hmark, mark, rfl⟩ | ⟨hmark, rfl⟩
  · refine iff_of_true (fun u hu => .inl ?_) hmark
    rw [hsame.2.1] at hu
    simpa [AdmitServer.popMin, hs, tokensOf] using hu
  · obtain ⟨u, rest, hu⟩ := exists_first hk hl
    exact iff_of_false (not_nobodyDropped hk hn hs hu hsame List.not_mem_nil) hmark

/-- A `ZPOPMIN` whose answer is lost: the loop signs for the users behind those that it popped. -/
theorem lost_pop_drops (hb : cfg.backend = .redis) (hjwt : cfg.jwtSecret ≠ "")
    (hn : (members s.room.active).Nodup) (hs : s.popped = []) {want : ℚ} (hd : want.den = 1)
    (hk : 0 < ⌈want⌉.toNat) {u : String} {rest : List String} (hu : members s.room.active = u :: rest)
    (h : link.net.fate .popMin = .failedAfter) (remaining : Int) : ¬ NobodyDropped
      ((popCalls cfg link want >>= fun users => markAndSign cfg link users remaining) s) := by
  obtain ⟨m, out, hloop, hout⟩ := popLoop_run link 0 ⌈want⌉.toNat []
    (s.popMin ⌈want⌉.toNat).2
  have hpop : popCalls cfg link want s = (out, (s.popMin (⌈want⌉.toNat + m)).2) := by
    rw [popCalls, hb, ← popMin_popMin, ← hloop]
    exact popOnRedis_lost hd h
  have hpos : 0 < ⌈want⌉.toNat + m := Nat.add_pos_left hk m
  rcases hout with rfl | rfl
  · rw [bind_ok hpop]
    obtain ⟨out, s', hrun, hsame, hout⟩ := markAndSign_run link hjwt
      ([] ++ members ((s.popMin ⌈want⌉.toNat).2.room.active.take m)) remaining
      (s.popMin (⌈want⌉.toNat + m)).2
    rw [hrun]
    refine not_nobodyDropped hpos hn hs hu hsame fun ht => ?_
    rcases hout with ⟨-, mark, rfl⟩ | ⟨-, rfl⟩
    · have hlater : u ∈ (members s.room.active).drop ⌈want⌉.toNat := by
        have hm : u ∈ ((members s.room.active).drop ⌈want⌉.toNat).take m := by
          simpa [tokensOf, AdmitServer.popMin, members, List.map_drop, List.map_take] using ht
        exact List.mem_of_mem_take hm
      obtain ⟨k, hk'⟩ := Nat.exists_eq_succ_of_ne_zero hk.ne'
      rw [hu, hk', List.drop_succ_cons] at hlater
      rw [hu] at hn
      exact (List.nodup_cons.mp hn).1 (List.mem_of_mem_drop hlater)
    · exact absurd ht List.not_mem_nil
  · rw [bind_error hpop]
    exact not_nobodyDropped hpos hn hs hu ⟨rfl, rfl, rfl⟩ List.not_mem_nil

theorem refused_pop_nobodyDropped (hb : cfg.backend = .redis) (hjwt : cfg.jwtSecret ≠ "")
    (hn : (members s.room.active).Nodup) (hs : s.popped = []) {want : ℚ}
    (hk : 0 < ⌈want⌉.toNat) (hl : ⌈want⌉.toNat ≤ s.room.active.length)
    (h : want.den = 1 → link.net.fate .popMin = .failedBefore) (remaining : Int) : NobodyDropped
      ((popCalls cfg link want >>= fun users => markAndSign cfg link users remaining) s) ↔
        link.net.fate (.popOne 0) = .failedBefore ∨
          (∀ i < ⌈want⌉.toNat, link.net.fate (.popOne i) = .answered) ∧
            link.MarkAnswered ⌈want⌉.toNat := by
  have hpop : popCalls cfg link want s = popLoop link 0 ⌈want⌉.toNat [] s := by
    rw [popCalls, hb]
    exact popOnRedis_refused h
  by_cases h0 : link.net.fate (.popOne 0) = .failedBefore
  · refine iff_of_true ?_ (.inl h0)
    obtain ⟨k, hk'⟩ := Nat.exists_eq_succ_of_ne_zero hk.ne'
    rw [hk', popLoop, bind_error (call_failedBefore h0)] at hpop
    rw [bind_error hpop]
    intro u hu
    simp [hs] at hu
  · rw [or_iff_right h0]
    by_cases hall : ∀ i < ⌈want⌉.toNat, link.net.fate (.popOne i) = .answered
    · rw [popLoop_answered 0 [] hl (by simpa using hall)] at hpop
      rw [bind_ok hpop, List.nil_append, and_iff_right hall]
      exact markAndSign_nobodyDropped hjwt hn hs hk hl remaining
    · obtain ⟨m, hrun, hm⟩ := popLoop_failed 0 [] hl (by simpa using hall)
      rw [hrun] at hpop
      rw [bind_error hpop]
      obtain ⟨u, rest, hu⟩ := exists_first hk hl
      exact iff_of_false (not_nobodyDropped (hm h0) hn hs hu ⟨rfl, rfl, rfl⟩ List.not_mem_nil)
        fun hc => hall hc.1

theorem popAndSign_nobodyDropped (link : AdmitLink) (hb : cfg.backend = .redis)
    (hjwt : cfg.jwtSecret ≠ "") (hn : (members s.room.active).Nodup) (hs : s.popped = [])
    {want : ℚ} (hw : 1 ≤ want) (hl : want ≤ s.room.active.length) (remaining : Int) :
    NobodyDropped ((popCalls cfg link want >>= fun users => markAndSign cfg link users remaining) s) ↔
      link.KeepsUsers want := by
  have hk : 0 < ⌈want⌉.toNat := popCount_pos .redis hw
  have hle : ⌈want⌉.toNat ≤ s.room.active.length :=
    Int.toNat_le.mpr (Int.ceil_le.mpr (by exact_mod_cast hl))
  by_cases hc : want.den = 1 ∧ link.net.fate .popMin ≠ .failedBefore
  · rw [AdmitLink.KeepsUsers, if_pos hc]
    obtain ⟨hd, hf⟩ := hc
    cases h : link.net.fate .popMin with
    | failedBefore => exact absurd h hf
    | answered =>
      have hpop : popCalls cfg link want s = (.ok (members (s.room.active.take ⌈want⌉.toNat)),
          (s.popMin ⌈want⌉.toNat).2) := by
        rw [popCalls, hb]
        exact popOnRedis_answered hd h
      rw [bind_ok hpop, and_iff_right rfl]
      exact markAndSign_nobodyDropped hjwt hn hs hk hle remaining
    | failedAfter =>
      obtain ⟨u, rest, hu⟩ := exists_first hk hle
      exact iff_of_false (lost_pop_drops hb hjwt hn hs hd hk hu h remaining) nofun
  · rw [AdmitLink.KeepsUsers, if_neg hc]
    exact refused_pop_nobodyDropped hb hjwt hn hs hk hle
      (fun hd => by_contra fun hf => hc ⟨hd, hf⟩) remaining

theorem turned_away_nobodyDropped {q : AdmitRequest} {r : Room} (hb : cfg.backend = .redis)
    (h : ¬ ReachesPop cfg link q r) : NobodyDropped (handleAdmitCalls cfg link q ⟨r, [], 0⟩) := by
  have hstops := gateCalls_stops (s := ⟨r, [], 0⟩) hb h
  have hkeeps := gateCalls_keeps link q hb [] ⟨r, [], 0⟩ rfl
  rw [handleAdmitCalls]
  cases hgate : gateCalls cfg link q ⟨r, [], 0⟩ with
  | mk out s' =>
    rw [hgate] at hstops hkeeps
    have hnobody : s'.popped = [] := hkeeps
    intro u hu
    cases out with
    | error e =>
      rw [bind_error hgate, hnobody] at hu
      exact absurd hu List.not_mem_nil
    | ok gate =>
      cases gate with
      | inr w => exact absurd rfl (hstops w)
      | inl reply =>
        rw [bind_ok hgate] at hu
        have hu' : u ∈ s'.popped := hu
        rw [hnobody] at hu'
        exact absurd hu' List.not_mem_nil

end Pop

/-- An admission on Redis loses nobody exactly when, in case it comes to its pop, no call fails that
has popped somebody or comes behind one. -/
theorem admission_loses_nobody_iff {cfg : RoomConfig} (hb : cfg.backend = .redis)
    (hjwt : cfg.jwtSecret ≠ "") (link : AdmitLink) (q : AdmitRequest) {r : Room}
    (h : r.Ordered cfg.backend) : NobodyDropped (handleAdmitCalls cfg link q ⟨r, [], 0⟩) ↔
      (ReachesPop cfg link q r →
        link.KeepsUsers (q.batch.want (link.shuffled cfg q r).active.length)) := by
  by_cases hr : ReachesPop cfg link q r
  · obtain ⟨remaining, s', hgate, hactive, hpopped, -⟩ := gateCalls_reaches (s := ⟨r, [], 0⟩) hr
    have hnodup : (members s'.room.active).Nodup := by
      rw [hactive]
      exact (h.maybeShufflePool _ _).activeOnce
    have hlen : (link.shuffled cfg q r).active.length ≠ 0 :=
      fun he => hr.passes.waiting (List.length_eq_zero_iff.mp he)
    have hpop := popAndSign_nobodyDropped link hb hjwt hnodup hpopped
      (one_le_want q.batch hlen) (by rw [hactive]; exact (want_le _ _).1) remaining
    rw [handleAdmitCalls, bind_ok hgate]
    exact hpop.trans ⟨fun hk _ => hk, fun hk => hk hr⟩
  · exact iff_of_true (turned_away_nobodyDropped hb hr) fun hreach => absurd hreach hr

section Demo

def demoBatch : AdmitRequest := ⟨"", .falsy, fun _ => demoDraw⟩

/-- The `SET` of the first token's `jti` times out, and both users are gone. -/
theorem users_dropped_by_jti : ¬ ∀ (cfg : RoomConfig) (_ : cfg.backend = .redis)
    (_ : cfg.jwtSecret ≠ "") (link : AdmitLink) (q : AdmitRequest) (r : Room),
    r.Ordered cfg.backend → NobodyDropped (handleAdmitCalls cfg link q ⟨r, [], 0⟩) := by
  intro h
  have hnobody := h (demoRoom .redis) rfl (by decide)
    (demoLink fun c => if c = .setJti 0 then .failedAfter else .answered) demoBatch (demoQueue 2 none)
    (demoQueue_ordered _ 2 none)
  rcases hnobody "alice-01" (by decide +kernel) with htoken | hactive
  · exact absurd htoken (by decide +kernel)
  · exact absurd hactive (by decide +kernel)

theorem demo_nobody_dropped : NobodyDropped (handleAdmitCalls (demoRoom .redis)
    (demoLink fun c => if c = .popMin then .failedBefore else .answered) demoBatch
      ⟨demoQueue 2 none, [], 0⟩) := by
  refine (admission_loses_nobody_iff rfl (by decide) _ _ (demoQueue_ordered _ 2 none)).mpr fun _ => ?_
  simp [AdmitLink.KeepsUsers, AdmitLink.MarkAnswered, demoLink]

end Demo

end CrowdTic
