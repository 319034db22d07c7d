import CrowdTic.RoomRuns

/-! Who can still get ahead of a user in the active queue. Once the clock has
reached the user's score, the queue in front of them only gets shorter. -/

namespace CrowdTic

open Ranked

section Queues

variable {b : Backend} {l r : List Entry} {e x : Entry}

theorem place_behind {stays : Entry → Bool} (hl : ∀ y ∈ l, stays y = true) (he : stays e = true) :
    place stays (l ++ e :: r) x = l ++ e :: place stays r x := by
  induction l with
  | nil => simp [place, he]
  | cons y l ih =>
    have hy := hl y List.mem_cons_self
    have ih := ih fun z hz => hl z (List.mem_cons_of_mem y hz)
    show place stays (y :: (l ++ e :: r)) x = y :: (l ++ e :: place stays r x)
    rw [← ih]
    simp [place, hy]

theorem zrem_append_cons {v : String} (hv : e.member ≠ v) :
    zrem (l ++ e :: r) v = zrem l v ++ e :: zrem r v := by
  simp [zrem, hv]

theorem placed_behind (hq : (l ++ e :: r).Pairwise b.order) (hv : e.member ≠ x.member)
    (he : b.stays x e = true) :
    placed b (l ++ e :: r) x = zrem l x.member ++ e :: place (b.stays x) (zrem r x.member) x := by
  rw [placed, zrem_append_cons hv, place_behind _ he]
  intro y hy
  have hyl : y ∈ l := List.mem_of_mem_filter hy
  exact Backend.stays_of_order ((List.pairwise_append.mp hq).2.2 y hyl e List.mem_cons_self) he

/-- The first `j` users of a queue have `e` among them, or stand before it. -/
theorem taken_or_ahead {q : List Entry} (hq : q = l ++ e :: r) (j : Nat) :
    e.member ∈ (members q).take j ∨
      q.drop j = l.drop j ++ e :: r ∧ ((members q).take j).length + (l.drop j).length = l.length := by
  by_cases hj : j ≤ l.length
  · refine .inr ⟨by rw [hq, List.drop_append_of_le_length hj], ?_⟩
    rw [List.length_take, members, List.length_map, hq, List.length_append, List.length_drop]
    omega
  · refine .inl ?_
    have hmem : e.member ∈ (members (l ++ [e])).take j := by
      rw [List.take_of_length_le (by simp [members]; omega)]
      simp [members]
    have hsplit : members q = members (l ++ [e]) ++ members r := by
      simp [hq, members]
    rw [hsplit, List.take_append]
    exact List.mem_append_left _ hmem

end Queues

section Runs

variable {cfg : RoomConfig} {s s' t : RoomSys} {m : RoomMove} {e : Entry} {ahead : List String} {k n : Nat}

/-- The user of `e` has been popped behind the first `k` users, or is in the queue with the clock
past their score and some of `ahead` in front of them, fewer by the number of users popped. -/
structure Due (e : Entry) (ahead : List String) (k n : Nat) (s : RoomSys) : Prop where
  past : k ≤ s.popped.length
  due : e.member ∈ s.popped.drop k ∨ ∃ l r, s.room.active = l ++ e :: r ∧ e.score ≤ s.clock ∧
    (members l).Sublist ahead ∧ s.popped.length + l.length ≤ n

theorem Due.join (h : Due e ahead k n s) (ho : s.room.Ordered cfg.backend) {user : String} (draw : Draw)
    (hu : user ≠ e.member) : Due e ahead k n (s.exec cfg (.join user draw)) := by
  refine ⟨h.past, ?_⟩
  rcases h.due with hpopped | ⟨l, r, hq, hdue, hsub, hn⟩
  · exact .inl hpopped
  refine .inr ?_
  show ∃ l r, (s.room.handleJoin cfg s.clock user draw).active = l ++ e :: r ∧ _
  have hne : s.room.active ≠ [] := by simp [hq]
  have hj : s.room.joinsActive cfg s.clock = true := by
    simp [Room.joinsActive, List.length_pos_iff.mpr hne]
  obtain ⟨-, ha | ⟨-, ha⟩⟩ := handleJoin_active user draw ho hj
  · have hscore : e.score < s.room.tailScore cfg s.clock draw := by
      have hpos : (1 : ℚ) ≤ s.room.active.length := by
        exact_mod_cast List.length_pos_iff.mpr hne
      rw [tailScore_of_nonempty draw hne]
      linarith
    have hstays : cfg.backend.stays ⟨user, s.room.tailScore cfg s.clock draw⟩ e = true :=
      Backend.stays_of_score hscore
    rw [ha, hq, placed_behind (hq ▸ ho.active) hu.symm hstays]
    refine ⟨_, _, rfl, hdue, ?_, ?_⟩
    · rw [members_zrem]
      exact List.filter_sublist.trans hsub
    · exact (Nat.add_le_add_left (List.length_filter_le _ l) _).trans hn
  · exact ⟨l, r, ha.trans hq, hdue, hsub, hn⟩

theorem Due.admission (h : Due e ahead k n s) (ho : s.room.Ordered cfg.backend) (q : AdmitRequest) :
    Due e ahead k n (s.exec cfg (.admission q)) := by
  have hpast : k ≤ (s.exec cfg (.admission q)).popped.length := by
    refine h.past.trans ?_
    show s.popped.length ≤ (s.popped ++ (s.room.handleAdmit cfg s.clock q).popped).length
    simp
  refine ⟨hpast, ?_⟩
  show e.member ∈ (s.popped ++ (s.room.handleAdmit cfg s.clock q).popped).drop k ∨
    ∃ l r, (s.room.handleAdmit cfg s.clock q).room.active = l ++ e :: r ∧ e.score ≤ s.clock ∧
      (members l).Sublist ahead ∧
        (s.popped ++ (s.room.handleAdmit cfg s.clock q).popped).length + l.length ≤ n
  rw [List.drop_append_of_le_length h.past]
  rcases h.due with hpopped | ⟨l, r, hq, hdue, hsub, hn⟩
  · exact .inl (List.mem_append_left _ hpopped)
  cases ha : q.authorized cfg with
  | false =>
    rw [handleAdmit_unauthorized ha]
    exact .inr ⟨l, r, hq, hdue, hsub, by simpa using hn⟩
  | true =>
    have hadmits := handleAdmit_admits s.clock ho ha
    rw [maybeShufflePool_idle s.clock q.draws (.inr (by simp [hq]))] at hadmits
    generalize s.room.handleAdmit cfg s.clock q = out at hadmits ⊢
    cases hadmits with
    | idle reply bucket _ _ => exact .inr ⟨l, r, hq, hdue, hsub, by simpa using hn⟩
    | pops reply admitted bucket j _ _ _ =>
      rcases taken_or_ahead hq j with htaken | ⟨hrest, hcount⟩
      · exact .inl (List.mem_append_right _ htaken)
      · refine .inr ⟨l.drop j, r, hrest, hdue, ?_, ?_⟩
        · rw [members, List.map_drop]
          exact (List.drop_sublist j _).trans hsub
        · show (s.popped ++ (members s.room.active).take j).length + (l.drop j).length ≤ n
          rw [List.length_append, Nat.add_assoc, hcount]
          exact hn

theorem Due.exec (h : Due e ahead k n s) (ho : s.room.Ordered cfg.backend)
    (hm : m.joiner ≠ some e.member) : Due e ahead k n (s.exec cfg m) := by
  cases m with
  | tick ms =>
    refine ⟨h.past, h.due.imp_right fun ⟨l, r, hq, hdue, hrest⟩ => ⟨l, r, hq, hdue.trans ?_, hrest⟩⟩
    exact_mod_cast Nat.le_add_right s.clock ms
  | join user draw => exact h.join ho draw fun he => hm (congrArg some he)
  | status user => exact h
  | admission q => exact h.admission ho q
  | cron draws =>
    refine ⟨h.past, h.due.imp_right fun ⟨l, r, hq, hdue, hsub, hn⟩ => ⟨l, r, ?_, hdue, hsub, hn⟩⟩
    have hne : s.room.active ≠ [] := by simp [hq]
    have hidle := @maybeShufflePool_idle cfg s.room s.clock draws (.inr hne)
    show (s.room.handleScheduled cfg s.clock draws).active = _
    unfold Room.handleScheduled
    cases cfg.onSaleAt with
    | none => exact hq
    | some t =>
      dsimp only
      rw [hidle, ite_self]
      exact hq

/-- From the moment at which the clock has reached the score of a user in the active queue, until
they are popped or join again, nobody gets in front of them: those ahead are some of those who were,
and every user popped is one fewer. -/
theorem no_overtaking {clock : Nat} {tr₀ tr : List (RoomSys × RoomMove)}
    (hrun : Run (RoomStep cfg) (.start clock) tr₀ s) (hlater : Run (RoomStep cfg) s tr t)
    {l r : List Entry} (hq : s.room.active = l ++ e :: r) (hdue : e.score ≤ s.clock)
    (hj : ∀ p ∈ tr, p.2.joiner ≠ some e.member) :
    e.member ∈ t.popped.drop s.popped.length ∨ ∃ l' r', t.room.active = l' ++ e :: r' ∧
      (members l').Sublist (members l) ∧ t.popped.length + l'.length ≤ s.popped.length + l.length := by
  have hstart : Due e (members l) s.popped.length (s.popped.length + l.length) s :=
    ⟨le_rfl, .inr ⟨l, r, hq, hdue, .refl _, le_rfl⟩⟩
  have hend := hlater.invariant
    (fun s' => s'.room.Ordered cfg.backend ∧
      Due e (members l) s.popped.length (s.popped.length + l.length) s')
    (fun _ m => m.joiner ≠ some e.member)
    (fun _ m _ h hm hs => hs ▸ ⟨ordered_exec h.1 m, h.2.exec h.1 hm⟩) ⟨ordered_run hrun, hstart⟩ hj
  exact hend.2.due.imp_right fun ⟨l', r', hq', _, hrest⟩ => ⟨l', r', hq', hrest⟩

end Runs

section Demo

/-- Two users are popped, and a third joins when the first of the queue is due. -/
def demoDueBefore : List RoomMove :=
  [.join "alice-01" demoDraw, .join "bobby-01" demoLowDraw, .tick 1000, .cron fun _ => demoDraw, .tick 1]

def demoDueAfter : List RoomMove := [.join "carol-01" demoDraw, demoAdmit 1]

theorem no_overtaking_lottery :
    let s := (RoomSys.start 0).after (demoRoom .redis) demoDueBefore
    let t := s.after (demoRoom .redis) demoDueAfter
    "alice-01" ∈ t.popped.drop s.popped.length ∨ ∃ l' r', t.room.active = l' ++ ⟨"alice-01", 1001⟩ :: r' ∧
      (members l').Sublist ["bobby-01"] ∧ t.popped.length + l'.length ≤ 1 := by
  intro s t
  have hq : s.room.active = [⟨"bobby-01", 1000⟩] ++ ⟨"alice-01", 1001⟩ :: [] := by decide +kernel
  have hclock : (1001 : ℚ) ≤ s.clock := by decide +kernel
  have hj : ∀ p ∈ s.trace (demoRoom .redis) demoDueAfter, p.2.joiner ≠ some "alice-01" := by
    decide +kernel
  exact no_overtaking (run_trace _ _ demoDueBefore) (run_trace _ s demoDueAfter) hq hclock hj

end Demo

end CrowdTic
