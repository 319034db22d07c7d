import CrowdTic.TokenHolders

/-! How many tokens the status call gives away. It serves the front of the queue
up to the watermark, and the watermark never passes the number of popped users. -/

namespace CrowdTic

open Ranked

/-- The watermark counts users who were popped. -/
def RoomSys.Marked (s : RoomSys) : Prop := ∀ e, s.room.admitted = some e → e.value ≤ s.popped.length

section Marks

variable {cfg : RoomConfig} {clock : Nat} {tr : List (RoomSys × RoomMove)} {s : RoomSys} {user : String}

theorem watermark_le {r : Room} {n : Nat} (now : Nat) (h : ∀ e, r.admitted = some e → e.value ≤ n) :
    r.watermark now ≤ n := by
  unfold Room.watermark Expiring.live
  cases he : r.admitted with
  | none => exact Nat.zero_le _
  | some e =>
    have hle := h e he
    by_cases hlive : e.deadline.all (now ≤ ·) = true
    · simpa [Option.filter, hlive] using hle
    · simp [Option.filter, hlive]

theorem marked_shuffle (cfg : RoomConfig) (now : Nat) {r : Room} {n : Nat} (draws : Nat → Draw)
    (h : ∀ e, r.admitted = some e → e.value ≤ n) :
    ∀ e, (r.maybeShufflePool cfg now draws).admitted = some e → e.value ≤ n := by
  unfold Room.maybeShufflePool
  split_ifs
  · exact h
  · exact h
  · intro e he
    obtain rfl := Option.some.inj he
    exact Nat.zero_le n

theorem marked_admit {r : Room} {now n : Nat} (q : AdmitRequest)
    (h : ∀ e, r.admitted = some e → e.value ≤ n) (e : Expiring Nat)
    (he : (r.handleAdmit cfg now q).room.admitted = some e) :
    e.value ≤ n + (r.handleAdmit cfg now q).popped.length := by
  have hs := marked_shuffle cfg now q.draws h
  unfold Room.handleAdmit at he ⊢
  by_cases ha : q.authorized cfg = false
  · rw [if_pos ha] at he ⊢
    exact h e he
  · rw [if_neg ha] at he ⊢
    generalize r.maybeShufflePool cfg now q.draws = r₁ at hs he ⊢
    dsimp only at he ⊢
    split_ifs at he ⊢
    · exact hs e he
    · exact hs e he
    · obtain rfl := Option.some.inj he
      exact Nat.add_le_add_right (watermark_le now hs) _

theorem marked_exec (h : s.Marked) (m : RoomMove) : (s.exec cfg m).Marked := by
  cases m with
  | tick ms => exact h
  | status user => exact h
  | join user draw =>
    intro e he
    rw [RoomSys.exec, (handleJoin_kept user draw).1] at he
    exact h e he
  | admission q =>
    intro e he
    have hle := marked_admit q h e he
    show e.value ≤ (s.popped ++ (s.room.handleAdmit cfg s.clock q).popped).length
    rw [List.length_append]
    exact hle
  | cron draws =>
    show ∀ e, (s.room.handleScheduled cfg s.clock draws).admitted = some e → e.value ≤ s.popped.length
    unfold Room.handleScheduled
    cases cfg.onSaleAt with
    | none => exact h
    | some t =>
      by_cases ht : s.clock < t
      · simp only [ht, if_true]
        exact h
      · simp only [ht, if_false]
        exact marked_shuffle cfg s.clock draws h

theorem marked_run (hrun : Run (RoomStep cfg) (.start clock) tr s) : s.Marked :=
  hrun.invariant (fun s => s.Marked) (fun _ _ => True) (fun _ m _ h _ hs => hs ▸ marked_exec h m)
    (fun _ he => by simp [RoomSys.start, Room.empty] at he) fun _ _ => trivial

theorem token_iff (hsecret : cfg.jwtSecret ≠ "") :
    s.TokenFor cfg user ↔ user ∈ (members s.room.active).take (s.room.watermark s.clock) := by
  unfold RoomSys.TokenFor Room.handleStatus rank
  by_cases hm : user ∈ members s.room.active
  · rw [List.mem_take_iff_idxOf_lt hm]
    simp [hm, hsecret, Room.admits]
    omega
  · have hout : user ∉ (members s.room.active).take (s.room.watermark s.clock) :=
      fun ht => hm (List.mem_of_mem_take ht)
    simp [hm, hout]

/-- In every reachable state the status call has a token for exactly the users in front of the
watermark, and these are no more than the users popped so far. -/
theorem eager_tokens_le_popped (hsecret : cfg.jwtSecret ≠ "")
    (hrun : Run (RoomStep cfg) (.start clock) tr s) :
    (∀ user, s.TokenFor cfg user ↔
        user ∈ (members s.room.active).take (s.room.watermark s.clock)) ∧
      ∀ users : List String, users.Nodup → (∀ user ∈ users, s.TokenFor cfg user) →
        users.length ≤ s.popped.length := by
  refine ⟨fun user => token_iff hsecret, fun users hnodup htoken => ?_⟩
  have hsub : users ⊆ (members s.room.active).take (s.room.watermark s.clock) :=
    fun user hu => (token_iff hsecret).mp (htoken user hu)
  have hlength := (List.subperm_of_subset hnodup hsub).length_le
  rw [List.length_take] at hlength
  have hmark := watermark_le s.clock (marked_run hrun)
  omega

/-- The token of the user who is next goes out, and only that one. -/
theorem eager_tokens_le_popped_next :
    ((RoomSys.start 0).after (demoRoom .redis) demoAdmitted).TokenFor (demoRoom .redis) "bobby-01" := by
  have hsecret : (demoRoom .redis).jwtSecret ≠ "" := by decide
  refine ((eager_tokens_le_popped hsecret (run_trace _ (.start 0) demoAdmitted)).1 "bobby-01").mpr ?_
  decide +kernel

end Marks

end CrowdTic
