import CrowdTic.RoomRuns

/-! Who gets a token from the status call. It compares the places in the queue
with the number of users that were taken off the queue, so that it turns down
the users who were admitted. -/

namespace CrowdTic

open Ranked

def RoomSys.TokenFor (cfg : RoomConfig) (s : RoomSys) (user : String) : Prop :=
  (s.room.handleStatus cfg s.clock user).any (·.admitted) = true

def TokensMatch (cfg : RoomConfig) (s : RoomSys) : Prop :=
  ∀ user, s.TokenFor cfg user ↔ user ∈ s.popped

def Room.waiting (r : Room) : Nat := if r.active = [] then r.pool.length else r.active.length

/-- An admission that is let in finds nobody, or a bucket that refuses it. -/
def PopsNobody (cfg : RoomConfig) (s : RoomSys) : RoomMove → Prop
  | .admission q => q.authorized cfg = true → s.room.waiting = 0 ∨
      bucketTokens cfg.fl cfg.rate (Expiring.live s.room.bucket s.clock) s.clock <
        q.batch.want s.room.waiting
  | _ => True

/-- Nobody was popped yet, and the watermark is 0. -/
structure Unadmitted (cfg : RoomConfig) (s : RoomSys) : Prop where
  ordered : s.room.Ordered cfg.backend
  popped : s.popped = []
  mark : ∀ e, s.room.admitted = some e → e.value = 0

section Tokens

variable {cfg : RoomConfig} {s : RoomSys} {user : String}

theorem place_of_token (h : s.TokenFor cfg user) :
    user ∈ members s.room.active ∧ 0 < s.room.watermark s.clock := by
  unfold RoomSys.TokenFor Room.handleStatus rank at h
  by_cases hm : user ∈ members s.room.active
  · refine ⟨hm, ?_⟩
    by_contra hz
    simp [hm, Room.admits, Nat.eq_zero_of_not_pos hz] at h
  · simp [hm] at h

theorem Unadmitted.watermark (h : Unadmitted cfg s) : s.room.watermark s.clock = 0 := by
  unfold Room.watermark Expiring.live
  cases he : s.room.admitted with
  | none => rfl
  | some e =>
    have hz := h.mark e he
    by_cases hlive : e.deadline.all (s.clock ≤ ·) = true <;> simp [Option.filter, hlive, hz]

theorem Unadmitted.tokensMatch (h : Unadmitted cfg s) : TokensMatch cfg s := by
  intro user
  refine iff_of_false (fun ht => ?_) (by simp [h.popped])
  have hpos := (place_of_token ht).2
  rw [h.watermark] at hpos
  exact absurd hpos (Nat.lt_irrefl 0)

theorem shuffled_waiting (cfg : RoomConfig) (ho : s.room.Ordered cfg.backend)
    (draws : Nat → Draw) :
    let r := s.room.maybeShufflePool cfg s.clock draws
    r.active.length = s.room.waiting ∧ r.bucket = s.room.bucket ∧
      ((∀ e, s.room.admitted = some e → e.value = 0) → ∀ e, r.admitted = some e → e.value = 0) := by
  rcases maybeShufflePool_cases s.clock draws ho with ⟨hidle, hr⟩ | ⟨hp, hr⟩
  · simp only [hr]
    refine ⟨?_, trivial, id⟩
    rcases hidle with hp | ha
    · by_cases ha : s.room.active = [] <;> simp [Room.waiting, hp, ha]
    · simp [Room.waiting, ha]
  · refine ⟨?_, hr.bucket, fun _ e he => ?_⟩
    · have hlen := hr.perm.length_eq
      simpa [Room.waiting, hr.idle, members] using hlen
    · rw [hr.admitted] at he
      exact (Option.some.inj he) ▸ rfl

/-- The admission pops somebody exactly when it is let in, finds somebody and is not refused. -/
theorem popsNobody_iff (ho : s.room.Ordered cfg.backend) (q : AdmitRequest) :
    PopsNobody cfg s (.admission q) ↔ (s.room.handleAdmit cfg s.clock q).popped = [] := by
  cases ha : q.authorized cfg with
  | false => simp [PopsNobody, ha, handleAdmit_unauthorized ha]
  | true =>
    obtain ⟨hlen, hbucket, _⟩ := shuffled_waiting cfg ho q.draws
    have hadmits := handleAdmit_admits s.clock ho ha
    have hiff : PopsNobody cfg s (.admission q) ↔
        (s.room.maybeShufflePool cfg s.clock q.draws).active = [] ∨
          q.refused cfg (s.room.maybeShufflePool cfg s.clock q.draws) s.clock := by
      simp only [PopsNobody, ha, forall_const, AdmitRequest.refused, hbucket, ← hlen,
        List.length_eq_zero_iff]
    rw [hiff]
    generalize s.room.handleAdmit cfg s.clock q = out at hadmits ⊢
    cases hadmits with
    | idle reply bucket hidle _ => exact iff_of_true hidle rfl
    | pops reply admitted bucket k hne hb hk =>
      refine iff_of_false (not_or.mpr ⟨hne, hb⟩) fun hnil => ?_
      rcases List.take_eq_nil_iff.mp hnil with hk' | hnone
      · omega
      · exact hne (List.map_eq_nil_iff.mp hnone)

theorem Unadmitted.admission (h : Unadmitted cfg s) {q : AdmitRequest}
    (hm : PopsNobody cfg s (.admission q)) : Unadmitted cfg (s.exec cfg (.admission q)) := by
  have hnone := (popsNobody_iff h.ordered q).mp hm
  refine ⟨ordered_exec h.ordered _, ?_, ?_⟩
  · simp only [RoomSys.exec, hnone, List.append_nil]
    exact h.popped
  · cases ha : q.authorized cfg with
    | false => simpa only [RoomSys.exec, handleAdmit_unauthorized ha] using h.mark
    | true =>
      obtain ⟨_, _, hmark⟩ := shuffled_waiting cfg h.ordered q.draws
      have hadmits := handleAdmit_admits s.clock h.ordered ha
      simp only [RoomSys.exec]
      generalize s.room.handleAdmit cfg s.clock q = out at hadmits hnone ⊢
      cases hadmits with
      | idle reply bucket _ _ => exact hmark h.mark
      | pops reply admitted bucket k hne _ hk =>
        rcases List.take_eq_nil_iff.mp hnone with hk' | hnil
        · omega
        · exact absurd (List.map_eq_nil_iff.mp hnil) hne

theorem Unadmitted.step (h : Unadmitted cfg s) {m : RoomMove} (hm : PopsNobody cfg s m) :
    Unadmitted cfg (s.exec cfg m) := by
  cases m with
  | tick ms => exact ⟨h.ordered, h.popped, h.mark⟩
  | status user => exact h
  | join user draw =>
    have hkept : (s.exec cfg (.join user draw)).room.admitted = s.room.admitted :=
      (handleJoin_kept user draw).1
    exact ⟨ordered_exec h.ordered _, h.popped, hkept ▸ h.mark⟩
  | admission q => exact h.admission hm
  | cron draws =>
    refine ⟨ordered_exec h.ordered _, h.popped, ?_⟩
    have hmark := (shuffled_waiting cfg h.ordered draws).2.2 h.mark
    simp only [RoomSys.exec, Room.handleScheduled]
    cases cfg.onSaleAt with
    | none => exact h.mark
    | some t =>
      by_cases ht : s.clock < t
      · simpa only [ht, if_true] using h.mark
      · simpa only [ht, if_false] using hmark

theorem not_tokensMatch_of_popped (ho : s.room.Ordered cfg.backend) {q : AdmitRequest}
    (hm : ¬ PopsNobody cfg s (.admission q)) : ¬ TokensMatch cfg (s.exec cfg (.admission q)) := by
  have hsome := (popsNobody_iff ho q).not.mp hm
  cases ha : q.authorized cfg with
  | false => simp [handleAdmit_unauthorized ha] at hsome
  | true =>
    have hs := ho.maybeShufflePool s.clock q.draws
    have hadmits := handleAdmit_admits s.clock ho ha
    obtain ⟨user, huser⟩ := List.exists_mem_of_ne_nil _ hsome
    intro hmatch
    have hpopped : user ∈ (s.exec cfg (.admission q)).popped := List.mem_append_right _ huser
    have htoken := (place_of_token ((hmatch user).mpr hpopped)).1
    simp only [RoomSys.exec] at htoken
    generalize s.room.handleAdmit cfg s.clock q = out at hadmits huser htoken
    cases hadmits with
    | idle reply bucket _ _ => simp at huser
    | pops reply admitted bucket k _ _ _ =>
      have hdrop : user ∈ (members (s.room.maybeShufflePool cfg s.clock q.draws).active).drop k := by
        simpa only [members, List.map_drop] using htoken
      exact List.disjoint_take_drop hs.activeOnce le_rfl huser hdrop

end Tokens

/-- The tokens of the status call go to the popped users in every state of a run exactly when no
admission of the run pops anybody. -/
theorem tokens_match_iff {cfg : RoomConfig} {clock : Nat} {s : RoomSys}
    {tr : List (RoomSys × RoomMove)} (hrun : Run (RoomStep cfg) (.start clock) tr s) :
    ((∀ p ∈ tr, TokensMatch cfg p.1) ∧ TokensMatch cfg s) ↔
      ∀ p ∈ tr, PopsNobody cfg p.1 p.2 := by
  have hkeep (s : RoomSys) (m : RoomMove) (s' : RoomSys) (h : Unadmitted cfg s)
      (hm : PopsNobody cfg s m) (hs : RoomStep cfg s m s') : Unadmitted cfg s' := hs ▸ h.step hm
  have hbreak (s : RoomSys) (m : RoomMove) (s' : RoomSys) (h : Unadmitted cfg s)
      (hm : ¬ PopsNobody cfg s m) (hs : RoomStep cfg s m s') : ¬ TokensMatch cfg s' := by
    cases m with
    | admission q => exact hs ▸ not_tokensMatch_of_popped h.ordered hm
    | _ => exact absurd trivial hm
  have hstart : Unadmitted cfg (.start clock) :=
    ⟨ordered_start _ clock, rfl, fun _ he => by simp [RoomSys.start, Room.empty] at he⟩
  exact Run.always_iff (fun _ h => h.tokensMatch) hkeep hbreak hstart hrun

section Demo

def demoAdmitted : List RoomMove :=
  [.tick 1000, .join "alice-01" demoDraw, .join "bobby-01" demoDraw, demoAdmit 1]

/-- The admitted user has no token, and the next one in the queue has one. -/
theorem popped_user_without_token : ¬ ∀ (cfg : RoomConfig) (clock : Nat)
    (tr : List (RoomSys × RoomMove)) (s : RoomSys),
    Run (RoomStep cfg) (.start clock) tr s → TokensMatch cfg s := by
  intro h
  have hmatch := h _ 0 _ _ (run_trace (demoRoom .redis) (.start 0) demoAdmitted)
  have hbob : ((RoomSys.start 0).after (demoRoom .redis) demoAdmitted).TokenFor (demoRoom .redis)
      "bobby-01" := by
    unfold RoomSys.TokenFor
    decide +kernel
  exact absurd ((hmatch "bobby-01").mp hbob) (by decide +kernel)

theorem tokens_match_before_admission :
    TokensMatch (demoRoom .kv) ((RoomSys.start 0).after (demoRoom .kv)
      [.join "alice-01" demoDraw, .tick 1000, .cron fun _ => demoDraw, .status "alice-01"]) := by
  refine ((tokens_match_iff (run_trace _ _ _)).mpr ?_).2
  simp [RoomSys.trace, Run.record, PopsNobody]

end Demo

end CrowdTic
