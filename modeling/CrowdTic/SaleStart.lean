import CrowdTic.RoomRuns

/-! Before the sale. Joins wait in the pool and the sweep leaves it alone, but
an admission shuffles whatever pool it finds. -/

namespace CrowdTic

open Ranked

def RoomSys.issued (cfg : RoomConfig) (s : RoomSys) : RoomMove → List String
  | .status user =>
    if (s.room.handleStatus cfg s.clock user).any (·.admitted) then [user] else []
  | .admission q =>
    match (s.room.handleAdmit cfg s.clock q).reply with
    | .admitted _ _ users => users
    | _ => []
  | _ => []

def Premature (cfg : RoomConfig) (t : Nat) (s : RoomSys) (m : RoomMove) : Prop :=
  let s' := s.exec cfg m
  s.clock < t ∧
    ((∃ u ∈ members s.room.pool, u ∈ members s'.room.active ∧ u ∉ members s'.room.pool) ∨
      s'.popped ≠ s.popped ∨ s.issued cfg m ≠ [])

/-- An admission before `t` that is let in finds an empty pool. -/
def FindsNobody (cfg : RoomConfig) (t : Nat) (s : RoomSys) : RoomMove → Prop
  | .admission q => s.clock < t → q.authorized cfg = true → s.room.pool = []
  | _ => True

/-- The active queue stays empty until `t`. -/
structure Waiting (cfg : RoomConfig) (t : Nat) (s : RoomSys) : Prop where
  ordered : s.room.Ordered cfg.backend
  idle : s.clock < t → s.room.active = []

section Waiting

variable {cfg : RoomConfig} {t : Nat} {s : RoomSys}

theorem rank_nil (user : String) : rank [] user = none := rfl

/-- Before the sale a call that finds nobody changes neither queue nor the popped users, other than
by letting a user into the pool. -/
theorem Waiting.quiet (h : Waiting cfg t s) (hon : cfg.onSaleAt = some t) (hc : s.clock < t)
    {m : RoomMove} (hm : FindsNobody cfg t s m) :
    (s.exec cfg m).room.active = [] ∧ (s.exec cfg m).popped = s.popped ∧ s.issued cfg m = [] := by
  have hidle := h.idle hc
  cases m with
  | tick ms => exact ⟨hidle, rfl, rfl⟩
  | join user draw =>
    have hj : s.room.joinsActive cfg s.clock = false := by
      simp [Room.joinsActive, Room.isPreSale, hidle, hon, hc]
    obtain ⟨ha, _⟩ := handleJoin_pool user draw h.ordered hj
    exact ⟨ha.trans hidle, rfl, rfl⟩
  | status user =>
    refine ⟨hidle, rfl, ?_⟩
    simp [RoomSys.issued, Room.handleStatus, hidle, rank_nil]
  | admission q =>
    cases ha : q.authorized cfg with
    | false => simp [RoomSys.exec, RoomSys.issued, handleAdmit_unauthorized ha, hidle]
    | true =>
      have hs : s.room.maybeShufflePool cfg s.clock q.draws = s.room :=
        maybeShufflePool_idle s.clock q.draws (.inl (hm hc ha))
      have hadmits := handleAdmit_admits s.clock h.ordered ha
      rw [hs] at hadmits
      simp only [RoomSys.exec, RoomSys.issued]
      generalize s.room.handleAdmit cfg s.clock q = out at hadmits ⊢
      cases hadmits with
      | idle reply bucket _ hr =>
        refine ⟨hidle, List.append_nil _, ?_⟩
        cases reply with
        | admitted mark remaining users => exact absurd rfl (hr mark remaining users)
        | _ => rfl
      | pops reply admitted bucket k hne _ _ => exact absurd hidle hne
  | cron draws =>
    have hs : s.room.handleScheduled cfg s.clock draws = s.room := by
      simp [Room.handleScheduled, hon, hc]
    exact ⟨by simpa only [RoomSys.exec, hs] using hidle, rfl, rfl⟩

theorem Waiting.step (h : Waiting cfg t s) (hon : cfg.onSaleAt = some t) {m : RoomMove}
    (hm : FindsNobody cfg t s m) : Waiting cfg t (s.exec cfg m) where
  ordered := ordered_exec h.ordered m
  idle hc := (h.quiet hon (Nat.lt_of_le_of_lt (clock_le_exec m) hc) hm).1

theorem premature_of_pool (h : Waiting cfg t s) {q : AdmitRequest} (hc : s.clock < t)
    (ha : q.authorized cfg = true) (hp : s.room.pool ≠ []) : Premature cfg t s (.admission q) := by
  refine ⟨hc, ?_⟩
  have hs := maybeShufflePool_shuffled s.clock q.draws h.ordered hp (h.idle hc)
  obtain ⟨x, hx⟩ := List.exists_mem_of_ne_nil _ hp
  have hin : x.member ∈ members (s.room.maybeShufflePool cfg s.clock q.draws).active :=
    hs.perm.mem_iff.mpr (List.mem_map_of_mem hx)
  have hadmits := handleAdmit_admits s.clock h.ordered ha
  simp only [RoomSys.exec]
  generalize s.room.handleAdmit cfg s.clock q = out at hadmits ⊢
  cases hadmits with
  | idle reply bucket _ _ =>
    refine .inl ⟨x.member, List.mem_map_of_mem hx, hin, ?_⟩
    simp [hs.pool, members]
  | pops reply admitted bucket k _ _ hk =>
    refine .inr (.inl fun he => ?_)
    have hnil : (members (s.room.maybeShufflePool cfg s.clock q.draws).active).take k = [] :=
      List.append_right_eq_self.mp he
    rcases List.take_eq_nil_iff.mp hnil with hk' | hnone
    · omega
    · simp [hnone] at hin

theorem premature_iff (h : Waiting cfg t s) (hon : cfg.onSaleAt = some t) (m : RoomMove) :
    Premature cfg t s m ↔ ¬ FindsNobody cfg t s m := by
  constructor
  · rintro ⟨hc, hbad⟩ hm
    obtain ⟨hactive, hpopped, hissued⟩ := h.quiet hon hc hm
    rcases hbad with ⟨u, _, hu, _⟩ | hbad | hbad
    · simp [hactive, members] at hu
    · exact hbad hpopped
    · exact hbad hissued
  · intro hm
    cases m with
    | admission q =>
      simp only [FindsNobody, Classical.not_imp] at hm
      obtain ⟨hc, ha, hp⟩ := hm
      exact premature_of_pool h hc ha hp
    | _ => exact absurd trivial hm

end Waiting

/-- No user is moved, popped or given a token before `on_sale_at` exactly when every admission
before `on_sale_at` that is let in finds an empty pool. -/
theorem nothing_before_sale_iff {cfg : RoomConfig} {t clock : Nat} {s : RoomSys}
    {tr : List (RoomSys × RoomMove)} (hon : cfg.onSaleAt = some t)
    (hrun : Run (RoomStep cfg) (.start clock) tr s) :
    (∀ p ∈ tr, ¬ Premature cfg t p.1 p.2) ↔ ∀ p ∈ tr, FindsNobody cfg t p.1 p.2 :=
  Run.steps_iff (fun _ _ _ (h : Waiting cfg t _) hm hs => hs ▸ h.step hon hm)
    (fun _ m h => premature_iff h hon m) ⟨ordered_start _ clock, fun _ => rfl⟩ hrun

section Demo

def demoEarly : List RoomMove := [.join "alice-01" demoDraw, demoAdmit 1]

theorem user_admitted_before_sale : ¬ ∀ (cfg : RoomConfig) (t clock : Nat) (s : RoomSys)
    (tr : List (RoomSys × RoomMove)), cfg.onSaleAt = some t →
    Run (RoomStep cfg) (.start clock) tr s → ∀ p ∈ tr, ¬ Premature cfg t p.1 p.2 := by
  intro h
  have hrun := run_trace (demoRoom .redis) (.start 0) demoEarly
  have hlast := h _ 1000 0 _ _ rfl hrun (_, demoAdmit 1) (.tail _ (.head _))
  refine hlast ⟨by decide +kernel, .inr (.inl ?_)⟩
  decide +kernel

theorem quiet_before_sale : ¬ ∃ p ∈ (RoomSys.start 0).trace (demoRoom .kv)
    [.join "alice-01" demoDraw, .cron fun _ => demoDraw, .tick 1000, demoAdmit 1],
    Premature (demoRoom .kv) 1000 p.1 p.2 := by
  rintro ⟨p, hp, hbad⟩
  refine (nothing_before_sale_iff rfl (run_trace _ _ _)).mpr ?_ p hp hbad
  simp [RoomSys.trace, Run.record, FindsNobody, demoAdmit, RoomSys.exec, RoomSys.start]

end Demo

end CrowdTic
