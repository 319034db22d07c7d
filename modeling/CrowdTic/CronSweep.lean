import CrowdTic.AdmitSteps
import CrowdTic.PoolKeys

/-! The sweep of the cron (`handleScheduled`) over all events, call by call.
Each call may fail; a failing call that is not caught ends the whole run. -/

namespace CrowdTic

open Ranked Remote

inductive SweepCall
  | list
  | index
  | hash (eid : String)
  | kvMeta (eid : String)
  | shuffle (eid : String) (c : AdmitCall)
  deriving DecidableEq

/-- A page of key names, as the type of `KV.list` declares it. -/
structure KvPage where
  keys : List String
  listComplete : Bool
  cursor : String
  small : keys.length ≤ 1000

/-- The stores: the listing of the pools' keys from a cursor on, the index, the two texts of
`on_sale_at` for each event, and its room. -/
structure SweepStore where
  list : Option String → KvPage
  index : List String
  hash : String → Option String
  kvMeta : String → Option String
  rooms : String → Room

/-- The network of a run. `dateParse` answers `none` for NaN. -/
structure SweepLink where
  net : Network SweepCall
  dateParse : String → Option Int
  draws : String → Nat → Draw

def SweepStore.setRoom (s : SweepStore) (eid : String) (room : Room) : SweepStore :=
  { s with rooms := Function.update s.rooms eid room }

def SweepLink.event (link : SweepLink) (eid : String) : AdmitLink where
  net := ⟨fun c => link.net.fate (.shuffle eid c), fun c => link.net.clock (.shuffle eid c)⟩
  nested := false
  scoreText _ := ""

/-- Calls of the room of an event, made in the store of all events. -/
def inRoom {α : Type} (eid : String) (x : Remote AdmitServer α) : Remote SweepStore α := fun s =>
  let out := x ⟨s.rooms eid, [], 0⟩
  (out.1, s.setRoom eid out.2.room)

section Program

variable (cfg : RoomConfig) (link : SweepLink)

/-- The time of a stored text, which is not read when it is missing or empty. -/
def SweepLink.time (text : Option String) : Option Int :=
  match text with
  | some t => if t = "" then none else link.dateParse t
  | none => none

/-- The hash of the event on Redis. A failing call reads as a missing text. -/
def readHash (eid : String) : Remote SweepStore (Option String) :=
  match cfg.backend with
  | .redis => tryCatch (call link.net (.hash eid) fun _ s => (s.hash eid, s)) fun _ => pure none
  | .kv => pure none

def getEventMeta (eid : String) : Remote SweepStore (Option Int) := do
  let hm ← readHash cfg link eid
  match link.time hm with
  | some t => return some t
  | none => do
    let kvMeta ← call link.net (.kvMeta eid) fun _ s => (s.kvMeta eid, s)
    return link.time kvMeta

/-- The body of the loop. The clock is read just before the calls of the shuffle. -/
def sweepEvent (eid : String) : Remote SweepStore Unit := do
  match ← getEventMeta cfg link eid with
  | none => return ()
  | some t =>
    if (link.net.clock (.shuffle eid .poolSize) : Int) < t then return ()
    else do
      let _ ← inRoom eid (shuffleCalls cfg (link.event eid) (link.draws eid))
      return ()

def sweepAll : List String → Remote SweepStore Unit
  | [] => return ()
  | eid :: rest => do
    sweepEvent cfg link eid
    sweepAll rest

/-- The ids of the index that are not there yet, appended one after another. -/
def addMissing (eventIds : List String) : List String → List String
  | [] => eventIds
  | id :: idx => addMissing (if id ∈ eventIds then eventIds else eventIds ++ [id]) idx

def readIndex : Remote SweepStore (List String) :=
  match cfg.backend with
  | .redis => tryCatch (call link.net .index fun _ s => (s.index, s)) fun _ => pure []
  | .kv => pure []

def handleScheduledCalls : Remote SweepStore Unit := do
  let listed ← call link.net .list fun _ s => (s.list none, s)
  let eventIds := listed.keys.filterMap eventIdOf
  let idx ← readIndex cfg link
  sweepAll cfg link (addMissing eventIds idx)

end Program

section Inputs

variable (cfg : RoomConfig) (link : SweepLink) (s : SweepStore) (eid : String)

def SweepLink.hashText : Option String :=
  if cfg.backend = .redis ∧ link.net.fate (.hash eid) = .answered then s.hash eid else none

def SweepLink.saleAt : Option Int :=
  link.time (link.hashText cfg s eid) <|> link.time (s.kvMeta eid)

def SweepLink.Due : Prop :=
  ∃ t, link.saleAt cfg s eid = some t ∧ t ≤ link.net.clock (.shuffle eid .poolSize)

/-- No call throws that a visit of the event makes. -/
structure SweepLink.Answers : Prop where
  sale : link.time (link.hashText cfg s eid) = none → link.net.fate (.kvMeta eid) = .answered
  shuffle : link.Due cfg s eid → (link.event eid).ShuffleAnswered cfg (s.rooms eid)

def SweepLink.found : List String :=
  addMissing ((s.list none).keys.filterMap eventIdOf)
    (if cfg.backend = .redis ∧ link.net.fate .index = .answered then s.index else [])

/-- The loop comes to the event: no event in front of it throws. -/
def SweepLink.Reaches (eids : List String) : Prop :=
  ∃ pre rest, eids = pre ++ eid :: rest ∧ ∀ x ∈ pre, link.Answers cfg s x

end Inputs

section Visit

variable {cfg : RoomConfig} {link : SweepLink} {s : SweepStore} {eid x : String}

@[simp] theorem setRoom_self (s : SweepStore) (eid : String) (room : Room) :
    (s.setRoom eid room).rooms eid = room := by simp [SweepStore.setRoom]

theorem setRoom_other (h : x ≠ eid) (room : Room) :
    (s.setRoom eid room).rooms x = s.rooms x := by simp [SweepStore.setRoom, h]

theorem setRoom_same (s : SweepStore) (eid : String) : s.setRoom eid (s.rooms eid) = s := by
  simp [SweepStore.setRoom]

theorem inRoom_run {α : Type} {x : Remote AdmitServer α} {out : Except Unit α} {t : AdmitServer}
    (h : x ⟨s.rooms eid, [], 0⟩ = (out, t)) : inRoom eid x s = (out, s.setRoom eid t.room) := by
  rw [inRoom, h]

theorem readHash_run (cfg : RoomConfig) (link : SweepLink) (s : SweepStore) (eid : String) :
    readHash cfg link eid s = (.ok (link.hashText cfg s eid), s) := by
  unfold readHash SweepLink.hashText
  cases cfg.backend with
  | kv => rfl
  | redis =>
    simp only [true_and]
    exact read_catch_run link.net (.hash eid) (fun _ (s : SweepStore) => s.hash eid) none s

/-- The metadata of an event is read from the hash, and from KV where that tells no time. -/
theorem getEventMeta_run (cfg : RoomConfig) (link : SweepLink) (s : SweepStore) (eid : String) :
    getEventMeta cfg link eid s =
      (if link.time (link.hashText cfg s eid) = none → link.net.fate (.kvMeta eid) = .answered
        then .ok (link.saleAt cfg s eid) else .error (), s) := by
  rw [getEventMeta, bind_ok (readHash_run cfg link s eid)]
  unfold SweepLink.saleAt
  cases link.time (link.hashText cfg s eid) with
  | some t => simp [pure_run]
  | none =>
    have hread := read_run link.net (.kvMeta eid) (fun _ (s : SweepStore) => s.kvMeta eid) s
    by_cases hf : link.net.fate (.kvMeta eid) = .answered
    · rw [if_pos hf] at hread
      rw [if_pos fun _ => hf]
      exact bind_ok hread
    · rw [if_neg hf] at hread
      rw [if_neg fun h => hf (h rfl)]
      exact bind_error hread

theorem sweepEvent_due (h : link.Answers cfg s eid) (hd : link.Due cfg s eid) :
    let r := (s.rooms eid).maybeShufflePool cfg (link.net.clock (.shuffle eid .pipeline))
      (link.draws eid)
    ∃ admitted, sweepEvent cfg link eid s = (.ok (), s.setRoom eid { r with admitted }) ∧
      (link.net.clock (.shuffle eid .putMark) = link.net.clock (.shuffle eid .pipeline) →
        admitted = r.admitted) := by
  have hmeta := getEventMeta_run cfg link s eid
  obtain ⟨t, ht, hle⟩ := hd
  rw [if_pos h.sale] at hmeta
  obtain ⟨b, admitted, hrun, hmark⟩ := shuffleCalls_run (s := ⟨s.rooms eid, [], 0⟩) (link.draws eid)
    (h.shuffle ⟨t, ht, hle⟩)
  refine ⟨admitted, ?_, hmark⟩
  rw [sweepEvent, bind_ok hmeta, ht]
  dsimp only
  rw [if_neg hle.not_gt, bind_ok (inRoom_run hrun)]
  rfl

theorem sweepEvent_early (h : link.Answers cfg s eid) (hd : ¬ link.Due cfg s eid) :
    sweepEvent cfg link eid s = (.ok (), s) := by
  have hmeta := getEventMeta_run cfg link s eid
  rw [if_pos h.sale] at hmeta
  rw [sweepEvent, bind_ok hmeta]
  cases ht : link.saleAt cfg s eid with
  | none => rfl
  | some t =>
    have hlt : (link.net.clock (.shuffle eid .poolSize) : Int) < t := by
      by_contra hn
      exact hd ⟨t, ht, not_lt.mp hn⟩
    dsimp only
    rw [if_pos hlt]
    rfl

theorem sweepEvent_failed (h : ¬ link.Answers cfg s eid) :
    ∃ room, sweepEvent cfg link eid s = (.error (), s.setRoom eid room) := by
  have hmeta := getEventMeta_run cfg link s eid
  by_cases hsale : link.time (link.hashText cfg s eid) = none →
      link.net.fate (.kvMeta eid) = .answered
  · have hshuffle : ¬ (link.Due cfg s eid →
        (link.event eid).ShuffleAnswered cfg (s.rooms eid)) := fun hs => h ⟨hsale, hs⟩
    obtain ⟨⟨t, ht, hle⟩, hlost⟩ := Classical.not_imp.mp hshuffle
    obtain ⟨s', hs'⟩ := shuffleCalls_failed (s := ⟨s.rooms eid, [], 0⟩) (link.draws eid) hlost
    rw [if_pos hsale] at hmeta
    refine ⟨s'.room, ?_⟩
    rw [sweepEvent, bind_ok hmeta, ht]
    dsimp only
    rw [if_neg hle.not_gt, bind_error (inRoom_run hs')]
  · rw [if_neg hsale] at hmeta
    refine ⟨s.rooms eid, ?_⟩
    rw [sweepEvent, bind_error hmeta, setRoom_same]

/-- A visit touches no other event, and leaves the room of an empty pool alone. -/
theorem sweepEvent_frame (cfg : RoomConfig) (link : SweepLink) (s : SweepStore) (eid : String) :
    ∃ out room, sweepEvent cfg link eid s = (out, s.setRoom eid room) ∧
      ((s.rooms eid).pool = [] → room = s.rooms eid) := by
  have hmeta := getEventMeta_run cfg link s eid
  rw [sweepEvent]
  by_cases hsale : link.time (link.hashText cfg s eid) = none →
      link.net.fate (.kvMeta eid) = .answered
  · rw [if_pos hsale] at hmeta
    rw [bind_ok hmeta]
    cases link.saleAt cfg s eid with
    | none => exact ⟨.ok (), s.rooms eid, by rw [setRoom_same]; rfl, fun _ => rfl⟩
    | some t =>
      dsimp only
      by_cases hlt : (link.net.clock (.shuffle eid .poolSize) : Int) < t
      · rw [if_pos hlt]
        exact ⟨.ok (), s.rooms eid, by rw [setRoom_same]; rfl, fun _ => rfl⟩
      · rw [if_neg hlt]
        cases hx : shuffleCalls cfg (link.event eid) (link.draws eid) ⟨s.rooms eid, [], 0⟩ with
        | mk out s' =>
          have hroom : (s.rooms eid).pool = [] → s'.room = s.rooms eid := by
            intro hp
            have hsame : (shuffleCalls cfg (link.event eid) (link.draws eid)
                ⟨s.rooms eid, [], 0⟩).2 = ⟨s.rooms eid, [], 0⟩ := shuffleCalls_empty _ hp
            rw [hx] at hsame
            exact congrArg AdmitServer.room hsame
          cases out with
          | ok b =>
            refine ⟨.ok (), s'.room, ?_, hroom⟩
            rw [bind_ok (inRoom_run hx)]
            rfl
          | error e =>
            refine ⟨.error (), s'.room, ?_, hroom⟩
            rw [bind_error (inRoom_run hx)]
  · rw [if_neg hsale] at hmeta
    refine ⟨.error (), s.rooms eid, ?_, fun _ => rfl⟩
    rw [bind_error hmeta, setRoom_same]

theorem answers_setRoom (h : link.Answers cfg s eid) {room : Room}
    (hroom : (room.pool = (s.rooms eid).pool ∧ room.active = (s.rooms eid).active) ∨ room.pool = []) :
    link.Answers cfg (s.setRoom eid room) eid := by
  refine ⟨h.sale, fun hd => ?_⟩
  obtain ⟨hpool, hactive, hrest⟩ := h.shuffle hd
  rw [setRoom_self]
  refine ⟨hpool, hactive, fun hp ha => ?_⟩
  rcases hroom with ⟨hsame, hsame'⟩ | hnil
  · exact hrest (hsame ▸ hp) (hsame' ▸ ha)
  · exact absurd hnil hp

theorem answers_other (hx : x ≠ eid) (room : Room) :
    link.Answers cfg (s.setRoom eid room) x ↔ link.Answers cfg s x := by
  have hroom := setRoom_other (s := s) hx room
  constructor
  · intro h
    exact ⟨h.sale, fun hd => hroom ▸ h.shuffle hd⟩
  · intro h
    exact ⟨h.sale, fun hd => hroom.symm ▸ h.shuffle hd⟩

theorem shuffled_queues (r : Room) (now : Nat) (draws : Nat → Draw) :
    ((r.maybeShufflePool cfg now draws).pool = r.pool ∧
      (r.maybeShufflePool cfg now draws).active = r.active) ∨
    (r.maybeShufflePool cfg now draws).pool = [] := by
  by_cases hidle : r.pool = [] ∨ r.active ≠ []
  · rw [maybeShufflePool_idle now draws hidle]
    exact .inl ⟨rfl, rfl⟩
  · obtain ⟨hp, ha⟩ := not_or.mp hidle
    refine .inr ?_
    simp [Room.maybeShufflePool, hp, not_not.mp ha]

theorem sweepEvent_answered (h : link.Answers cfg s eid) :
    ∃ room, sweepEvent cfg link eid s = (.ok (), s.setRoom eid room) ∧
      ∀ x, link.Answers cfg (s.setRoom eid room) x ↔ link.Answers cfg s x := by
  by_cases hd : link.Due cfg s eid
  · obtain ⟨admitted, hrun, -⟩ := sweepEvent_due h hd
    refine ⟨_, hrun, fun x => ?_⟩
    by_cases hx : x = eid
    · subst hx
      exact iff_of_true (answers_setRoom h (shuffled_queues _ _ _)) h
    · exact answers_other hx _
  · refine ⟨s.rooms eid, ?_, fun x => ?_⟩
    · rw [sweepEvent_early h hd, setRoom_same]
    · rw [setRoom_same]

/-- Where the calls of a visit read one clock, it is the atomic sweep of the event. -/
theorem sweepEvent_handleScheduled (h : link.Answers cfg s eid) {now : Nat}
    (hclock : ∀ c, link.net.clock (.shuffle eid c) = now) :
    sweepEvent cfg link eid s = (.ok (), s.setRoom eid ((s.rooms eid).handleScheduled
      { cfg with onSaleAt := (link.saleAt cfg s eid).map Int.toNat } now (link.draws eid))) := by
  unfold Room.handleScheduled
  by_cases hd : link.Due cfg s eid
  · obtain ⟨admitted, hrun, hmark⟩ := sweepEvent_due h hd
    obtain ⟨t, ht, hle⟩ := hd
    have hmark := hmark ((hclock _).trans (hclock _).symm)
    rw [hclock] at hrun hmark hle
    have hopen : ¬ now < t.toNat := by omega
    simp only [ht, Option.map_some, if_neg hopen]
    rw [hrun, hmark]
    rfl
  · rw [sweepEvent_early h hd]
    cases ht : link.saleAt cfg s eid with
    | none => simp only [Option.map_none, setRoom_same]
    | some t =>
      have hclosed : now < t.toNat := by
        by_contra hn
        refine hd ⟨t, ht, ?_⟩
        rw [hclock]
        omega
      simp only [Option.map_some, if_pos hclosed, setRoom_same]

end Visit

end CrowdTic
