import CrowdTic.QueueOrder
import CrowdTic.Worker

/-! What the worker does for one event. Its keys are its own, so that whatever
else the worker is asked, its queues go through a run of a waiting room. -/

namespace CrowdTic

/-- The four keys of an event that its calls read and write. -/
inductive RoomPart
  | pool
  | active
  | admitted
  | bucket

namespace RoomPart

def key : RoomPart → String → String
  | pool => poolKey
  | active => activeKey
  | admitted => admittedKey
  | bucket => bucketKey

def value : RoomPart → Room → StoreValue
  | pool, r => .queue r.pool
  | active, r => .queue r.active
  | admitted, r => .mark r.admitted
  | bucket, r => .bucket r.bucket

def start : RoomPart → String
  | pool => "waiting:pool:\x7b"
  | active => "queue:active:\x7b"
  | admitted => "queue:admitted:\x7b"
  | bucket => "bucket:\x7b"

theorem key_eq (a : RoomPart) (e : String) : a.key e = a.start ++ e ++ "\x7d" := by
  cases a <;> rfl

theorem toList_key (a : RoomPart) (e : String) :
    (a.key e).toList = a.start.toList ++ (e.toList ++ "\x7d".toList) := by
  rw [key_eq, String.toList_append, String.toList_append, List.append_assoc]

theorem eq_of_take_start {a b : RoomPart} (h : a.start.toList.take 8 = b.start.toList.take 8) :
    a = b := by
  cases a <;> cases b <;> first | rfl | exact absurd h (by decide +kernel)

theorem take_key (a : RoomPart) (e : String) : (a.key e).toList.take 8 = a.start.toList.take 8 := by
  have hlength : 8 ≤ a.start.toList.length := by cases a <;> decide +kernel
  rw [toList_key, List.take_append_of_le_length hlength]

/-- No two keys are the same, whatever the ids are. -/
theorem key_inj {a b : RoomPart} {e e' : String} : a.key e = b.key e' ↔ a = b ∧ e = e' := by
  constructor
  · intro h
    have hstart : a.start.toList.take 8 = b.start.toList.take 8 := by
      rw [← take_key a e, h, take_key]
    obtain rfl := eq_of_take_start hstart
    have hlist := congrArg String.toList h
    rw [toList_key, toList_key] at hlist
    have hid := List.append_cancel_right (List.append_cancel_left hlist)
    exact ⟨rfl, String.toList_inj.mp hid⟩
  · rintro ⟨rfl, rfl⟩
    rfl

end RoomPart

open RoomPart

section Lens

variable (w : Worker) (e x : String) (r : Room)

theorem setRoom_values (a : RoomPart) : (w.setRoom e r).values (a.key x) =
    if x = e then a.value r else w.values (a.key x) := by
  have hpool : (w.setRoom e r).values = Function.update (Function.update (Function.update
      (Function.update w.values (key .pool e) (value .pool r)) (key .active e) (value .active r))
      (key .admitted e) (value .admitted r)) (key .bucket e) (value .bucket r) := rfl
  rw [hpool]
  by_cases hx : x = e
  · cases a <;> simp [key_inj, hx]
  · cases a <;> simp [key_inj, hx]

theorem room_eq : w.room x = ⟨(w.values (key .pool x)).toQueue, (w.values (key .active x)).toQueue,
    (w.values (key .admitted x)).toMark, (w.values (key .bucket x)).toBucket⟩ := rfl

theorem room_setRoom : (w.setRoom e r).room x = if x = e then r else w.room x := by
  rw [room_eq, setRoom_values, setRoom_values, setRoom_values, setRoom_values]
  by_cases hx : x = e
  · simp [hx, value, StoreValue.toQueue, StoreValue.toMark, StoreValue.toBucket]
  · simp [hx, room_eq]

end Lens

section Limits

variable {env : WorkerEnv} {req : WorkerRequest} {chance : Chance} {s : LimitStore}

theorem hitRateLimit_now (env : WorkerEnv) (s : LimitStore) (kind : LimitKind) (id : String) :
    (hitRateLimit env s kind id).2.now = s.now := by
  unfold hitRateLimit
  cases env.backend with
  | redis =>
    dsimp only
    split <;> rfl
  | kv => rfl

theorem hitBoth_now (env : WorkerEnv) (s : LimitStore) (ip fp : String) :
    (hitBoth env s ip fp).2.2.now = s.now := by
  unfold hitBoth
  by_cases hfp : fp = ""
  · simp only [hfp, if_true]
    exact hitRateLimit_now env s .ip ip
  · simp only [hfp, if_false]
    rw [hitRateLimit_now, hitRateLimit_now]

theorem joinChecks_now (env : WorkerEnv) (req : WorkerRequest) (body : Option Json) (verified : Bool)
    (s : LimitStore) : (joinChecks env req body verified s).2.now = s.now := by
  unfold joinChecks
  split
  · rfl
  · rfl
  · split
    · split
      · rfl
      · have hnow := hitBoth_now env s req.ip
        dsimp only
        split
        · exact hnow _
        · split
          · exact hnow _
          · split <;> exact hnow _
    · rfl

theorem route_now (env : WorkerEnv) (req : WorkerRequest) (chance : Chance) (s : LimitStore) :
    (route env req chance s).2.now = s.now := by
  unfold route
  dsimp only
  split_ifs <;> first | rfl | exact joinChecks_now ..

end Limits

section Views

/-- The waiting room of one event, as it is in the worker. -/
def Worker.view (w : Worker) (eventId : String) : RoomSys := ⟨w.room eventId, w.now, w.popped eventId⟩

/-- What a call that has passed the checks is to the room of the event. -/
def QueueCall.roomMove (chance : Chance) (e : String) : QueueCall → Option RoomMove
  | .join eventId userId => if e = eventId then some (.join userId chance.draw) else none
  | .status eventId userId => if e = eventId then some (.status userId) else none
  | .admission eventId request => if e = eventId then some (.admission request) else none

def QueueCall.eventId : QueueCall → String
  | .join eventId _ => eventId
  | .status eventId _ => eventId
  | .admission eventId _ => eventId

/-- How a waiting room answers the call. -/
def QueueCall.answer (cfg : RoomConfig) (chance : Chance) (s : RoomSys) : QueueCall → WorkerAnswer
  | .join eventId userId => .joined eventId userId (s.room.joinReply cfg s.clock userId chance.draw)
  | .status eventId userId => match s.room.handleStatus cfg s.clock userId with
    | some reply => .status eventId userId reply
    | none => .thrown
  | .admission eventId request => .admission eventId (s.room.handleAdmit cfg s.clock request).reply

/-- What a step of the worker is to the room of the event. -/
def WorkerMove.roomMove (env : WorkerEnv) (e : String) (w : Worker) : WorkerMove → Option RoomMove
  | .tick ms => some (.tick ms)
  | .fetch req chance => (route env req chance w.limits).1.toOption.bind (·.roomMove chance e)
  | .scheduled draws eventIds => if e ∈ eventIds then some (.cron (draws e)) else none

variable {env : WorkerEnv} {w w' : Worker} {e x : String} {m : WorkerMove}

@[simp] theorem setRoom_popped (w : Worker) (x : String) (r : Room) :
    (w.setRoom x r).popped = w.popped := rfl

@[simp] theorem setRoom_now (w : Worker) (x : String) (r : Room) : (w.setRoom x r).now = w.now := rfl

theorem view_setRoom (w : Worker) (x e : String) (r : Room) :
    (w.setRoom x r).view e = ⟨if e = x then r else w.room e, w.now, w.popped e⟩ := by
  rw [Worker.view, room_setRoom, setRoom_now, setRoom_popped]

theorem view_popped (w : Worker) (e : String) (popped : String → List String) :
    ({ w with popped } : Worker).view e = ⟨w.room e, w.now, popped e⟩ := rfl

theorem perform_view (env : WorkerEnv) (w : Worker) (chance : Chance) (call : QueueCall) (e : String) :
    (w.perform env chance call).2.view e =
      match call.roomMove chance e with
      | some m => (w.view e).exec (env.room e) m
      | none => w.view e := by
  cases call with
  | join eventId userId =>
    rw [Worker.perform, QueueCall.roomMove]
    dsimp only
    rw [view_setRoom]
    by_cases he : e = eventId
    · subst he
      simp only [if_true]
      rfl
    · simp only [he, if_false]
      rfl
  | status eventId userId =>
    rw [QueueCall.roomMove]
    by_cases he : e = eventId <;> simp only [he, if_true, if_false] <;> rfl
  | admission eventId request =>
    rw [Worker.perform, QueueCall.roomMove]
    dsimp only
    rw [view_popped, room_setRoom, setRoom_now, setRoom_popped]
    by_cases he : e = eventId
    · subst he
      simp only [if_true, Function.update_self]
      rfl
    · simp only [he, if_false, Function.update_of_ne he]
      rfl

theorem view_limits {limits : LimitStore} (h : limits.now = w.limits.now) (e : String) :
    ({ w with limits } : Worker).view e = w.view e :=
  congrArg (fun now => (⟨w.room e, now, w.popped e⟩ : RoomSys)) h

theorem perform_answer (env : WorkerEnv) (w : Worker) (chance : Chance) (call : QueueCall) :
    (w.perform env chance call).1 =
      call.answer (env.room call.eventId) chance (w.view call.eventId) := by
  cases call <;> rfl

theorem fetch_answer {req : WorkerRequest} {chance : Chance} {call : QueueCall}
    (h : (route env req chance w.limits).1 = .ok call) : (w.fetch env req chance).1 =
      call.answer (env.room call.eventId) chance (w.view call.eventId) := by
  have hnow := route_now env req chance w.limits
  rw [Worker.fetch]
  generalize route env req chance w.limits = out at h hnow ⊢
  obtain ⟨result, limits⟩ := out
  obtain rfl : result = .ok call := h
  refine (perform_answer env { w with limits } chance call).trans ?_
  rw [view_limits hnow]

/-- The second shuffle of an event in one run of the cron finds nothing to do. -/
theorem handleScheduled_twice (cfg : RoomConfig) (r : Room) (now : Nat) (draws draws' : Nat → Draw) :
    (r.handleScheduled cfg now draws).handleScheduled cfg now draws' =
      r.handleScheduled cfg now draws := by
  unfold Room.handleScheduled
  cases cfg.onSaleAt with
  | none => rfl
  | some t =>
    by_cases ht : now < t
    · simp only [ht, if_true]
    · simp only [ht, if_false]
      by_cases hp : r.pool.length = 0
      · simp [Room.maybeShufflePool, hp]
      · by_cases ha : 0 < r.active.length
        · simp [Room.maybeShufflePool, ha]
        · simp [Room.maybeShufflePool, hp, ha]

theorem scheduled_view (env : WorkerEnv) (w : Worker) (draws : String → Nat → Draw)
    (eventIds : List String) (e : String) : (w.scheduled env draws eventIds).view e =
      if e ∈ eventIds then (w.view e).exec (env.room e) (.cron (draws e)) else w.view e := by
  induction eventIds generalizing w with
  | nil => rfl
  | cons x rest ih =>
    rw [Worker.scheduled, List.foldl_cons]
    refine (ih _).trans ?_
    rw [view_setRoom]
    by_cases hx : e = x
    · subst hx
      by_cases hrest : e ∈ rest
      · simp [hrest, RoomSys.exec, Worker.view, handleScheduled_twice]
      · simp [hrest, RoomSys.exec, Worker.view]
    · simp [hx, Worker.view]

theorem exec_view (env : WorkerEnv) (w : Worker) (m : WorkerMove) (e : String) :
    (w.exec env m).view e =
      match m.roomMove env e w with
      | some m => (w.view e).exec (env.room e) m
      | none => w.view e := by
  cases m with
  | tick ms => rfl
  | scheduled draws eventIds =>
    rw [Worker.exec, scheduled_view]
    by_cases he : e ∈ eventIds
    · simp [WorkerMove.roomMove, he]
    · simp [WorkerMove.roomMove, he]
  | fetch req chance =>
    have hnow := route_now env req chance w.limits
    rw [Worker.exec, Worker.fetch, WorkerMove.roomMove]
    generalize route env req chance w.limits = out at hnow ⊢
    obtain ⟨result, limits⟩ := out
    cases result with
    | error answer => exact view_limits hnow e
    | ok call =>
      refine (perform_view env { w with limits } chance call e).trans ?_
      rw [view_limits hnow]
      rfl

end Views

section Runs

variable {env : WorkerEnv} {now : Nat} {tr : List (Worker × WorkerMove)} {w : Worker} {e u : String}

theorem view_run (e : String) (h : Run (WorkerStep env) (.start now) tr w) :
    Run (RoomStep (env.room e)) (.start now)
      (tr.filterMap fun p => (p.2.roomMove env e p.1).map (p.1.view e, ·)) (w.view e) := by
  refine h.simulate (fun w => w.view e) (fun w m => m.roomMove env e w) ?_ ?_
  · rintro w m _ rfl hnone
    rw [exec_view, hnone]
  · rintro w m _ b rfl hsome
    show (w.exec env m).view e = (w.view e).exec (env.room e) b
    rw [exec_view, hsome]

theorem joined_of_has {cfg : RoomConfig} {clock : Nat} {tr : List (RoomSys × RoomMove)} {s : RoomSys}
    (h : Run (RoomStep cfg) (.start clock) tr s) (hu : s.line.Has u) :
    ∃ p ∈ tr, p.2.joiner = some u := by
  by_contra hn
  have hnever : ∀ p ∈ tr, p.2.joiner ≠ some u := fun p hp hj => hn ⟨p, hp, hj⟩
  have hstart : ¬ (RoomSys.start clock).line.Has u := by
    simp [RoomSys.start, RoomSys.line, Room.empty, Ranked.members, Line.Has]
  exact not_has_of_run h (ordered_start _ clock) hnever hstart hu

end Runs

section Ids

def WellFormedId (id : String) : Prop := trim id = id ∧ 8 ≤ jsLength id

theorem dropWhile_of_prefix {α : Type} {p : α → Bool} {l m : List α} (h : m <+: l.dropWhile p) :
    m.dropWhile p = m := by
  cases m with
  | nil => rfl
  | cons c m =>
    obtain ⟨rest, hrest⟩ := h
    have hc := List.head?_dropWhile_not p l
    rw [← hrest] at hc
    have hnot : p c = false := by simpa using hc
    exact List.dropWhile_cons_of_neg (by simp [hnot])

theorem trim_trim (s : String) : trim (trim s) = trim s := by
  have hfront := dropWhile_of_prefix (List.rdropWhile_prefix isJsSpace (s.toList.dropWhile isJsSpace))
  rw [trim, trim, String.toList_ofList, hfront, List.rdropWhile_idempotent]

theorem joinIds_ok {e u e' u' : String} (h : joinIds e u = .ok (e', u')) :
    WellFormedId e' ∧ WellFormedId u' := by
  unfold joinIds at h
  dsimp only at h
  split_ifs at h with hempty hshort
  obtain ⟨rfl, rfl⟩ := Prod.mk.inj (Except.ok.inj h)
  exact ⟨⟨trim_trim e, by omega⟩, trim_trim u, by omega⟩

/-- The body that a join reads, which the legacy link makes of its query. -/
def WorkerRequest.joinBody (req : WorkerRequest) : Option Json :=
  if req.method = "POST" then req.body else some (legacyBody req)

/-- The checks that let a request join: the limits of its address and its fingerprint, and Turnstile
for the token of its body. -/
def LetsJoin (env : WorkerEnv) (s : LimitStore) (req : WorkerRequest) (chance : Chance) : Prop :=
  ∃ body fp, req.joinBody = some body ∧ fingerprint req body = some fp ∧
    (hitBoth env s req.ip fp).1.allowed = true ∧ (hitBoth env s req.ip fp).2.1.allowed = true ∧
    verifyTurnstile env (body.field "turnstile_token") chance.verified = true

variable {env : WorkerEnv} {req : WorkerRequest} {chance : Chance} {s : LimitStore} {e u : String}

theorem joinChecks_join (h : (joinChecks env req req.joinBody chance.verified s).1 = .ok (.join e u)) :
    WellFormedId e ∧ WellFormedId u ∧ LetsJoin env s req chance := by
  unfold joinChecks at h
  split at h
  · cases h
  · cases h
  · rename_i body _ hbody
    split at h
    · rename_i fp _ _ hprint
      split at h
      · cases h
      · rename_i hids
        dsimp only at h
        split_ifs at h with hip hfp hts
        obtain ⟨rfl, rfl⟩ := QueueCall.join.inj (Except.ok.inj h)
        obtain ⟨he, hu⟩ := joinIds_ok hids
        exact ⟨he, hu, body, fp, hbody, hprint, by simpa using hip, by simpa using hfp, by simpa using hts⟩
    · cases h

theorem statusChecks_ne_join : statusChecks req ≠ .ok (.join e u) := by
  unfold statusChecks
  dsimp only
  split_ifs <;> simp

theorem admitChecks_ne_join (draws : Nat → Draw) : admitChecks env req draws ≠ .ok (.join e u) := by
  unfold admitChecks
  dsimp only
  split_ifs <;> simp

theorem route_join (h : (route env req chance s).1 = .ok (.join e u)) :
    WellFormedId e ∧ WellFormedId u ∧ LetsJoin env s req chance := by
  unfold route at h
  dsimp only at h
  split_ifs at h with _ _ hpost _ hget
  · refine joinChecks_join ?_
    rwa [WorkerRequest.joinBody, if_pos hpost.2]
  · refine joinChecks_join ?_
    rwa [WorkerRequest.joinBody, if_neg (by simp [hget.2])]
  · exact absurd h statusChecks_ne_join
  · exact absurd h (admitChecks_ne_join chance.draws)

end Ids

section Worker

variable {env : WorkerEnv} {now : Nat} {tr : List (Worker × WorkerMove)} {w : Worker} {e u : String}

/-- Whatever the worker is asked about any events, one event sees a run of a waiting room: the steps
that name it, in their order, at the same times. What is asked next is answered as by that room. -/
theorem worker_refines_rooms (e : String) (h : Run (WorkerStep env) (.start now) tr w) :
    Run (RoomStep (env.room e)) (.start now)
      (tr.filterMap fun p => (p.2.roomMove env e p.1).map (p.1.view e, ·)) (w.view e) ∧
    ∀ req chance call, (route env req chance w.limits).1 = .ok call → call.eventId = e →
      (w.fetch env req chance).1 = call.answer (env.room e) chance (w.view e) := by
  refine ⟨view_run e h, ?_⟩
  rintro req chance call hroute rfl
  exact fetch_answer hroute

theorem joiner_of_roomMove {m : WorkerMove} {b : RoomMove} (hm : m.roomMove env e w = some b)
    (hb : b.joiner = some u) : ∃ req chance, m = .fetch req chance ∧
      (route env req chance w.limits).1 = .ok (.join e u) := by
  cases m with
  | tick ms =>
    obtain rfl := Option.some.inj hm
    cases hb
  | scheduled draws eventIds =>
    simp only [WorkerMove.roomMove, Option.ite_none_right_eq_some, Option.some.injEq] at hm
    obtain ⟨-, rfl⟩ := hm
    cases hb
  | fetch req chance =>
    refine ⟨req, chance, rfl, ?_⟩
    rw [WorkerMove.roomMove] at hm
    cases hr : (route env req chance w.limits).1 with
    | error answer => simp [hr, Except.toOption] at hm
    | ok call =>
      simp only [hr, Except.toOption, Option.bind_some] at hm
      cases call with
      | join eventId userId =>
        simp only [QueueCall.roomMove, Option.ite_none_right_eq_some, Option.some.injEq] at hm
        obtain ⟨rfl, rfl⟩ := hm
        obtain rfl := Option.some.inj hb
        rfl
      | status eventId userId =>
        simp only [QueueCall.roomMove, Option.ite_none_right_eq_some, Option.some.injEq] at hm
        obtain ⟨-, rfl⟩ := hm
        cases hb
      | admission eventId request =>
        simp only [QueueCall.roomMove, Option.ite_none_right_eq_some, Option.some.injEq] at hm
        obtain ⟨-, rfl⟩ := hm
        cases hb

/-- Whoever is in a queue of any event, or was popped from it, got there by a request that the limits
and Turnstile let through, under ids that are trimmed and not short. -/
theorem queued_users_let_in (h : Run (WorkerStep env) (.start now) tr w) (hu : (w.view e).line.Has u) :
    WellFormedId e ∧ WellFormedId u ∧ ∃ p ∈ tr, ∃ req chance, p.2 = .fetch req chance ∧
      (route env req chance p.1.limits).1 = .ok (.join e u) ∧ LetsJoin env p.1.limits req chance := by
  obtain ⟨q, hq, hj⟩ := joined_of_has (view_run e h) hu
  obtain ⟨p, hp, hpq⟩ := List.mem_filterMap.mp hq
  obtain ⟨b, hb, rfl⟩ := Option.map_eq_some_iff.mp hpq
  obtain ⟨req, chance, hm, hroute⟩ := joiner_of_roomMove hb hj
  obtain ⟨he, hu, hlets⟩ := route_join hroute
  exact ⟨he, hu, p, hp, req, chance, hm, hroute, hlets⟩

end Worker

section Demo

def demoWorker : WorkerEnv where
  backend := .redis
  onSaleAt _ := some 1000
  rate := 2000
  limit _ := 20
  jwtSecret := "secret"
  jwtIssuer := none
  jwtAudience := none
  admitSecret := ""
  turnstileSecretKey := ""
  runtime := ⟨fun _ => none, fun _ _ _ => false⟩
  toNumber _ := none

/-- A join whose ids have spaces around them. -/
def demoJoin (eventId userId : String) : WorkerMove :=
  .fetch ⟨"POST", "/queue/join/", [], some (.obj [("event_id", .str eventId), ("user_id", .str userId)]),
    none, none, none, none, none⟩ ⟨false, demoDraw, fun _ => demoDraw⟩

def demoTwoEvents : List WorkerMove :=
  [demoJoin " event-001" "alice-01 ", demoJoin "event-002" "bobby-01", .tick 1000,
    .scheduled (fun _ _ => demoDraw) ["event-002", "event-001"]]

def demoTwoTrace : List (Worker × WorkerMove) :=
  Run.record (Worker.exec demoWorker) (.start 0) demoTwoEvents

def demoTwoAfter : Worker := demoTwoEvents.foldl (Worker.exec demoWorker) (.start 0)

theorem demoTwo_run : Run (WorkerStep demoWorker) (.start 0) demoTwoTrace demoTwoAfter := by
  have hstep : ∀ w m, WorkerStep demoWorker w m (w.exec demoWorker m) := fun _ _ => rfl
  exact .of_record hstep _ demoTwoEvents

theorem worker_refines_rooms_two : Run (RoomStep (demoWorker.room "event-001")) (.start 0)
    (demoTwoTrace.filterMap fun p =>
      (p.2.roomMove demoWorker "event-001" p.1).map (p.1.view "event-001", ·))
    (demoTwoAfter.view "event-001") :=
  (worker_refines_rooms "event-001" demoTwo_run).1

theorem queued_users_let_in_two : WellFormedId "alice-01" := by
  have hu : (demoTwoAfter.view "event-001").line.Has "alice-01" := by
    have hactive : "alice-01" ∈ Ranked.members (demoTwoAfter.room "event-001").active := by
      decide +kernel
    exact .inr (.inl hactive)
  exact (queued_users_let_in demoTwo_run hu).2.1

end Demo

end CrowdTic
