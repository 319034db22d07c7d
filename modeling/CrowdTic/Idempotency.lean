import CrowdTic.Recovery
import Mathlib.Tactic.IntervalCases

/-! The idempotency keys of one user. The database compares the parsed keys, a
request checks its key in other calls than the one that stores its order, and
the duplicate found by `InsertOrderTx` is not handed back. -/

namespace CrowdTic

section Keys

variable {U : Type} [DecidableEq U]

/-- Requests of the user with one key string share one order, which all their answers name,
and no answer names the order of a request with another key string. -/
structure Sys.KeysExact (L : UuidLib U) (u : U) (s : Sys U) : Prop where
  single : ∀ t t' q q' pc pc', s.threads t = some (.commit q pc) → s.threads t' = some (.commit q' pc') →
    q.userId L = u → q'.userId L = u → q.idempotencyKey = q'.idempotencyKey →
    ∀ o ∈ s.world.db.orders, ∀ o' ∈ s.world.db.orders, o.id = q.draw → o'.id = q'.draw → o = o'
  named : ∀ t t' q q' r x pc', s.threads t = some (.commit q (.done r)) →
    s.threads t' = some (.commit q' pc') → q.userId L = u → q'.userId L = u →
    q.idempotencyKey = q'.idempotencyKey → r.orderId = some x →
    ∀ o ∈ s.world.db.orders, o.id = q'.draw → x = o.id
  own : ∀ t q r x, s.threads t = some (.commit q (.done r)) → q.userId L = u → r.orderId = some x →
    ∃ t' q' pc', s.threads t' = some (.commit q' pc') ∧ q'.userId L = u ∧
      q'.idempotencyKey = q.idempotencyKey ∧ x = q'.draw

/-- The thread is a request of the same user with another key string for the same key. -/
def Thread.Clashes (L : UuidLib U) (q : CommitRequest U) : Thread U → Prop
  | .commit q' _ => q'.userId L = q.userId L ∧ q'.idem L = q.idem L ∧
      q'.idempotencyKey ≠ q.idempotencyKey
  | _ => False

instance (L : UuidLib U) (q : CommitRequest U) : DecidablePred (Thread.Clashes L q)
  | .commit q' _ => inferInstanceAs (Decidable (q'.userId L = q.userId L ∧ q'.idem L = q.idem L ∧
      q'.idempotencyKey ≠ q.idempotencyKey))
  | .hold _ _ | .release _ _ | .sweep _ => inferInstanceAs (Decidable False)

def Thread.Answered (L : UuidLib U) (q : CommitRequest U) : Thread U → Prop
  | .commit q' (.done r) => q'.userId L = q.userId L ∧ q'.idem L = q.idem L ∧ r.orderId ≠ none
  | _ => False

instance (L : UuidLib U) (q : CommitRequest U) : DecidablePred (Thread.Answered L q)
  | .commit q' (.done r) =>
    inferInstanceAs (Decidable (q'.userId L = q.userId L ∧ q'.idem L = q.idem L ∧ r.orderId ≠ none))
  | .commit _ .idempotency | .commit _ .seats | .commit _ (.category _) | .commit _ (.script _ _)
  | .commit _ (.price _ _) | .commit _ (.select _ _) | .commit _ (.insert _ _ _)
  | .hold _ _ | .release _ _ | .sweep _ => inferInstanceAs (Decidable False)

def CommitRequest.KeyUnused (L : UuidLib U) (q : CommitRequest U) (db : Db U) : Prop :=
  ∀ o ∈ db.orders, o.userId = q.userId L → o.idempotencyKey ≠ q.idem L

instance (L : UuidLib U) (q : CommitRequest U) (db : Db U) : Decidable (q.KeyUnused L db) :=
  inferInstanceAs (Decidable (∀ _ ∈ _, _))

/-- `InsertOrderTx` finds its key unused, and it stores an order only while the request is free to. -/
def CommitRequest.StoresOnce (L : UuidLib U) (free : Prop) (w : World U) (f : Fault)
    (q : CommitRequest U) : CommitPc U → Prop
  | .select _ _ => q.KeyUnused L w.db
  | .insert ss up ca =>
    q.KeyUnused L w.db ∧ (f.takes = true ∧ (q.insertOrder L w ss up ca).isSome → free)
  | _ => True

instance (L : UuidLib U) (free : Prop) [Decidable free] (w : World U) (f : Fault)
    (q : CommitRequest U) : DecidablePred (q.StoresOnce L free w f)
  | .select _ _ => inferInstanceAs (Decidable (q.KeyUnused L w.db))
  | .insert ss up ca => inferInstanceAs (Decidable
      (q.KeyUnused L w.db ∧ (f.takes = true ∧ (q.insertOrder L w ss up ca).isSome → free)))
  | .idempotency | .seats | .category _ | .script _ _ | .price _ _ | .done _ =>
    inferInstanceAs (Decidable True)

def Thread.StoresOnce (L : UuidLib U) (u : U) (free : CommitRequest U → Prop) (w : World U) (f : Fault) :
    Thread U → Prop
  | .commit q pc => q.userId L = u → q.StoresOnce L (free q) w f pc
  | _ => True

instance (L : UuidLib U) (u : U) (free : CommitRequest U → Prop) [DecidablePred free] (w : World U)
    (f : Fault) : DecidablePred (Thread.StoresOnce L u free w f)
  | .commit q pc => inferInstanceAs (Decidable (q.userId L = u → q.StoresOnce L (free q) w f pc))
  | .hold _ _ | .release _ _ | .sweep _ => inferInstanceAs (Decidable True)

/-- A request comes with a key string that is new or known, and it stores its order once. -/
def Service.MoveKeepsKeys (S : Service U) (u : U) (apart free : CommitRequest U → Prop) (s : Sys U) :
    Move U → Prop
  | .spawn _ (.commit q) => q.userId S.uuid = u → apart q
  | .exec t f _ => ∀ th ∈ s.threads t, th.StoresOnce S.uuid u free s.world f
  | _ => True

instance (S : Service U) (u : U) (apart free : CommitRequest U → Prop) [DecidablePred apart]
    [DecidablePred free] (s : Sys U) : DecidablePred (S.MoveKeepsKeys u apart free s)
  | .spawn _ (.commit q) => inferInstanceAs (Decidable (q.userId S.uuid = u → apart q))
  | .exec t f _ => inferInstanceAs (Decidable (∀ th ∈ s.threads t, th.StoresOnce S.uuid u free s.world f))
  | .spawn _ (.hold _) | .spawn _ (.release _) | .spawn _ .sweep | .advanceRedis _ | .advancePostgres _ =>
    inferInstanceAs (Decidable True)

/-- Key strings of the user that name one key are the same string, the key is unused when
`InsertOrderTx` looks for it and when it inserts, and nobody was answered when it stores an order. -/
def Service.KeepsKeys (S : Service U) (u : U) (s : Sys U) : Move U → Prop :=
  S.MoveKeepsKeys u (fun q => s.Every fun th => ¬ th.Clashes S.uuid q)
    (fun q => s.Every fun th => ¬ th.Answered S.uuid q) s

theorem Service.MoveKeepsKeys.imp {S : Service U} {u : U} {apart apart' free free' : CommitRequest U → Prop}
    {s : Sys U} {m : Move U} (h : S.MoveKeepsKeys u apart free s m) (ha : ∀ q, apart q → apart' q)
    (hf : ∀ q, free q → free' q) : S.MoveKeepsKeys u apart' free' s m := by
  cases m with
  | spawn t req =>
    cases req with
    | commit q => exact fun hq => ha q (h hq)
    | _ => trivial
  | exec t f scan =>
    intro th hth
    have hone := h th hth
    cases th with
    | commit q pc =>
      intro hq
      cases pc with
      | insert ss up ca => exact ⟨(hone hq).1, fun hdb => hf q ((hone hq).2 hdb)⟩
      | _ => exact hone hq
    | _ => trivial
  | _ => trivial

end Keys

section Invariant

variable {U : Type} [DecidableEq U] {S : Service U} {u : U} {s₀ s s' : Sys U} {m : Move U}

/-- What the steps of the requests keep, in terms of the parsed keys. -/
structure KeysKept (S : Service U) (u : U) (s : Sys U) : Prop where
  strings : ∀ t t' q q' pc pc', s.threads t = some (.commit q pc) → s.threads t' = some (.commit q' pc') →
    q.userId S.uuid = u → q'.userId S.uuid = u → q.idem S.uuid = q'.idem S.uuid →
    q.idempotencyKey = q'.idempotencyKey
  unique : ∀ o ∈ s.world.db.orders, ∀ o' ∈ s.world.db.orders, o.userId = u → o'.userId = u →
    o.idempotencyKey = o'.idempotencyKey → o = o'
  answers : ∀ t q r x, s.threads t = some (.commit q (.done r)) → q.userId S.uuid = u →
    r.orderId = some x → x = q.draw ∨
      ∃ o ∈ s.world.db.orders, o.userId = u ∧ o.idempotencyKey = q.idem S.uuid ∧ o.id = x
  named : ∀ t q r x, s.threads t = some (.commit q (.done r)) → q.userId S.uuid = u →
    r.orderId = some x → ∀ o ∈ s.world.db.orders, o.userId = u →
      o.idempotencyKey = q.idem S.uuid → x = o.id

theorem Service.Step.request {t : Nat} {q : CommitRequest U} {pc : CommitPc U} (hs : S.Step s m s')
    (hth : s'.threads t = some (.commit q pc)) :
    (∃ pc₀, s.threads t = some (.commit q pc₀)) ∨ m = .spawn t (.commit q) := by
  cases hs.commit hth with
  | stay hold => exact .inl ⟨_, hold⟩
  | start _ _ => exact .inr rfl
  | turn hold _ _ _ => exact .inl ⟨_, hold⟩

theorem strings_step (hi : KeysKept S u s) (hs : S.Step s m s') (hgood : S.KeepsKeys u s m)
    (t t' : Nat) (q q' : CommitRequest U) (pc pc' : CommitPc U)
    (hth : s'.threads t = some (.commit q pc)) (hth' : s'.threads t' = some (.commit q' pc'))
    (hq : q.userId S.uuid = u) (hq' : q'.userId S.uuid = u) (hk : q.idem S.uuid = q'.idem S.uuid) :
    q.idempotencyKey = q'.idempotencyKey := by
  rcases hs.request hth with ⟨pc₀, h₀⟩ | rfl
  · rcases hs.request hth' with ⟨pc₁, h₁⟩ | rfl
    · exact hi.strings t t' q q' pc₀ pc₁ h₀ h₁ hq hq' hk
    · by_contra hne
      exact hgood hq' t _ h₀ ⟨hq.trans hq'.symm, hk, hne⟩
  · rcases hs.request hth' with ⟨pc₁, h₁⟩ | hm
    · by_contra hne
      exact hgood hq t' _ h₁ ⟨hq'.trans hq.symm, hk.symm, Ne.symm hne⟩
    · rw [Request.commit.inj (Move.spawn.inj hm).2]

theorem Service.Step.newOrder (hs : S.Step s m s') (hgood : S.KeepsKeys u s m) :
    s'.world.db.orders = s.world.db.orders ∨ ∃ t q ss up ca,
      s'.world.db.orders = s.world.db.orders ++ [q.order S.uuid ss up ca] ∧ (∃ f scan, m = .exec t f scan) ∧
      s.threads t = some (.commit q (.insert ss up ca)) ∧ (q.userId S.uuid = u →
        q.KeyUnused S.uuid s.world.db ∧ s.Every fun th => ¬ th.Answered S.uuid q) := by
  rcases hs.orders with heq | ⟨t, f, scan, q, ss, up, ca, _, rfl, hf, hth, hdb, heq, _⟩
  · exact .inl heq
  · refine .inr ⟨t, q, ss, up, ca, heq, ⟨f, scan, rfl⟩, hth, fun hq => ?_⟩
    obtain ⟨hunused, hfree⟩ := hgood _ hth hq
    exact ⟨hunused, hfree ⟨hf, Option.isSome_iff_ne_none.mpr hdb⟩⟩

theorem unique_orders_step (hi : KeysKept S u s) (hs : S.Step s m s') (hgood : S.KeepsKeys u s m)
    (o : Order U) (ho : o ∈ s'.world.db.orders) (o' : Order U) (ho' : o' ∈ s'.world.db.orders)
    (hu : o.userId = u) (hu' : o'.userId = u) (hk : o.idempotencyKey = o'.idempotencyKey) : o = o' := by
  rcases hs.newOrder hgood with heq | ⟨t, q, ss, up, ca, heq, _, _, hnew⟩
  · rw [heq] at ho ho'
    exact hi.unique o ho o' ho' hu hu' hk
  · rw [heq, List.mem_append, List.mem_singleton] at ho ho'
    rcases ho with ho | rfl
    · rcases ho' with ho' | rfl
      · exact hi.unique o ho o' ho' hu hu' hk
      · exact absurd hk ((hnew hu').1 o ho (hu.trans hu'.symm))
    · rcases ho' with ho' | rfl
      · exact absurd hk.symm ((hnew hu).1 o' ho' (hu'.trans hu.symm))
      · rfl

theorem known_order {q : CommitRequest U} {scan : Scan U} {x : U} (hscan : scan.Of s.world.db)
    (hx : Db.checkIdempotency scan.orders (q.idem S.uuid) (q.userId S.uuid) = some x) :
    ∃ o ∈ s.world.db.orders, o.userId = q.userId S.uuid ∧ o.idempotencyKey = q.idem S.uuid ∧ o.id = x := by
  obtain ⟨o, hmem, hk, hu, hid⟩ := Db.of_checkIdempotency hx
  exact ⟨o, hscan.orders.mem_iff.mp hmem, hu, hk, hid⟩

theorem key_answers_step (hi : KeysKept S u s) (hs : S.Step s m s') (t : Nat) (q : CommitRequest U)
    (r : CommitResponse U) (x : U) (hth : s'.threads t = some (.commit q (.done r)))
    (hq : q.userId S.uuid = u) (hx : r.orderId = some x) : x = q.draw ∨
      ∃ o ∈ s'.world.db.orders, o.userId = u ∧ o.idempotencyKey = q.idem S.uuid ∧ o.id = x := by
  have hold (h₀ : s.threads t = some (.commit q (.done r))) : x = q.draw ∨
      ∃ o ∈ s'.world.db.orders, o.userId = u ∧ o.idempotencyKey = q.idem S.uuid ∧ o.id = x := by
    rcases hi.answers t q r x h₀ hq hx with hown | ⟨o, hmem, ho⟩
    · exact .inl hown
    · exact .inr ⟨o, hs.orders_mono hmem, ho⟩
  have hmove := hs.commit hth
  cases hmove with
  | stay h₀ => exact hold h₀
  | start _ hpc => cases hpc
  | turn h₀ _ hscan hturn =>
    rcases hturn.answered hx with rfl | ⟨_, _, hown⟩ | ⟨rfl, _, hknown⟩
    · exact hold h₀
    · exact .inl hown
    · obtain ⟨o, hmem, hu, ho⟩ := known_order hscan hknown
      exact .inr ⟨o, hs.orders_mono hmem, hu.trans hq, ho⟩

theorem named_step (hi : KeysKept S u s) (hs : S.Step s m s') (hgood : S.KeepsKeys u s m) (t : Nat)
    (q : CommitRequest U) (r : CommitResponse U) (x : U)
    (hth : s'.threads t = some (.commit q (.done r))) (hq : q.userId S.uuid = u)
    (hx : r.orderId = some x) (o : Order U) (ho : o ∈ s'.world.db.orders) (hu : o.userId = u)
    (hk : o.idempotencyKey = q.idem S.uuid) : x = o.id := by
  have hnew := hs.newOrder hgood
  have hold (h₀ : s.threads t = some (.commit q (.done r))) : x = o.id := by
    rcases hnew with heq | ⟨t₁, q₁, ss, up, ca, heq, _, _, hfresh⟩
    · exact hi.named t q r x h₀ hq hx o (heq ▸ ho) hu hk
    · rw [heq, List.mem_append, List.mem_singleton] at ho
      rcases ho with ho | rfl
      · exact hi.named t q r x h₀ hq hx o ho hu hk
      · exact absurd ⟨hq.trans hu.symm, hk.symm, by simp [hx]⟩ ((hfresh hu).2 t _ h₀)
  have hmove := hs.commit hth
  cases hmove with
  | stay h₀ => exact hold h₀
  | start _ hpc => cases hpc
  | @turn pc₀ f scan h₀ _ hscan hturn =>
    rcases hturn.answered hx with rfl | ⟨hstoring, _, rfl⟩ | ⟨rfl, _, hknown⟩
    · exact hold h₀
    · have hunused : q.KeyUnused S.uuid s.world.db := by
        have hone := hgood _ h₀ hq
        cases pc₀ with
        | select ss up => exact hone
        | insert ss up ca => exact hone.1
        | _ => exact hstoring.elim
      rcases hnew with heq | ⟨t₁, q₁, ss, up, ca, heq, ⟨_, _, hm⟩, h₁, _⟩
      · exact absurd hk (hunused o (heq ▸ ho) (hu.trans hq.symm))
      · obtain ⟨rfl, _⟩ := Move.exec.inj hm
        obtain ⟨rfl, _⟩ := Thread.commit.inj (Option.some.inj (h₀.symm.trans h₁))
        rw [heq, List.mem_append, List.mem_singleton] at ho
        rcases ho with ho | rfl
        · exact absurd hk (hunused o ho (hu.trans hq.symm))
        · rfl
    · obtain ⟨o₁, hmem, hu₁, hk₁, rfl⟩ := known_order hscan hknown
      rcases hnew with heq | ⟨t₁, q₁, ss, up, ca, _, ⟨_, _, hm⟩, h₁, _⟩
      · rw [hi.unique o₁ hmem o (heq ▸ ho) (hu₁.trans hq) hu (hk₁.trans hk.symm)]
      · obtain ⟨rfl, _⟩ := Move.exec.inj hm
        cases h₀.symm.trans h₁

theorem keysKept_step (hi : KeysKept S u s) (hs : S.Step s m s') (hgood : S.KeepsKeys u s m) :
    KeysKept S u s' where
  strings := strings_step hi hs hgood
  unique := unique_orders_step hi hs hgood
  answers := key_answers_step hi hs
  named := named_step hi hs hgood

omit [DecidableEq U] in
theorem Origins.of_draw (hb : Booted S s₀) (h : Origins S s₀ s) {t : Nat} {q : CommitRequest U}
    {pc : CommitPc U} (hth : s.threads t = some (.commit q pc)) {o : Order U}
    (ho : o ∈ s.world.db.orders) (hid : o.id = q.draw) :
    o.userId = q.userId S.uuid ∧ o.idempotencyKey = q.idem S.uuid := by
  obtain ⟨⟨_, _, _, rfl⟩, _⟩ := h.order_eq hb hth ho hid
  exact ⟨rfl, rfl⟩

omit [DecidableEq U] in
theorem keysExact_of_keysKept (hb : Booted S s₀) (h : Origins S s₀ s)
    (h0 : ∀ o ∈ s₀.world.db.orders, o.userId ≠ u) (hi : KeysKept S u s) : s.KeysExact S.uuid u where
  single t t' q q' pc pc' hth hth' hq hq' hk o ho o' ho' hid hid' := by
    obtain ⟨hu, hkey⟩ := h.of_draw hb hth ho hid
    obtain ⟨hu', hkey'⟩ := h.of_draw hb hth' ho' hid'
    refine hi.unique o ho o' ho' (hu.trans hq) (hu'.trans hq') ?_
    rw [hkey, hkey', CommitRequest.idem, CommitRequest.idem, hk]
  named t t' q q' r x pc' hth hth' hq hq' hk hx o ho hid := by
    obtain ⟨hu, hkey⟩ := h.of_draw hb hth' ho hid
    refine hi.named t q r x hth hq hx o ho (hu.trans hq') ?_
    rw [hkey, CommitRequest.idem, CommitRequest.idem, hk]
  own t q r x hth hq hx := by
    rcases hi.answers t q r x hth hq hx with rfl | ⟨o, ho, hu, hkey, rfl⟩
    · exact ⟨t, q, _, hth, hq, rfl, rfl⟩
    · rcases h.orders o ho with hold | ⟨t', q', r', hth', _, _, _, _, rfl⟩
      · exact absurd hu (h0 o hold)
      · exact ⟨t', q', _, hth', hu, hi.strings t' t q' q _ _ hth' hth hu hq hkey, rfl⟩

end Invariant

section Runs

variable {U : Type} [DecidableEq U] {S : Service U} {s₀ s : Sys U} {tr : List (Sys U × Move U)}

/-- In a run whose steps keep the keys of a user apart and store each order once, the key strings
of that user identify requests exactly. -/
theorem keys_exact_of_key_keeping_run {u : U} (hb : Booted S s₀)
    (h0 : ∀ o ∈ s₀.world.db.orders, o.userId ≠ u) (hrun : Run S.Step s₀ tr s)
    (hgood : ∀ p ∈ tr, S.KeepsKeys u p.1 p.2) : s.KeysExact S.uuid u := by
  have hkept := hrun.invariant (KeysKept S u) (S.KeepsKeys u)
    (fun _ _ _ hi hg hs => keysKept_step hi hs hg)
    { strings := fun t _ _ _ _ _ hth => by simp [hb.idle t] at hth
      unique := fun o ho _ _ hu => absurd hu (h0 o ho)
      answers := fun t _ _ _ hth => by simp [hb.idle t] at hth
      named := fun t _ _ _ hth => by simp [hb.idle t] at hth } hgood
  exact keysExact_of_keysKept hb (Service.origins_run hb hrun) h0 hkept

end Runs

section Demo

theorem demo_key_exact : ∃ s : Sys DemoId, (∃ tr, Run demoService.Step demoSys tr s) ∧
    s.threads 2 = some (.commit (demoRetry DemoId.key.str (by decide) .order') (.done (.idempotent .order))) ∧
    s.KeysExact DemoId.lib .user := by
  have hplay : ((demoService.play demoSys
      (demoSold ++ served 2 (.commit (demoRetry DemoId.key.str (by decide) .order')) 1)).any fun x =>
        decide (x.2.threads 2 = some (.commit (demoRetry DemoId.key.str (by decide) .order')
            (.done (.idempotent .order))) ∧ (∀ p ∈ x.1, p.2.SpawnsBelow 3) ∧
          ∀ p ∈ x.1, demoService.MoveKeepsKeys .user
            (fun q => ∀ t < 3, ∀ th ∈ p.1.threads t, ¬ th.Clashes DemoId.lib q)
            (fun q => ∀ t < 3, ∀ th ∈ p.1.threads t, ¬ th.Answered DemoId.lib q) p.1 p.2)) = true := by
    decide +kernel
  obtain ⟨tr, s, hrun, hp⟩ := Service.run_of_play hplay
  obtain ⟨hth, hspawn, hkeep⟩ := of_decide_eq_true hp
  have hidle := fun p hp => Service.idle_above_of_mem (p := p) hrun (fun _ => rfl) hspawn hp
  exact ⟨s, ⟨tr, hrun⟩, hth, keys_exact_of_key_keeping_run demoSys_booted (fun _ h => nomatch h) hrun
    fun p hp => (hkeep p hp).imp (fun _ => Sys.every_of_below (hidle p hp))
      fun _ => Sys.every_of_below (hidle p hp)⟩

/-- Keys that are no UUIDs are one key to the database, and the second request is answered with
the order of the first. -/
theorem unparsed_key_answered_with_other_order : ¬ ∀ (s₀ s : Sys DemoId)
    (tr : List (Sys DemoId × Move DemoId)) (u : DemoId), Booted demoService s₀ →
    (∀ o ∈ s₀.world.db.orders, o.userId ≠ u) → Run demoService.Step s₀ tr s →
    s.KeysExact DemoId.lib u := by
  intro h
  let first := demoRetry "retry-1" (by decide) .order
  let second := demoRetry "retry-2" (by decide) .order'
  have hplay : ((demoService.play demoSys (served 0 (.hold demoHoldRequest) 4 ++
      served 1 (.commit first) 6 ++ served 2 (.commit second) 1)).any fun x =>
        decide (x.2.threads 2 = some (.commit second (.done (.idempotent .order))) ∧
          (∀ p ∈ x.1, p.2.SpawnsBelow 3) ∧ x.2.threads 0 = some (.hold demoHoldRequest (.done (.held
            (DemoId.lib.str .hold) 1790000600000 600 1))) ∧
          x.2.threads 1 = some (.commit first (.done (.paid .order 1500000))))) = true := by
    decide +kernel
  obtain ⟨tr, s, hrun, hp⟩ := Service.run_of_play hplay
  obtain ⟨hth, hspawn, hth₀, hth₁⟩ := of_decide_eq_true hp
  obtain ⟨t, q, pc, hq, _, hkey, hdraw⟩ := (h demoSys s tr .user demoSys_booted (fun _ h => nomatch h)
    hrun).own 2 second _ .order hth (by decide +kernel) rfl
  have ht : t < 3 := by
    by_contra hge
    cases (Service.idle_above hrun (fun _ => rfl) hspawn t (Nat.not_lt.mp hge)).symm.trans hq
  interval_cases t
  · cases hth₀.symm.trans hq
  · obtain ⟨rfl, _⟩ := Thread.commit.inj (Option.some.inj (hth₁.symm.trans hq))
    revert hkey
    decide
  · obtain ⟨rfl, _⟩ := Thread.commit.inj (Option.some.inj (hth.symm.trans hq))
    cases hdraw

end Demo

end CrowdTic
