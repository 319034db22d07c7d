import CrowdTic.CommitAccounts

/-! Retries of `redis/lua/commit.lua`. A refusal changes nothing, and a commit
that went through is answered as a replay from then on, by the ledger or by
the seats. A call that stops in its writes has sold seats. -/

namespace CrowdTic

/-- The call is a replay that changes no hash. -/
def Replays (r : Redis) (inv : String) (ks : List String) (a : CommitLuaArgs) : Prop :=
  (∃ fields, (commitLua r inv ks a).1 = .ok "ALREADY_COMMITTED" fields) ∧
    (commitLua r inv ks a).2.hashes = r.hashes

/-- A later state in which the ledger entries of the call have expired, with the inventory and the
seats as they were left. -/
structure LedgerExpired (inv : String) (ks : List String) (a : CommitLuaArgs) (r r' : Redis) : Prop where
  hold : r'.strings.get (orderHoldKey a.eventId a.holdId) = none
  order : r'.strings.get (orderKey a.eventId a.orderId) = none
  inventory : r'.hashes.get inv = r.hashes.get inv
  seats : ∀ k ∈ ks, r'.hashes.get k = r.hashes.get k

section Retries

variable {r r' : Redis} {inv : String} {ks : List String} {a : CommitLuaArgs}

theorem CommitLuaReady.transfer (h : CommitLuaReady r inv ks a) (hinv : r'.present inv = true) :
    CommitLuaReady r' inv ks a :=
  ⟨h.holdId, h.userId, h.eventId, h.seats, hinv⟩

theorem replays_of_replay (hready : CommitLuaReady r inv ks a) {existing : String}
    (h : commitLuaReplay r a = some existing) : Replays r inv ks a := by
  obtain ⟨fields, hx⟩ := commitLua_replay hready h
  rw [Replays, hx]
  exact ⟨⟨fields, rfl⟩, rfl⟩

theorem replays_of_sold (hready : CommitLuaReady r inv ks a)
    (hsold : ∀ k ∈ ks, r.seat k = .sold a.userId a.holdId) : Replays r inv ks a := by
  cases hreplay : commitLuaReplay r a with
  | some existing => exact replays_of_replay hready hreplay
  | none =>
    obtain ⟨fields, hx⟩ := commitLua_resale hready hreplay hsold
    rw [Replays, hx]
    exact ⟨⟨fields, rfl⟩, hashes_commitLuaLedger r a⟩

theorem sold_after_writes (hkeys : CommitKeys inv ks) (h : CommitLuaSells r inv ks a) :
    ∀ k ∈ ks, (commitLuaWrites r inv ks a).seat k = .sold a.userId a.holdId := by
  intro k hk
  rw [seat_commitLuaWrites r inv ks a (hkeys.seat_ne_holdKey hk _ _)]
  rcases h.seats k hk with hseat | hseat
  · rw [if_pos ⟨hk, by simp [hseat, Seat.held]⟩, hseat]
    rfl
  · rw [if_neg (by simp [hseat, Seat.sold]), hseat]

theorem inventory_after_writes (hkeys : CommitKeys inv ks) :
    (commitLuaWrites r inv ks a).present inv = true := by
  simp [present_commitLuaWrites, hkeys.inv_ne_holdKey a.eventId a.holdId]

end Retries

/-- What a call leaves that is all or nothing, and whose retry is a replay while the ledger lasts and
after it. -/
structure RetrySafe (r : Redis) (inv : String) (ks : List String) (a : CommitLuaArgs)
    (out : Reply × Redis) : Prop where
  error : ∀ e, out.1 = .err e → out.2 = r
  again : ∀ status fields, out.1 = .ok status fields → Replays out.2 inv ks a
  later : ∀ fields, out.1 = .ok "SOLD" fields → ∀ r', LedgerExpired inv ks a out.2 r' → Replays r' inv ks a

section Outcomes

variable {r : Redis} {inv : String} {ks : List String} {a : CommitLuaArgs}

theorem retrySafe_refused (e : String) : RetrySafe r inv ks a (.err e, r) :=
  ⟨fun _ _ => rfl, nofun, nofun⟩

theorem retrySafe_replayed {r' : Redis} {fields : List (String × String)} (h : Replays r' inv ks a) :
    RetrySafe r inv ks a (.ok "ALREADY_COMMITTED" fields, r') := by
  refine ⟨nofun, fun _ _ _ => h, ?_⟩
  intro fields' hs
  exact absurd (Reply.ok.inj hs).1 (by decide)

theorem retrySafe_sold {fields : List (String × String)} (hkeys : CommitKeys inv ks)
    (h : CommitLuaSells r inv ks a) :
    RetrySafe r inv ks a (.ok "SOLD" fields, commitLuaWrites r inv ks a) := by
  have hinv := inventory_after_writes (r := r) (a := a) hkeys
  have hsold := sold_after_writes hkeys h
  refine ⟨nofun, fun _ _ _ => replays_of_sold (h.ready.transfer hinv) hsold, ?_⟩
  intro fields' _ r' hr'
  refine replays_of_sold (h.ready.transfer ?_) ?_
  · rw [Redis.present, hr'.inventory]
    exact hinv
  · intro k hk
    have hseat : r'.seat k = (commitLuaWrites r inv ks a).seat k := by
      simp [Redis.seat, Hashes.hget, hr'.seats k hk]
    rw [hseat]
    exact hsold k hk

theorem not_retrySafe_stopped {e : String} {ts : Int} (hkeys : CommitKeys inv ks)
    (h : CommitLuaSells r inv ks a) :
    ¬ RetrySafe r inv ks a (.err e, (execCommitLuaWrites inv ks a ts r).2) := by
  intro hsafe
  have hkept : (execCommitLuaWrites inv ks a ts r).2 = r := hsafe.error e rfl
  have hpos := soldNow_stopped_pos ts hkeys h
  rw [hkept, soldNow_kept rfl] at hpos
  omega

end Outcomes

/-- A call is safe to retry exactly when it sells nothing or all its counters fit. -/
theorem commitLua_retry_safe_iff (r : Redis) {inv : String} {ks : List String} (a : CommitLuaArgs)
    (hkeys : CommitKeys inv ks) : RetrySafe r inv ks a (commitLua r inv ks a) ↔
      ¬ CommitLuaSells r inv ks a ∨ CommitLuaFits r inv ks := by
  have hx := commitLua_outcome r inv ks a
  have hkept (h : ¬ CommitLuaSells r inv ks a) {out : Reply × Redis} (hsafe : RetrySafe r inv ks a out) :
      RetrySafe r inv ks a out ↔ ¬ CommitLuaSells r inv ks a ∨ CommitLuaFits r inv ks :=
    iff_of_true hsafe (.inl h)
  generalize commitLua r inv ks a = x at hx ⊢
  cases hx with
  | refused e h => exact hkept h (retrySafe_refused e)
  | replayed hready h =>
    refine hkept ?_ (retrySafe_replayed (replays_of_replay hready h))
    intro hs
    cases hs.fresh.symm.trans h
  | resold hready hfresh hsold =>
    have hsame := hashes_commitLuaLedger r a
    refine hkept ?_ (retrySafe_replayed (replays_of_sold (hready.transfer ?_) ?_))
    · intro hs
      obtain ⟨k, hk, hheld⟩ := hs.held
      simp [hsold k hk, Seat.sold] at hheld
    · rw [Redis.present, hsame]
      exact hready.inventory
    · intro k hk
      simpa [Redis.seat, hsame] using hsold k hk
  | sold h hfits => exact iff_of_true (retrySafe_sold hkeys h) (.inr hfits)
  | failed h hfits => exact iff_of_false (not_retrySafe_stopped hkeys h) (not_or.mpr ⟨not_not.mpr h, hfits⟩)

theorem demo_retry_safe : RetrySafe demoBothHeld (inventoryKey demoEvent demoVip) demoSeatKeys demoLuaArgs
    (commitLua demoBothHeld (inventoryKey demoEvent demoVip) demoSeatKeys demoLuaArgs) := by
  have hkeys : CommitKeys (inventoryKey demoEvent demoVip) demoSeatKeys :=
    demoSeatKeys_families fun _ hk => hk
  refine (commitLua_retry_safe_iff demoBothHeld demoLuaArgs hkeys).mpr (.inr ?_)
  constructor <;> decide +kernel

def demoFull : Redis :=
  demoBothHeld.hincrby (inventoryKey demoEvent demoVip) .sold (2 ^ 63 - 1)

/-- The seats are sold and the held counter is lowered before the error. -/
theorem full_counter_keeps_sold : ¬ ∀ (r : Redis) (inv : String) (ks : List String) (a : CommitLuaArgs),
    CommitKeys inv ks → RetrySafe r inv ks a (commitLua r inv ks a) := by
  intro h
  have hkeys : CommitKeys (inventoryKey demoEvent demoVip) demoSeatKeys :=
    demoSeatKeys_families fun _ hk => hk
  have hs : CommitLuaSells demoFull (inventoryKey demoEvent demoVip) demoSeatKeys demoLuaArgs :=
    ⟨by constructor <;> decide +kernel, by decide +kernel, by decide +kernel, by decide +kernel⟩
  have hfits : ¬ CommitLuaFits demoFull (inventoryKey demoEvent demoVip) demoSeatKeys :=
    fun hf => absurd hf.sold (by decide +kernel)
  obtain ⟨e, hx⟩ := commitLua_stopped hs hfits
  have hsafe := h demoFull _ _ demoLuaArgs hkeys
  rw [hx] at hsafe
  exact not_retrySafe_stopped hkeys hs hsafe

end CrowdTic
