import CrowdTic.Line
import CrowdTic.WaitingRoom
import Mathlib.Data.List.TakeWhile

/-! What the calls of the waiting room do to its two queues: the order of the
active queue, and each call as moves of a line. -/

namespace CrowdTic

open Ranked

namespace Backend

/-- The order in which a backend keeps the entries of a queue. -/
def order : Backend → Entry → Entry → Prop
  | .redis => LexLE
  | .kv => ScoreLE

/-- The entry `x` stays in front of a new entry `e`. -/
def stays (b : Backend) (e x : Entry) : Bool :=
  match b with
  | .redis => !decide (LexLE e x)
  | .kv => x.score ≤ e.score

variable {b : Backend} {x y z e : Entry}

theorem order_trans (h : b.order x y) (h' : b.order y z) : b.order x z := by
  cases b with
  | redis => exact LexLE.trans h h'
  | kv =>
    have hle : x.score ≤ y.score := h
    exact hle.trans h'

theorem order_of_stays (h : b.stays e x = true) : b.order x e := by
  cases b with
  | redis =>
    have hn : ¬ LexLE e x := by simpa [stays] using h
    exact (LexLE.total x e).resolve_right hn
  | kv =>
    have hle : x.score ≤ e.score := by simpa [stays] using h
    exact hle

theorem order_of_not_stays (h : b.stays e x = false) : b.order e x := by
  cases b with
  | redis =>
    have hle : LexLE e x := by simpa [stays] using h
    exact hle
  | kv =>
    have hlt : e.score < x.score := by simpa [stays] using h
    exact hlt.le

theorem stays_of_order (h : b.order x y) (hy : b.stays e y = true) : b.stays e x = true := by
  cases b with
  | redis =>
    have hn : ¬ LexLE e y := by simpa [stays] using hy
    have hx : ¬ LexLE e x := fun he => hn (he.trans h)
    simpa [stays] using hx
  | kv =>
    have hle : y.score ≤ e.score := by simpa [stays] using hy
    have hxy : x.score ≤ y.score := h
    have hx : x.score ≤ e.score := hxy.trans hle
    simpa [stays] using hx

theorem order_of_score (h : x.score < y.score) : b.order x y := by
  cases b with
  | redis => exact .inl h
  | kv => exact h.le

theorem stays_of_score (h : x.score < e.score) : b.stays e x = true := by
  by_contra hn
  have hle : e.score ≤ x.score := by
    have hback := order_of_not_stays (Bool.eq_false_iff.mpr hn)
    cases b with
    | redis =>
      rcases hback with hlt | ⟨he, _⟩
      · exact hlt.le
      · exact he.le
    | kv => exact hback
  exact absurd h hle.not_gt

end Backend

/-- The queues are as their backend keeps them, and no member is twice in one. -/
structure Room.Ordered (b : Backend) (r : Room) : Prop where
  active : r.active.Pairwise b.order
  pool : r.pool.Pairwise b.order
  activeOnce : (members r.active).Nodup
  poolOnce : (members r.pool).Nodup

section Queues

variable {q : List Entry} {user : String} {s : ℚ}

theorem members_zrem (q : List Entry) (user : String) :
    members (zrem q user) = (members q).filter fun x => x ≠ user := by
  simp [zrem, members, List.filter_map, Function.comp_def]

theorem zrem_of_absent (h : user ∉ members q) : zrem q user = q := by
  refine List.filter_eq_self.mpr fun x hx => ?_
  have hne : x.member ≠ user := fun he => h (he ▸ List.mem_map_of_mem hx)
  simpa using hne

def placed (b : Backend) (q : List Entry) (e : Entry) : List Entry :=
  place (b.stays e) (zrem q e.member) e

theorem zadd_eq_placed : zadd q user s = placed .redis q ⟨user, s⟩ := zadd_eq_place q user s

theorem push_eq_placed (hq : q.Pairwise ScoreLE) (h : user ∉ members q) :
    sortByScore (q ++ [⟨user, s⟩]) = placed .kv q ⟨user, s⟩ := by
  rw [sortByScore_append _ hq, placed, zrem_of_absent h]
  rfl

variable {b : Backend} {e : Entry}

theorem mem_members_placed {x : String} :
    x ∈ members (placed b q e) ↔ x = e.member ∨ x ∈ members q := by
  have hz : x ∈ members (zrem q e.member) ↔ x ∈ members q ∧ x ≠ e.member := by
    rw [members_zrem, List.mem_filter, decide_eq_true_eq]
  have hp : x ∈ members (placed b q e) ↔ x = e.member ∨ x ∈ members (zrem q e.member) := by
    simp [members, placed, mem_place, or_and_right, exists_or, eq_comm]
  rw [hp, hz]
  tauto

theorem placed_pairwise (hq : q.Pairwise b.order) : (placed b q e).Pairwise b.order :=
  pairwise_place (hq.sublist List.filter_sublist) (fun _ _ _ => Backend.order_trans)
    (fun _ _ => Backend.order_of_stays) fun _ _ => Backend.order_of_not_stays

theorem placed_nodup (hq : (members q).Nodup) : (members (placed b q e)).Nodup := by
  have hz : (members (zrem q e.member)).Nodup := by
    rw [members_zrem]
    exact hq.filter _
  have hout : e.member ∉ members (zrem q e.member) := by simp [members_zrem]
  obtain ⟨r, hsplit, hplace⟩ := members_place_split (b.stays e) (zrem q e.member) e
  rw [placed, hplace, List.nodup_middle, ← hsplit]
  exact List.nodup_cons.mpr ⟨hout, hz⟩

theorem placed_last (h : ∀ x ∈ zrem q e.member, b.stays e x = true) :
    placed b q e = zrem q e.member ++ [e] := by
  rw [placed, place, List.takeWhile_eq_self_iff.mpr h, List.dropWhile_eq_nil_iff.mpr h]

theorem mem_members_zadd {x : String} : x ∈ members (zadd q user s) ↔ x = user ∨ x ∈ members q := by
  rw [zadd_eq_placed, mem_members_placed]

theorem zadd_nodup (hq : (members q).Nodup) : (members (zadd q user s)).Nodup := by
  rw [zadd_eq_placed]
  exact placed_nodup hq

end Queues

section Join

variable {cfg : RoomConfig} {r : Room} {now : Nat} (user : String) (draw : Draw)

theorem tailScore_of_nonempty (h : r.active ≠ []) :
    r.tailScore cfg now draw = now + r.active.length := by
  have hpos := List.length_pos_iff.mpr h
  unfold Room.tailScore
  cases cfg.backend with
  | redis => exact if_pos hpos
  | kv => rfl

/-- A join of the active queue places its user behind the entries that its score lets stay in
front, except that the KV fallback leaves a user alone who is there already. -/
theorem handleJoin_active (h : r.Ordered cfg.backend) (hj : r.joinsActive cfg now = true) :
    (r.handleJoin cfg now user draw).pool = zrem r.pool user ∧
      ((r.handleJoin cfg now user draw).active =
          placed cfg.backend r.active ⟨user, r.tailScore cfg now draw⟩ ∨
        user ∈ members r.active ∧ (r.handleJoin cfg now user draw).active = r.active) := by
  cases hb : cfg.backend with
  | redis =>
    simp only [Room.handleJoin, hb, hj, if_true]
    exact ⟨trivial, .inl zadd_eq_placed⟩
  | kv =>
    have hsorted : r.active.Pairwise ScoreLE := by
      have ha := h.active
      rwa [hb] at ha
    simp only [Room.handleJoin, hb, hj, if_true]
    refine ⟨rfl, ?_⟩
    by_cases hm : user ∈ members r.active
    · rw [if_pos hm, sortByScore_of_sorted hsorted]
      exact .inr ⟨hm, rfl⟩
    · rw [if_neg hm]
      exact .inl (push_eq_placed hsorted hm)

theorem handleJoin_pool (h : r.Ordered cfg.backend) (hj : r.joinsActive cfg now = false) :
    (r.handleJoin cfg now user draw).active = r.active ∧
      ((r.handleJoin cfg now user draw).pool = placed cfg.backend r.pool ⟨user, draw.val⟩ ∨
        user ∈ members r.pool ∧ (r.handleJoin cfg now user draw).pool = r.pool) := by
  cases hb : cfg.backend with
  | redis =>
    simp only [Room.handleJoin, hb, hj, Bool.false_eq_true, if_false]
    exact ⟨trivial, .inl zadd_eq_placed⟩
  | kv =>
    have hsorted : r.pool.Pairwise ScoreLE := by
      have hp := h.pool
      rwa [hb] at hp
    simp only [Room.handleJoin, hb, hj, Bool.false_eq_true, if_false]
    refine ⟨trivial, ?_⟩
    by_cases hm : user ∈ members r.pool
    · rw [if_pos hm, sortByScore_of_sorted hsorted]
      exact .inr ⟨hm, rfl⟩
    · rw [if_neg hm]
      exact .inl (push_eq_placed hsorted hm)

theorem handleJoin_kept : (r.handleJoin cfg now user draw).admitted = r.admitted ∧
    (r.handleJoin cfg now user draw).bucket = r.bucket := by
  unfold Room.handleJoin
  cases cfg.backend <;> cases r.joinsActive cfg now <;> exact ⟨rfl, rfl⟩

theorem Room.Ordered.handleJoin (h : r.Ordered cfg.backend) :
    (r.handleJoin cfg now user draw).Ordered cfg.backend := by
  have hpool : (members (zrem r.pool user)).Nodup := by
    rw [members_zrem]
    exact h.poolOnce.filter _
  by_cases hj : r.joinsActive cfg now = true
  · obtain ⟨hp, ha | ⟨_, ha⟩⟩ := handleJoin_active user draw h hj
    · exact ⟨ha ▸ placed_pairwise h.active, hp ▸ h.pool.sublist List.filter_sublist,
        ha ▸ placed_nodup h.activeOnce, hp ▸ hpool⟩
    · exact ⟨ha ▸ h.active, hp ▸ h.pool.sublist List.filter_sublist, ha ▸ h.activeOnce, hp ▸ hpool⟩
  · obtain ⟨ha, hp | ⟨_, hp⟩⟩ := handleJoin_pool user draw h
      (Bool.eq_false_iff.mpr hj)
    · exact ⟨ha ▸ h.active, hp ▸ placed_pairwise h.pool, ha ▸ h.activeOnce,
        hp ▸ placed_nodup h.poolOnce⟩
    · exact ⟨ha ▸ h.active, hp ▸ h.pool, ha ▸ h.activeOnce, hp ▸ h.poolOnce⟩

theorem mem_active_of_join (h : r.Ordered cfg.backend) (hj : r.joinsActive cfg now = true) :
    user ∈ members (r.handleJoin cfg now user draw).active := by
  obtain ⟨_, ha | ⟨hm, ha⟩⟩ := handleJoin_active user draw h hj
  · rw [ha]
    exact mem_members_placed.mpr (.inl rfl)
  · rwa [ha]

theorem mem_pool_of_join (h : r.Ordered cfg.backend) (hj : r.joinsActive cfg now = false) :
    user ∈ members (r.handleJoin cfg now user draw).pool := by
  obtain ⟨_, hp | ⟨hm, hp⟩⟩ := handleJoin_pool user draw h hj
  · rw [hp]
    exact mem_members_placed.mpr (.inl rfl)
  · rwa [hp]

end Join

section Shuffle

variable {cfg : RoomConfig} {r : Room} (now : Nat) (draws : Nat → Draw)

/-- Redis adds the shuffled members one after another, each behind the last. -/
theorem foldl_zadd (l : List String) (k : Nat) (q : List Entry)
    (hlow : ∀ x ∈ q, x.score < (now + k : Nat)) (hn : (members q ++ l).Nodup) :
    (l.zipIdx k).foldl (fun q x => zadd q x.1 ((now + x.2 : Nat) : ℚ)) q =
      q ++ (l.zipIdx k).map fun x => ⟨x.1, (now + x.2 : Nat)⟩ := by
  induction l generalizing k q with
  | nil => simp
  | cons u l ih =>
    have hu : u ∉ members q := by
      rw [List.nodup_middle, List.nodup_cons, List.mem_append, not_or] at hn
      exact hn.1.1
    have hadd : zadd q u ((now + k : Nat) : ℚ) = q ++ [⟨u, (now + k : Nat)⟩] := by
      rw [zadd_eq_placed, placed_last, zrem_of_absent hu]
      intro x hx
      exact Backend.stays_of_score (hlow x (List.mem_of_mem_filter hx))
    rw [List.zipIdx_cons, List.foldl_cons, hadd, ih (k + 1)]
    · simp
    · intro x hx
      have hstep : ((now + k : Nat) : ℚ) < (now + (k + 1) : Nat) := by
        exact_mod_cast Nat.lt_succ_self (now + k)
      rcases List.mem_append.mp hx with hx | hx
      · exact (hlow x hx).trans hstep
      · rw [List.mem_singleton.mp hx]
        exact hstep
    · simpa [members] using hn

theorem zipIdx_scores (l : List String) :
    (l.zipIdx.map fun x => (⟨x.1, (now + x.2 : Nat)⟩ : Entry)).Pairwise
      fun x y => x.score < y.score := by
  have hidx : l.zipIdx.Pairwise fun x y => x.2 < y.2 := by
    have hr : (List.range' 0 l.length).Pairwise (· < ·) := List.pairwise_lt_range'
    rwa [← List.zipIdx_map_snd, List.pairwise_map] at hr
  exact List.pairwise_map.mpr (hidx.imp fun hlt => Nat.cast_lt.mpr (Nat.add_lt_add_left hlt now))

/-- Both backends put the shuffled members into the active queue with growing scores. -/
theorem maybeShufflePool_active (h : r.Ordered cfg.backend) (hp : r.pool ≠ [])
    (ha : r.active = []) : (r.maybeShufflePool cfg now draws).active =
      (shuffleInPlace draws (members r.pool)).zipIdx.map fun x => ⟨x.1, (now + x.2 : Nat)⟩ := by
  have hlen : r.pool.length ≠ 0 := fun he => hp (List.length_eq_zero_iff.mp he)
  simp only [Room.maybeShufflePool, hlen, ha, if_false, List.length_nil, Nat.lt_irrefl]
  cases cfg.backend with
  | redis =>
    have hn := (shuffleInPlace_perm draws (members r.pool)).nodup_iff.mpr h.poolOnce
    exact foldl_zadd now _ 0 [] (by simp) (by simpa [members] using hn)
  | kv => rfl

theorem maybeShufflePool_members (h : r.Ordered cfg.backend) (hp : r.pool ≠ [])
    (ha : r.active = []) : members (r.maybeShufflePool cfg now draws).active =
      shuffleInPlace draws (members r.pool) := by
  rw [maybeShufflePool_active now draws h hp ha, members, List.map_map]
  exact List.zipIdx_map_fst 0 _

/-- What a shuffle of a pool with somebody in it leaves behind. -/
structure Shuffled (cfg : RoomConfig) (now : Nat) (r r' : Room) : Prop where
  idle : r.active = []
  pool : r'.pool = []
  perm : (members r'.active).Perm (members r.pool)
  admitted : r'.admitted = some ⟨0, some (now + 3600000)⟩
  bucket : r'.bucket = r.bucket
  sorted : r'.active.Pairwise cfg.backend.order

theorem maybeShufflePool_shuffled (h : r.Ordered cfg.backend) (hp : r.pool ≠ [])
    (ha : r.active = []) : Shuffled cfg now r (r.maybeShufflePool cfg now draws) := by
  have hlen : r.pool.length ≠ 0 := fun he => hp (List.length_eq_zero_iff.mp he)
  have hactive := maybeShufflePool_active now draws h hp ha
  refine ⟨ha, ?_, ?_, ?_, ?_, ?_⟩
  · simp [Room.maybeShufflePool, hlen, ha]
  · rw [maybeShufflePool_members now draws h hp ha]
    exact shuffleInPlace_perm draws _
  · simp [Room.maybeShufflePool, hlen, ha]
  · simp [Room.maybeShufflePool, hlen, ha]
  · rw [hactive]
    exact (zipIdx_scores now _).imp Backend.order_of_score

theorem maybeShufflePool_idle (h : r.pool = [] ∨ r.active ≠ []) :
    r.maybeShufflePool cfg now draws = r := by
  unfold Room.maybeShufflePool
  rcases h with hp | ha
  · rw [if_pos (by simp [hp])]
  · have hpos := List.length_pos_iff.mpr ha
    rw [if_pos hpos, ite_self]

theorem maybeShufflePool_cases (h : r.Ordered cfg.backend) :
    (r.pool = [] ∨ r.active ≠ []) ∧ r.maybeShufflePool cfg now draws = r ∨
      r.pool ≠ [] ∧ Shuffled cfg now r (r.maybeShufflePool cfg now draws) := by
  by_cases hp : r.pool = []
  · exact .inl ⟨.inl hp, maybeShufflePool_idle now draws (.inl hp)⟩
  · by_cases ha : r.active = []
    · exact .inr ⟨hp, maybeShufflePool_shuffled now draws h hp ha⟩
    · exact .inl ⟨.inr ha, maybeShufflePool_idle now draws (.inr ha)⟩

theorem Room.Ordered.maybeShufflePool (h : r.Ordered cfg.backend) :
    (r.maybeShufflePool cfg now draws).Ordered cfg.backend := by
  rcases maybeShufflePool_cases now draws h with ⟨_, hr⟩ | ⟨_, hs⟩
  · exact hr.symm ▸ h
  · exact ⟨hs.sorted, by simp [hs.pool], hs.perm.nodup_iff.mpr h.poolOnce,
      by simp [hs.pool, members]⟩

end Shuffle

section Admit

variable {cfg : RoomConfig} {r : Room} (now : Nat) {q : AdmitRequest}

theorem front_of_sorted {b : Backend} {q : List Entry} (h : q.Pairwise b.order) : b.front q = q := by
  cases b with
  | redis => rfl
  | kv => exact sortByScore_of_sorted h

/-- The bucket refuses the admission. -/
def AdmitRequest.refused (cfg : RoomConfig) (q : AdmitRequest) (r : Room) (now : Nat) : Prop :=
  bucketTokens cfg.fl cfg.rate (Expiring.live r.bucket now) now < q.batch.want r.active.length

theorem one_le_want (b : BatchField) {n : Nat} (hn : n ≠ 0) : 1 ≤ b.want n := by
  have hsize : (1 : ℚ) ≤ n := by exact_mod_cast Nat.one_le_iff_ne_zero.mpr hn
  have hbatch : (1 : ℚ) ≤ admitBatch := by norm_num [admitBatch]
  unfold BatchField.want
  cases b with
  | falsy => exact le_min hbatch hsize
  | truthy m =>
    cases m with
    | none => exact le_min hbatch hsize
    | some m => exact le_min (le_max_left _ _) hsize

theorem want_le (b : BatchField) (n : Nat) : b.want n ≤ n ∧ b.want n ≤ admitBatch := by
  have hbatch : (1 : ℚ) ≤ admitBatch := by norm_num [admitBatch]
  unfold BatchField.want
  cases b with
  | falsy => exact ⟨min_le_right _ _, min_le_left _ _⟩
  | truthy m =>
    cases m with
    | none => exact ⟨min_le_right _ _, min_le_left _ _⟩
    | some m => exact ⟨min_le_right _ _, (min_le_left _ _).trans (max_le hbatch (min_le_left _ _))⟩

theorem popCount_pos (b : Backend) {want : ℚ} (h : 1 ≤ want) : 0 < b.popCount want := by
  cases b with
  | redis =>
    have hceil : (1 : ℤ) ≤ ⌈want⌉ := by exact_mod_cast h.trans (Int.le_ceil want)
    have hpos : 0 < ⌈want⌉.toNat := by omega
    exact hpos
  | kv =>
    have hfloor : (1 : ℤ) ≤ ⌊want⌋ := Int.le_floor.mpr (by exact_mod_cast h)
    have hpos : 0 < ⌊want⌋.toNat := by omega
    exact hpos

/-- What an authorised admission does to the room `r` that its shuffle leaves. -/
inductive Admits (cfg : RoomConfig) (q : AdmitRequest) (now : Nat) (r : Room) : Admission → Prop
  | idle (reply : AdmitReply) (bucket : Option (Expiring BucketState))
      (h : r.active = [] ∨ q.refused cfg r now) (hr : ∀ m t users, reply ≠ .admitted m t users) :
      Admits cfg q now r ⟨reply, { r with bucket }, []⟩
  | pops (reply : AdmitReply) (admitted : Option (Expiring Nat))
      (bucket : Option (Expiring BucketState)) (k : Nat) (ha : r.active ≠ [])
      (hb : ¬ q.refused cfg r now) (hk : 0 < k) :
      Admits cfg q now r ⟨reply, { r with active := r.active.drop k, admitted, bucket },
        (members r.active).take k⟩

theorem handleAdmit_admits (h : r.Ordered cfg.backend) (ha : q.authorized cfg = true) :
    Admits cfg q now (r.maybeShufflePool cfg now q.draws) (r.handleAdmit cfg now q) := by
  have hs := h.maybeShufflePool now q.draws
  unfold Room.handleAdmit
  rw [if_neg (by simp [ha])]
  generalize r.maybeShufflePool cfg now q.draws = r₁ at hs ⊢
  dsimp only
  by_cases hlen : r₁.active.length = 0
  · rw [if_pos hlen]
    exact .idle _ r₁.bucket (.inl (List.length_eq_zero_iff.mp hlen)) (by simp)
  · have hne : r₁.active ≠ [] := fun he => hlen (by simp [he])
    rw [if_neg hlen]
    have hallowed := tokenBucketConsume_allowed cfg.fl cfg.rate now (Expiring.live r₁.bucket now)
      (q.batch.want r₁.active.length)
    by_cases hb : q.refused cfg r₁ now
    · rw [if_pos (hallowed.mpr hb)]
      exact .idle _ _ (.inr hb) (by simp)
    · rw [if_neg (fun he => hb (hallowed.mp he))]
      have hk := popCount_pos cfg.backend (one_le_want q.batch hlen)
      have hfront := front_of_sorted hs.active
      simp only [Room.popFront, hfront]
      rw [members, List.map_take]
      exact .pops _ _ _ _ hne hb hk

end Admit

end CrowdTic
