import CrowdTic.RetryAfter

/-! A join of somebody who is in the active queue already. The KV fallback
leaves the queue alone. Redis overwrites the score, and so keeps the order only
where the new score falls between the same neighbours as the old one. -/

namespace CrowdTic

open Ranked

/-- The others sort on the same side of the entry that a new join of the user would have as of the
one that the queue holds. -/
def Room.KeepsPlace (r : Room) (now : Nat) (user : String) : Prop :=
  ∀ e ∈ r.active, e.member = user → ∀ x ∈ r.active, x.member ≠ user →
    (LexLE x e ↔ LexLE x ⟨user, now + r.active.length⟩)

instance (r : Room) (now : Nat) (user : String) : Decidable (r.KeepsPlace now user) :=
  inferInstanceAs (Decidable (∀ e ∈ r.active, e.member = user → ∀ x ∈ r.active, x.member ≠ user →
    (LexLE x e ↔ LexLE x ⟨user, now + r.active.length⟩)))

section Split

variable {q l r : List Entry} {e x : Entry}

theorem split_at_member {user : String} (hm : user ∈ members q) :
    ∃ l e r, q = l ++ e :: r ∧ e.member = user := by
  obtain ⟨e, he, hu⟩ := List.mem_map.mp hm
  obtain ⟨l, r, hq⟩ := List.append_of_mem he
  exact ⟨l, e, r, hq, hu⟩

theorem members_split : members (l ++ e :: r) = members l ++ e.member :: members r := by
  simp [members]

theorem once_of_nodup (h : (members (l ++ e :: r)).Nodup) :
    e.member ∉ members l ∧ e.member ∉ members r := by
  rw [members_split, List.nodup_middle, List.nodup_cons, List.mem_append, not_or] at h
  exact h.1

theorem zrem_split (hl : e.member ∉ members l) (hr : e.member ∉ members r) :
    zrem (l ++ e :: r) e.member = l ++ r := by
  have hle := zrem_of_absent hl
  have hre := zrem_of_absent hr
  rw [zrem] at hle hre
  rw [zrem, List.filter_append, List.filter_cons_of_neg (by simp), hle, hre]

theorem LexLE.eq_of_mutual (h : LexLE x e) (h' : LexLE e x) : x.member = e.member := by
  rcases h with h | ⟨_, h⟩
  · rcases h' with h' | ⟨h', _⟩
    · exact absurd h' h.not_gt
    · exact absurd h' h.ne'
  · rcases h' with h' | ⟨_, h'⟩
    · rename_i hs
      exact absurd hs h'.ne'
    · exact le_antisymm h h'

/-- In a sorted set the entries in front of `e` are those that sort before it. -/
theorem lexLE_iff_front (hq : (l ++ e :: r).Pairwise LexLE) (hx : x.member ≠ e.member) :
    (x ∈ l → LexLE x e) ∧ (x ∈ r → ¬ LexLE x e) := by
  obtain ⟨_, hr, hlr⟩ := List.pairwise_append.mp hq
  refine ⟨fun hxl => hlr x hxl e List.mem_cons_self, fun hxr hle => ?_⟩
  have hge := (List.pairwise_cons.mp hr).1 x hxr
  exact hx (LexLE.eq_of_mutual hle hge)

theorem stays_iff : Backend.redis.stays e x = true ↔ ¬ LexLE e x := by simp [Backend.stays]

theorem stays_iff_lexLE (hx : x.member ≠ e.member) :
    Backend.redis.stays e x = true ↔ LexLE x e := by
  rw [stays_iff]
  constructor
  · exact fun hn => (LexLE.total x e).resolve_right hn
  · exact fun hle hge => hx (LexLE.eq_of_mutual hle hge)

end Split

variable {cfg : RoomConfig} {r : Room} {user : String} (now : Nat) (draw : Draw)

theorem joinsActive_of_mem (hu : user ∈ members r.active) : r.joinsActive cfg now = true := by
  have hpos : 0 < r.active.length := by
    simpa [members] using List.length_pos_of_mem hu
  simp [Room.joinsActive, hpos]

theorem rejoin_kv (h : r.Ordered cfg.backend) (hu : user ∈ members r.active)
    (hb : cfg.backend = .kv) : (r.handleJoin cfg now user draw).active = r.active := by
  have hsorted : r.active.Pairwise ScoreLE := by
    have ha := h.active
    rwa [hb] at ha
  simp only [Room.handleJoin, hb, joinsActive_of_mem now hu, if_true, if_pos hu]
  exact sortByScore_of_sorted hsorted

theorem rejoin_redis (hu : user ∈ members r.active) (hb : cfg.backend = .redis) :
    (r.handleJoin cfg now user draw).active =
      placed .redis r.active ⟨user, now + r.active.length⟩ := by
  have hne : r.active ≠ [] := by
    intro he
    simp [he, members] at hu
  have hscore : r.tailScore cfg now draw = now + r.active.length :=
    tailScore_of_nonempty draw hne
  simp only [Room.handleJoin, hb, joinsActive_of_mem now hu, if_true, hscore]
  exact zadd_eq_placed

theorem keepsPlace_split {l t : List Entry} {e : Entry} (hr : r.active = l ++ e :: t)
    (hq : r.active.Pairwise LexLE) (hn : (members r.active).Nodup) :
    r.KeepsPlace now e.member ↔
      (∀ x ∈ l, LexLE x ⟨e.member, now + r.active.length⟩) ∧
        ∀ x ∈ t, ¬ LexLE x ⟨e.member, now + r.active.length⟩ := by
  obtain ⟨hl, ht⟩ := once_of_nodup (hr ▸ hn)
  have hother : ∀ x, x ∈ l ∨ x ∈ t → x.member ≠ e.member := by
    intro x hx he
    rcases hx with hx | hx
    · exact hl (he ▸ List.mem_map_of_mem hx)
    · exact ht (he ▸ List.mem_map_of_mem hx)
  have hfront : ∀ x, x.member ≠ e.member → (x ∈ l → LexLE x e) ∧ (x ∈ t → ¬ LexLE x e) :=
    fun x hx => lexLE_iff_front (hr ▸ hq) hx
  have hmem : ∀ x, x ∈ r.active ↔ x ∈ l ∨ x = e ∨ x ∈ t := by simp [hr]
  constructor
  · intro hk
    have hside : ∀ x, x ∈ l ∨ x ∈ t →
        (LexLE x e ↔ LexLE x ⟨e.member, now + r.active.length⟩) := by
      intro x hx
      refine hk e ((hmem e).mpr (.inr (.inl rfl))) rfl x ((hmem x).mpr ?_) (hother x hx)
      exact hx.imp_right .inr
    refine ⟨fun x hx => ?_, fun x hx hle => ?_⟩
    · exact (hside x (.inl hx)).mp ((hfront x (hother x (.inl hx))).1 hx)
    · exact (hfront x (hother x (.inr hx))).2 hx ((hside x (.inr hx)).mpr hle)
  · rintro ⟨hin, hout⟩ e₁ he₁ hu x hx hne
    obtain rfl : e₁ = e :=
      List.inj_on_of_nodup_map hn he₁ ((hmem e).mpr (.inr (.inl rfl))) hu
    rcases (hmem x).mp hx with hx | rfl | hx
    · exact iff_of_true ((hfront x hne).1 hx) (hin x hx)
    · exact absurd rfl hne
    · exact iff_of_false ((hfront x hne).2 hx) (hout x hx)

/-- Joining again keeps the order of the whole queue on the KV fallback, and on Redis exactly when
the new score keeps the user's place. -/
theorem rejoin_keeps_order_iff (h : r.Ordered cfg.backend) (hu : user ∈ members r.active) :
    members (r.handleJoin cfg now user draw).active = members r.active ↔
      cfg.backend = .kv ∨ r.KeepsPlace now user := by
  cases hb : cfg.backend with
  | kv => simp [rejoin_kv now draw h hu hb]
  | redis =>
    have hq : r.active.Pairwise LexLE := by
      have ha := h.active
      rwa [hb] at ha
    obtain ⟨l, e, t, hr, rfl⟩ := split_at_member hu
    have hn := h.activeOnce
    obtain ⟨hl, ht⟩ := once_of_nodup (hr ▸ hn)
    rw [rejoin_redis now draw hu hb, keepsPlace_split now hr hq hn, placed, or_iff_right (by simp)]
    generalize he' : (⟨e.member, now + r.active.length⟩ : Entry) = e'
    have hm : e'.member = e.member := by rw [← he']
    have hsplit : members r.active = members l ++ e'.member :: members t := by
      rw [hr, members_split, hm]
    have hrest : zrem r.active e'.member = l ++ t := by
      rw [hr, hm]
      exact zrem_split hl ht
    have hclosed : (l ++ t).Pairwise fun x y =>
        Backend.redis.stays e' y = true → Backend.redis.stays e' x = true := by
      rw [← hrest]
      exact (hq.sublist List.filter_sublist).imp fun hle hy => Backend.stays_of_order hle hy
    have hside : ∀ x, x ∈ l ∨ x ∈ t → (Backend.redis.stays e' x = true ↔ LexLE x e') := by
      intro x hx
      refine stays_iff_lexLE fun hxe => ?_
      rcases hx with hx | hx
      · exact hl (hm ▸ hxe ▸ List.mem_map_of_mem hx)
      · exact ht (hm ▸ hxe ▸ List.mem_map_of_mem hx)
    rw [hsplit, hrest, place_between hclosed (hm ▸ hl) (hm ▸ ht)]
    refine and_congr (forall₂_congr fun x hx => hside x (.inl hx)) (forall₂_congr fun x hx => ?_)
    rw [← hside x (.inr hx), Bool.not_eq_true]

theorem rejoin_goes_last (hu : user ∈ members r.active) (hb : cfg.backend = .redis)
    (hlow : ∀ x ∈ r.active, x.member ≠ user → x.score < now + r.active.length) :
    members (r.handleJoin cfg now user draw).active =
      (members r.active).filter (fun x => x ≠ user) ++ [user] := by
  have hstays : ∀ x ∈ zrem r.active user,
      Backend.redis.stays ⟨user, now + r.active.length⟩ x = true := by
    intro x hx
    obtain ⟨hx, hne⟩ := List.mem_filter.mp hx
    have hne : x.member ≠ user := by simpa using hne
    exact Backend.stays_of_score (hlow x hx hne)
  rw [rejoin_redis now draw hu hb, placed_last hstays, ← members_zrem]
  simp [members]

/-- Alice, in front of Bobby, joins again. -/
theorem rejoin_loses_place : ¬ ∀ (cfg : RoomConfig) (r : Room) (now : Nat) (user : String)
    (draw : Draw), r.Ordered cfg.backend → user ∈ members r.active →
    members (r.handleJoin cfg now user draw).active = members r.active := by
  intro h
  have hh := h (demoRoom .redis) (demoQueue 2 none) 5000 "alice-01" demoDraw
    (demoQueue_ordered _ 2 none) (by decide)
  exact absurd hh (by decide +kernel)

theorem demo_keeps_place : members ((demoQueue 2 none).handleJoin (demoRoom .redis) 5000 "bobby-01"
    demoDraw).active = members (demoQueue 2 none).active := by
  refine (rejoin_keeps_order_iff 5000 demoDraw (demoQueue_ordered _ 2 none) (by decide)).mpr
    (.inr ?_)
  decide +kernel

end CrowdTic
