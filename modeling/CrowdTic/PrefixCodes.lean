import Mathlib.Data.List.Infix

/-! Codes whose words are read off the front of a text. A text of such words
falls into them in one way, and so does what it begins with. -/

/-- No word is empty, and two texts that agree begin with one word. -/
structure SelfDelimiting {α β : Type*} (valid : α → Prop) (encode : α → List β) : Prop where
  ne_nil : ∀ a, valid a → encode a ≠ []
  front : ∀ a b x y, valid a → valid b → encode a ++ x = encode b ++ y → a = b

namespace SelfDelimiting

variable {α β : Type*} {valid : α → Prop} {encode : α → List β}

theorem of_reader (read : List β → Option α) (hnil : read [] = none)
    (hread : ∀ a x, valid a → read (encode a ++ x) = some a) : SelfDelimiting valid encode where
  ne_nil a ha hempty := by
    have hfound := hread a [] ha
    rw [hempty, List.append_nil, hnil] at hfound
    cases hfound
  front a b x y ha hb h := by
    have hfound := hread a x ha
    rw [h, hread b y hb] at hfound
    exact (Option.some.inj hfound).symm

theorem prefix_of_flatMap_prefix (h : SelfDelimiting valid encode) {xs ys : List α}
    (hx : ∀ a ∈ xs, valid a) (hy : ∀ a ∈ ys, valid a)
    (hp : xs.flatMap encode <+: ys.flatMap encode) : xs <+: ys := by
  induction xs generalizing ys with
  | nil => exact List.nil_prefix
  | cons a xs ih =>
    obtain ⟨ha, hxs⟩ := List.forall_mem_cons.mp hx
    cases ys with
    | nil =>
      have hempty : encode a ++ xs.flatMap encode = [] := List.prefix_nil.mp hp
      exact absurd (List.append_eq_nil_iff.mp hempty).1 (h.ne_nil a ha)
    | cons b ys =>
      obtain ⟨hb, hys⟩ := List.forall_mem_cons.mp hy
      obtain ⟨rest, hrest⟩ := hp
      rw [List.flatMap_cons, List.flatMap_cons, List.append_assoc] at hrest
      obtain rfl := h.front a b _ _ ha hb hrest
      have htail := List.append_cancel_left hrest
      exact List.cons_prefix_cons.mpr ⟨rfl, ih hxs hys ⟨rest, htail⟩⟩

theorem eq_of_flatMap_eq (h : SelfDelimiting valid encode) {xs ys : List α}
    (hx : ∀ a ∈ xs, valid a) (hy : ∀ a ∈ ys, valid a)
    (heq : xs.flatMap encode = ys.flatMap encode) : xs = ys := by
  have hle := h.prefix_of_flatMap_prefix hx hy (heq ▸ List.prefix_rfl)
  have hge := h.prefix_of_flatMap_prefix hy hx (heq ▸ List.prefix_rfl)
  exact hle.eq_of_length_le hge.length_le

end SelfDelimiting
