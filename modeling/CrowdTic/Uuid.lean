import CrowdTic.Keys

/-! What the service relies on of the UUID package. `Parse` returns a value
beside its error, and the handlers often drop the error and keep the value. -/

namespace CrowdTic

structure UuidLib (U : Type) where
  /-- The returned value, and whether the error is nil. -/
  parse : String → U × Bool
  str : U → String
  zero : U
  parse_str : ∀ u, parse (str u) = (u, true)
  str_plain : ∀ u, PlainId (str u)

namespace UuidLib

variable {U : Type} (L : UuidLib U)

/-- `u, _ := uuid.Parse(s)` -/
def value (s : String) : U := (L.parse s).1

def parsed (ss : List String) : List U :=
  ss.filterMap fun s => if (L.parse s).2 then some (L.value s) else none

/-- The string is the one that `String()` prints for its own UUID. -/
def Canonical (s : String) : Prop := L.str (L.value s) = s

instance (s : String) : Decidable (L.Canonical s) := inferInstanceAs (Decidable (_ = _))

@[simp] theorem value_str (u : U) : L.value (L.str u) = u := by
  simp [value, L.parse_str]

@[simp] theorem str_inj {u v : U} : L.str u = L.str v ↔ u = v :=
  ⟨fun h => by simpa using congrArg L.value h, congrArg L.str⟩

theorem canonical_str (u : U) : L.Canonical (L.str u) := by
  simp [Canonical]

theorem Canonical.parses {L : UuidLib U} {s : String} (h : L.Canonical s) : (L.parse s).2 = true := by
  rw [← h, L.parse_str]

theorem Canonical.plain {L : UuidLib U} {s : String} (h : L.Canonical s) : PlainId s :=
  h ▸ L.str_plain _

theorem map_str_parsed {ss : List String} (h : ∀ s ∈ ss, L.Canonical s) :
    (L.parsed ss).map L.str = ss := by
  induction ss with
  | nil => rfl
  | cons s ss ih =>
    have hs : L.Canonical s := h s List.mem_cons_self
    have hss := ih fun t ht => h t (List.mem_cons_of_mem s ht)
    rw [parsed] at hss ⊢
    rw [List.filterMap_cons_some (by simp [hs.parses]; rfl), List.map_cons, hss, hs]

theorem length_parsed {ss : List String} (h : ∀ s ∈ ss, L.Canonical s) :
    (L.parsed ss).length = ss.length := by
  simpa using congrArg List.length (L.map_str_parsed h)

end UuidLib

end CrowdTic
