import Mathlib.Data.List.TakeWhile
import Mathlib.Data.String.Basic

/-! The key of an event's pool, and the pattern by which the cron sweep reads
the event's id back from a key. -/

namespace CrowdTic

def poolKey (eventId : String) : String := "waiting:pool:\x7b" ++ eventId ++ "\x7d"

/-- The characters that a dot of a pattern does not match. -/
def isLineEnd (c : Char) : Bool := c = '\n' ∨ c = '\r' ∨ c = '\u2028' ∨ c = '\u2029'

/-- What the group takes behind the opening brace: the line up to its last closing brace. -/
def poolGroup (cs : List Char) : Option (List Char) :=
  match (cs.takeWhile fun c => !isLineEnd c).reverse.dropWhile fun c => c ≠ '\x7d' with
  | _ :: c :: id => some (c :: id).reverse
  | _ => none

/-- The pattern `waiting:pool:\{(.+)\}` at the first place where it matches. -/
def matchPool : List Char → Option (List Char)
  | [] => none
  | c :: cs =>
    let start := "waiting:pool:\x7b".toList
    let here := if start <+: c :: cs then poolGroup ((c :: cs).drop start.length) else none
    here <|> matchPool cs

def eventIdOf (name : String) : Option String := (matchPool name.toList).map String.ofList

theorem poolGroup_line {id : List Char} (hne : id ≠ []) (hline : ∀ c ∈ id, isLineEnd c = false) :
    poolGroup (id ++ ['\x7d']) = some id := by
  have hall : ∀ c ∈ id ++ ['\x7d'], (!isLineEnd c) = true := by
    intro c hc
    rcases List.mem_append.mp hc with hc | hc
    · simp [hline c hc]
    · rw [List.mem_singleton.mp hc]
      rfl
  rw [poolGroup, List.takeWhile_eq_self_iff.mpr hall, List.reverse_append]
  have hdrop : (['\x7d'].reverse ++ id.reverse).dropWhile (fun c => c ≠ '\x7d') =
      '\x7d' :: id.reverse := by simp
  rw [hdrop]
  cases hr : id.reverse with
  | nil => exact absurd (List.reverse_eq_nil_iff.mp hr) hne
  | cons c l =>
    show some (c :: l).reverse = some id
    rw [← hr, List.reverse_reverse]

theorem matchPool_start {cs id : List Char} (h : poolGroup cs = some id) :
    matchPool ("waiting:pool:\x7b".toList ++ cs) = some id := by
  have hstart : "waiting:pool:\x7b".toList = 'w' :: "aiting:pool:\x7b".toList := by decide
  rw [hstart, List.cons_append, matchPool]
  have hhere : "waiting:pool:\x7b".toList <+: 'w' :: ("aiting:pool:\x7b".toList ++ cs) := by
    rw [hstart]
    exact ⟨cs, rfl⟩
  have hrest : ('w' :: ("aiting:pool:\x7b".toList ++ cs)).drop "waiting:pool:\x7b".toList.length =
      cs := by
    rw [← List.cons_append, ← hstart, List.drop_left]
  simp only [hhere, if_true, hrest, h]
  rfl

/-- An id without a line break is read back from its pool's key. -/
theorem eventIdOf_poolKey {eventId : String} (hne : eventId ≠ "")
    (hline : ∀ c ∈ eventId.toList, isLineEnd c = false) :
    eventIdOf (poolKey eventId) = some eventId := by
  have hnil : eventId.toList ≠ [] := fun he => hne (String.toList_eq_nil_iff.mp he)
  have hkey : (poolKey eventId).toList =
      "waiting:pool:\x7b".toList ++ (eventId.toList ++ ['\x7d']) := by
    have hbrace : "\x7d".toList = ['\x7d'] := rfl
    simp only [poolKey, String.toList_append, List.append_assoc, hbrace]
  rw [eventIdOf, hkey, matchPool_start (poolGroup_line hnil hline)]
  simp

end CrowdTic
