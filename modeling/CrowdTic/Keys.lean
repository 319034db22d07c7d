import Mathlib.Data.List.Basic

/-! The Redis keys of the booking service. Each family has its own prefix, and
an event id stands between braces so that one event maps to one slot. -/

namespace CrowdTic

def inventoryKey (event category : String) : String :=
  "inventory:\x7b" ++ event ++ "\x7d:" ++ category

def seatKey (event seat : String) : String := "seat:\x7b" ++ event ++ "\x7d:" ++ seat

def limitKey (event user : String) : String := "user:limit:\x7b" ++ event ++ "\x7d:" ++ user

def holdKey (event hold : String) : String := "hold:\x7b" ++ event ++ "\x7d:" ++ hold

def orderHoldKey (event hold : String) : String :=
  "order:hold:\x7b" ++ event ++ "\x7d:" ++ hold

def orderKey (event order : String) : String := "order:\x7b" ++ event ++ "\x7d:" ++ order

def metaKey (event : String) : String := "meta:\x7b" ++ event ++ "\x7d"

theorem seatKey_ne_holdKey (e s e' h : String) : seatKey e s ≠ holdKey e' h := by
  intro hh
  simpa [seatKey, holdKey] using congrArg String.toList hh

theorem seatKey_ne_inventoryKey (e s e' c : String) : seatKey e s ≠ inventoryKey e' c := by
  intro hh
  simpa [seatKey, inventoryKey] using congrArg String.toList hh

theorem inventoryKey_ne_holdKey (e c e' h : String) : inventoryKey e c ≠ holdKey e' h := by
  intro hh
  simpa [inventoryKey, holdKey] using congrArg String.toList hh

theorem seatKey_ne_metaKey (e s e' : String) : seatKey e s ≠ metaKey e' := by
  intro hh
  simpa [seatKey, metaKey] using congrArg String.toList hh

theorem inventoryKey_ne_metaKey (e c e' : String) : inventoryKey e c ≠ metaKey e' := by
  intro hh
  simpa [inventoryKey, metaKey] using congrArg String.toList hh

theorem orderHoldKey_ne_orderKey (e h e' o : String) : orderHoldKey e h ≠ orderKey e' o := by
  intro hh
  simpa [orderHoldKey, orderKey] using congrArg String.toList hh

@[simp] theorem seatKey_inj (e s s' : String) : seatKey e s = seatKey e s' ↔ s = s' := by
  simp [seatKey]

/-- An id without a closing brace, so that it ends where its key says it ends. -/
def PlainId (s : String) : Prop := '}' ∉ s.toList

instance (s : String) : Decidable (PlainId s) := inferInstanceAs (Decidable (_ ∉ _))

theorem braced_inj {e s e' s' : String} (he : PlainId e) (hs : PlainId s)
    (h : e' ++ "\x7d:" ++ s' = e ++ "\x7d:" ++ s) : e' = e ∧ s' = s := by
  have hl : e'.toList ++ '}' :: (':' :: s'.toList) = e.toList ++ '}' :: (':' :: s.toList) := by
    simpa using congrArg String.toList h
  have hs' : '}' ∉ ':' :: s.toList := by simpa [PlainId] using hs
  have hh := (List.append_cons_inj_of_notMem he hs').mp hl.symm
  exact ⟨String.toList_inj.mp hh.1.symm, String.toList_inj.mp (List.cons.inj hh.2.2).2.symm⟩

theorem braced_inj_of_plain {e s e' s' : String} (hs : PlainId s) (hs' : PlainId s')
    (h : e' ++ "\x7d:" ++ s' = e ++ "\x7d:" ++ s) : e' = e ∧ s' = s := by
  have htail {x y : String} (hx : PlainId x) : (y ++ "\x7d:" ++ x).toList.reverse.takeWhile (!· = '}') =
      x.toList.reverse ++ [':'] := by
    have hp : ∀ c ∈ x.toList.reverse, (!decide (c = '}')) = true := by
      intro c hc
      have hne : c ≠ '}' := by rintro rfl; exact hx (List.mem_reverse.mp hc)
      simpa using hne
    simp [List.takeWhile_append_of_pos hp]
  have hl := (htail (y := e') hs').symm.trans ((congrArg _ (by rw [h])).trans (htail (y := e) hs))
  obtain rfl : s' = s := String.toList_inj.mp (List.reverse_injective (List.append_cancel_right hl))
  exact ⟨by simpa [String.append_assoc] using h, rfl⟩

theorem seatKey_braced_inj {e s e' s' : String} (he : PlainId e) (hs : PlainId s)
    (h : seatKey e' s' = seatKey e s) : e' = e ∧ s' = s :=
  braced_inj he hs (by simpa [seatKey, String.append_assoc] using h)

theorem limitKey_braced_inj {e u e' u' : String} (he : PlainId e) (hu : PlainId u)
    (h : limitKey e' u' = limitKey e u) : e' = e ∧ u' = u :=
  braced_inj he hu (by simpa [limitKey, String.append_assoc] using h)

theorem orderHoldKey_inj_of_plain {e h e' h' : String} (hh : PlainId h) (hh' : PlainId h')
    (hk : orderHoldKey e' h' = orderHoldKey e h) : e' = e ∧ h' = h :=
  braced_inj_of_plain hh hh' (by simpa [orderHoldKey, String.append_assoc] using hk)

end CrowdTic
