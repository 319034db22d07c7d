import CrowdTic.ExpiringMap
import Mathlib.Data.PNat.Basic
import Mathlib.Tactic.Simps.Basic

/-! The Redis data the booking scripts work on: hashes, integer counters and
plain strings under string keys, each with its own time to live. -/

namespace CrowdTic

inductive TextField
  | status | heldBy | holdId | userId | seats | soldBy | eventId | categoryId | seatNumber | onSaleAt
  deriving DecidableEq

inductive NumField
  | available | held | sold | quota | price | expiresAt | soldAt | version
  deriving DecidableEq

/-- A hash value. Fields that the scripts read with `tonumber` or change with
`HINCRBY` are kept as integers. -/
@[ext] structure Hash where
  text : TextField → Option String
  num : NumField → Option Int

namespace Hash

def empty : Hash := ⟨fun _ => none, fun _ => none⟩

def setText (h : Hash) (f : TextField) (v : Option String) : Hash :=
  { h with text := fun g => if g = f then v else h.text g }

def setNum (h : Hash) (f : NumField) (v : Option Int) : Hash :=
  { h with num := fun g => if g = f then v else h.num g }

end Hash

abbrev Hashes := ExpMap String Hash

namespace Hashes

def hget (m : Hashes) (k : String) (f : TextField) : Option String := (m.get k).bind (·.text f)

def hgetNum (m : Hashes) (k : String) (f : NumField) : Option Int := (m.get k).bind (·.num f)

def hset (m : Hashes) (k : String) (f : TextField) (v : String) : Hashes :=
  m.alter k fun h => (h.getD .empty).setText f (some v)

def hsetNum (m : Hashes) (k : String) (f : NumField) (v : Int) : Hashes :=
  m.alter k fun h => (h.getD .empty).setNum f (some v)

def hdel (m : Hashes) (k : String) (f : TextField) : Hashes := m.modify k (·.setText f none)

def hdelNum (m : Hashes) (k : String) (f : NumField) : Hashes := m.modify k (·.setNum f none)

/-- A missing field counts as 0, a missing hash is created, and the sum fits into 64 bits. -/
def hincrby (m : Hashes) (k : String) (f : NumField) (d : Int) : Hashes :=
  m.hsetNum k f ((m.hgetNum k f).getD 0 + d)

variable (m : Hashes) (k j : String) (f g : TextField) (p q : NumField) (v : String) (n : Int)

@[simp] theorem hget_hset :
    (m.hset k f v).hget j g = if j = k ∧ g = f then some v else m.hget j g := by
  by_cases hj : j = k
  · subst hj
    cases hm : m.get j <;> by_cases hg : g = f <;>
      simp [hset, hget, Hash.setText, Hash.empty, hm, hg]
  · simp [hset, hget, hj]

@[simp] theorem hgetNum_hset : (m.hset k f v).hgetNum j q = m.hgetNum j q := by
  by_cases hj : j = k
  · subst hj
    cases hm : m.get j <;> simp [hset, hgetNum, Hash.setText, Hash.empty, hm]
  · simp [hset, hgetNum, hj]

@[simp] theorem hget_hsetNum : (m.hsetNum k p n).hget j g = m.hget j g := by
  by_cases hj : j = k
  · subst hj
    cases hm : m.get j <;> simp [hsetNum, hget, Hash.setNum, Hash.empty, hm]
  · simp [hsetNum, hget, hj]

@[simp] theorem hgetNum_hsetNum :
    (m.hsetNum k p n).hgetNum j q = if j = k ∧ q = p then some n else m.hgetNum j q := by
  by_cases hj : j = k
  · subst hj
    cases hm : m.get j <;> by_cases hq : q = p <;>
      simp [hsetNum, hgetNum, Hash.setNum, Hash.empty, hm, hq]
  · simp [hsetNum, hgetNum, hj]

@[simp] theorem hget_hdel :
    (m.hdel k f).hget j g = if j = k ∧ g = f then none else m.hget j g := by
  by_cases hj : j = k
  · subst hj
    cases hm : m.get j <;> by_cases hg : g = f <;> simp [hdel, hget, Hash.setText, hm, hg]
  · simp [hdel, hget, hj]

@[simp] theorem hgetNum_hdel : (m.hdel k f).hgetNum j q = m.hgetNum j q := by
  by_cases hj : j = k
  · subst hj
    cases hm : m.get j <;> simp [hdel, hgetNum, Hash.setText, hm]
  · simp [hdel, hgetNum, hj]

@[simp] theorem hget_hdelNum : (m.hdelNum k p).hget j g = m.hget j g := by
  by_cases hj : j = k
  · subst hj
    cases hm : m.get j <;> simp [hdelNum, hget, Hash.setNum, hm]
  · simp [hdelNum, hget, hj]

@[simp] theorem hgetNum_hdelNum :
    (m.hdelNum k p).hgetNum j q = if j = k ∧ q = p then none else m.hgetNum j q := by
  by_cases hj : j = k
  · subst hj
    cases hm : m.get j <;> by_cases hq : q = p <;> simp [hdelNum, hgetNum, Hash.setNum, hm, hq]
  · simp [hdelNum, hgetNum, hj]

@[simp] theorem hget_hincrby : (m.hincrby k p n).hget j g = m.hget j g := by
  simp [hincrby]

@[simp] theorem hgetNum_hincrby :
    (m.hincrby k p n).hgetNum j q =
      if j = k ∧ q = p then some ((m.hgetNum k p).getD 0 + n) else m.hgetNum j q := by
  simp [hincrby]

@[simp] theorem hget_setDeadline (d : Option Nat) :
    hget (m.setDeadline k d) j g = m.hget j g := by
  simp [hget]

@[simp] theorem hgetNum_setDeadline (d : Option Nat) :
    hgetNum (m.setDeadline k d) j q = m.hgetNum j q := by
  simp [hgetNum]

@[simp] theorem hget_erase : hget (m.erase k) j g = if j = k then none else m.hget j g := by
  by_cases hj : j = k <;> simp [hget, hj]

@[simp] theorem hgetNum_erase : hgetNum (m.erase k) j q = if j = k then none else m.hgetNum j q := by
  by_cases hj : j = k <;> simp [hgetNum, hj]

@[simp] theorem hget_sweep (now : Nat) :
    hget (m.sweep now) j g = if m.lapsed now j then none else m.hget j g := by
  by_cases hj : m.lapsed now j = true <;> simp [hget, hj]

@[simp] theorem hgetNum_sweep (now : Nat) :
    hgetNum (m.sweep now) j q = if m.lapsed now j then none else m.hgetNum j q := by
  by_cases hj : m.lapsed now j = true <;> simp [hgetNum, hj]

@[simp] theorem ttl_hset : (m.hset k f v).ttl j = m.ttl j := by simp [hset]

@[simp] theorem ttl_hsetNum : (m.hsetNum k p n).ttl j = m.ttl j := by simp [hsetNum]

@[simp] theorem ttl_hdel : (m.hdel k f).ttl j = m.ttl j := by simp [hdel]

@[simp] theorem ttl_hdelNum : (m.hdelNum k p).ttl j = m.ttl j := by simp [hdelNum]

@[simp] theorem ttl_hincrby : (m.hincrby k p n).ttl j = m.ttl j := by simp [hincrby]

end Hashes

structure Redis where
  hashes : Hashes
  counters : ExpMap String Int
  strings : ExpMap String String
  now : Nat

/-- What a seat hash says about who has the seat. All fields are `none` when
the hash is gone. -/
@[ext] structure Seat where
  status : Option String
  heldBy : Option String
  holdId : Option String
  deriving DecidableEq

namespace Seat

def gone : Seat := ⟨none, none, none⟩
def available : Seat := ⟨some "AVAILABLE", none, none⟩
def held (user hold : String) : Seat := ⟨some "HELD", some user, some hold⟩
def sold (user hold : String) : Seat := ⟨some "SOLD", some user, some hold⟩

end Seat

namespace Redis

@[simps] def hset (r : Redis) (k : String) (f : TextField) (v : String) : Redis :=
  { r with hashes := r.hashes.hset k f v }

@[simps] def hsetNum (r : Redis) (k : String) (f : NumField) (v : Int) : Redis :=
  { r with hashes := r.hashes.hsetNum k f v }

@[simps] def hdel (r : Redis) (k : String) (f : TextField) : Redis :=
  { r with hashes := r.hashes.hdel k f }

@[simps] def hdelNum (r : Redis) (k : String) (f : NumField) : Redis :=
  { r with hashes := r.hashes.hdelNum k f }

@[simps] def hincrby (r : Redis) (k : String) (f : NumField) (d : Int) : Redis :=
  { r with hashes := r.hashes.hincrby k f d }

/-- `PEXPIRE` on a hash, with a deadline that fits into 64 bits. A timeout that is not positive would
delete the key at once. -/
@[simps] def pexpire (r : Redis) (k : String) (ms : ℕ+) : Redis :=
  { r with hashes := r.hashes.setDeadline k (some (r.now + ms)) }

@[simps] def persist (r : Redis) (k : String) : Redis :=
  { r with hashes := r.hashes.setDeadline k none }

@[simps] def del (r : Redis) (k : String) : Redis := { r with hashes := r.hashes.erase k }

@[simps] def incrby (r : Redis) (k : String) (d : Int) : Redis :=
  { r with counters := r.counters.alter k fun n => n.getD 0 + d }

@[simps] def expireCounter (r : Redis) (k : String) (sec : ℕ+) : Redis :=
  { r with counters := r.counters.setDeadline k (some (r.now + sec * 1000)) }

@[simps] def setEx (r : Redis) (k v : String) (sec : ℕ+) : Redis :=
  { r with strings := r.strings.put k v (some (r.now + sec * 1000)) }

/-- Time passes, and the keys whose time to live has run out disappear. -/
@[simps] def advance (r : Redis) (ms : Nat) : Redis where
  hashes := r.hashes.sweep (r.now + ms)
  counters := r.counters.sweep (r.now + ms)
  strings := r.strings.sweep (r.now + ms)
  now := r.now + ms

def seat (r : Redis) (k : String) : Seat :=
  ⟨r.hashes.hget k .status, r.hashes.hget k .heldBy, r.hashes.hget k .holdId⟩

end Redis

end CrowdTic
