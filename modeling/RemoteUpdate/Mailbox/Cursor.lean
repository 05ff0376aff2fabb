/-!
# Ring cursors

A ring of words is described by two cursors: the producer's, one past the last word published, and the
consumer's, at the first word not yet taken. One slot always stays unused, so that a full ring differs
from an empty one: with the cursors apart by `pending` words there is room for `free` more, and
`pending + free = usable`.
-/

namespace RemoteUpdate

/-- A ring of `capacity` slots. A ring without slots has no cursors. -/
structure Ring where
  capacity : Nat
deriving DecidableEq, Repr

namespace Ring

/-- How many words may be outstanding at once. -/
def usable (r : Ring) : Nat :=
  r.capacity - 1

/-- The slot a cursor value stands for. -/
def wrap (r : Ring) (cursor : Nat) : Nat :=
  cursor % r.capacity

def next (r : Ring) (cursor : Nat) : Nat :=
  r.wrap (cursor + 1)

/-- A producer at `cursor` would run into the consumer at `other`. -/
def isFull (r : Ring) (cursor other : Nat) : Bool :=
  r.next cursor == r.wrap other

/-- The consumer at `other` is parked one slot behind the producer at `cursor`. -/
def isEmpty (r : Ring) (cursor other : Nat) : Bool :=
  r.next other == r.wrap cursor

/-- Words published and not yet taken. -/
def pending (r : Ring) (producer consumer : Nat) : Nat :=
  r.wrap (producer + r.capacity - r.wrap consumer)

/-- Words that may still be published. -/
def free (r : Ring) (producer consumer : Nat) : Nat :=
  r.usable - r.pending producer consumer

/-- A value computed with cursors, which only a ring with slots has. -/
def whenSlotted {α : Type} (r : Ring) (a : α) : Option α :=
  if r.capacity = 0 then none else some a

/-! ### Cursors of a ring with slots -/

variable {r : Ring}

theorem wrap_lt (h : 0 < r.capacity) (c : Nat) : r.wrap c < r.capacity :=
  Nat.mod_lt _ h

theorem next_lt (h : 0 < r.capacity) (c : Nat) : r.next c < r.capacity :=
  wrap_lt h _

theorem wrap_of_lt {c : Nat} (h : c < r.capacity) : r.wrap c = c :=
  Nat.mod_eq_of_lt h

theorem pending_le_usable (h : 0 < r.capacity) (p c : Nat) : r.pending p c ≤ r.usable :=
  Nat.le_sub_one_of_lt (wrap_lt h _)

theorem free_add_pending (h : 0 < r.capacity) (p c : Nat) :
    r.free p c + r.pending p c = r.usable :=
  Nat.sub_add_cancel (pending_le_usable h p c)

theorem pending_self {c : Nat} (h : c < r.capacity) : r.pending c c = 0 := by
  rw [pending, wrap_of_lt h, Nat.add_sub_cancel_left, wrap, Nat.mod_self]

end Ring

end RemoteUpdate
