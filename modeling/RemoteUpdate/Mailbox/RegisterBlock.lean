import RemoteUpdate.Event

/-!
# Register blocks

The driver sees the device manager as a `RegisterBlock`: 32-bit registers addressed by byte offset, and
a clock that moves while the driver waits. Any state machine can stand behind the registers. Here are
three that do not depend on what the mailbox is for: plain memory (`MemoryWindow`), a block that answers
from a script (`ScriptedBlock`), and one that records every access to another (`Recorder`).
-/

namespace RemoteUpdate

/-- Programs on a register block. -/
abbrev RegisterM (ρ : Type) := StateT ρ LogM

/-- A block of 32-bit registers. Even a read may change the state behind it. -/
class RegisterBlock (ρ : Type) where
  /-- Reads the register at a byte offset. -/
  read : UInt32 → RegisterM ρ UInt32
  /-- Writes the register at a byte offset. -/
  write : (offset value : UInt32) → RegisterM ρ Unit
  /-- Lets some microseconds pass. -/
  delay : Nat → RegisterM ρ Unit

/-- Values by register offset; offsets that are not listed hold zero. -/
abbrev RegisterFile := List (UInt32 × UInt32)

namespace RegisterFile

def get (f : RegisterFile) (offset : UInt32) : UInt32 :=
  (f.lookup offset).getD 0

def set (f : RegisterFile) (offset value : UInt32) : RegisterFile :=
  (offset, value) :: f.filter (·.1 != offset)

@[simp] theorem get_set_self (f : RegisterFile) (offset value : UInt32) :
    (f.set offset value).get offset = value := by
  simp [set, get]

theorem get_set_of_ne (f : RegisterFile) {offset other : UInt32} (value : UInt32)
    (h : other ≠ offset) : (f.set offset value).get other = f.get other := by
  have lookup_filter : ∀ g : RegisterFile,
      (g.filter (·.1 != offset)).lookup other = g.lookup other := by
    intro g
    induction g with
    | nil => rfl
    | cons p g ih =>
      obtain ⟨key, v⟩ := p
      by_cases hk : key = offset
      · simp [hk, ih, List.lookup_cons, beq_false_of_ne h]
      · simp [hk, ih, List.lookup_cons]
  simp [set, get, List.lookup_cons, beq_false_of_ne h, lookup_filter]

end RegisterFile

/-! ### Memory -/

/-- A window of memory with a record of the delays asked for. -/
structure MemoryWindow where
  cells : RegisterFile := []
  /-- The delays in microseconds, latest first. -/
  delays : List Nat := []

instance : RegisterBlock MemoryWindow where
  read offset := return (← get).cells.get offset
  write offset value := modify fun w => { w with cells := w.cells.set offset value }
  delay micros := modify fun w => { w with delays := micros :: w.delays }

/-! ### A scripted peer -/

/-- A register block that answers from a script. Values queued for an offset are loaded into its
register one by one as it is read; writes and delays store further values. -/
structure ScriptedBlock where
  registers : RegisterFile := []
  /-- Values that successive reads of an offset load first. -/
  queues : List (UInt32 × List UInt32) := []
  /-- With `(key, offset, value)`, a write to `key` stores `value` at `offset`. -/
  onWrite : List (UInt32 × UInt32 × UInt32) := []
  /-- With `(n, offset, value)`, delay number `n` stores `value` at `offset`. -/
  onDelay : List (Nat × UInt32 × UInt32) := []
  /-- How many delays there have been. -/
  delays : Nat := 0

namespace ScriptedBlock

/-- The next value queued for an offset, and the queues without it. -/
def dequeue (offset : UInt32) :
    List (UInt32 × List UInt32) → Option (UInt32 × List (UInt32 × List UInt32))
  | [] => none
  | (key, values) :: rest =>
    match values with
    | v :: later =>
      if key == offset then some (v, (key, later) :: rest)
      else (dequeue offset rest).map fun r => (r.1, (key, values) :: r.2)
    | [] => (dequeue offset rest).map fun r => (r.1, (key, values) :: r.2)

/-- Stores values in order. -/
def store (b : ScriptedBlock) (values : List (UInt32 × UInt32)) : ScriptedBlock :=
  { b with registers := values.foldl (fun f p => f.set p.1 p.2) b.registers }

end ScriptedBlock

instance : RegisterBlock ScriptedBlock where
  read offset := do
    let b ← get
    match ScriptedBlock.dequeue offset b.queues with
    | some (v, queues) => set ({ b with queues }.store [(offset, v)]); return v
    | none => return b.registers.get offset
  write offset value := modify fun b =>
    b.store ((offset, value) :: (b.onWrite.filter (·.1 == offset)).map (·.2))
  delay _ := modify fun b =>
    let b := { b with delays := b.delays + 1 }
    b.store ((b.onDelay.filter (·.1 == b.delays)).map (·.2))

/-! ### One of two blocks -/

/-- Runs the program that fits the block that is there. -/
def onEither {ρ σ α : Type} (x : RegisterM ρ α) (y : RegisterM σ α) : RegisterM (ρ ⊕ σ) α
  | .inl r => do
    let (a, r) ← x r
    return (a, .inl r)
  | .inr s => do
    let (a, s) ← y s
    return (a, .inr s)

instance {ρ σ : Type} [RegisterBlock ρ] [RegisterBlock σ] : RegisterBlock (ρ ⊕ σ) where
  read offset := onEither (RegisterBlock.read offset) (RegisterBlock.read offset)
  write offset value := onEither (RegisterBlock.write offset value) (RegisterBlock.write offset value)
  delay micros := onEither (RegisterBlock.delay micros) (RegisterBlock.delay micros)

/-! ### Recording -/

/-- One access to a register block. -/
inductive Access where
  | read (offset value : UInt32)
  | write (offset value : UInt32)
  | delay (micros : Nat)
deriving DecidableEq, Repr

/-- A register block together with a record of every access to it. -/
structure Recorder (ρ : Type) where
  block : ρ
  /-- The accesses, oldest first. -/
  accesses : Array Access := #[]

namespace Recorder

variable {ρ : Type}

/-- Runs a program on the block itself, which leaves no record. -/
def onBlock {α : Type} (x : RegisterM ρ α) : RegisterM (Recorder ρ) α :=
  focus block (fun b r => { r with block := b }) x

/-- Adds an access to the record. -/
def note (a : Access) : RegisterM (Recorder ρ) Unit :=
  modify fun r => { r with accesses := r.accesses.push a }

/-- The offsets and values written, oldest first. -/
def writes (r : Recorder ρ) : List (UInt32 × UInt32) :=
  r.accesses.toList.filterMap fun
    | .write offset value => some (offset, value)
    | _ => none

/-- The delays asked for in microseconds, oldest first. -/
def delays (r : Recorder ρ) : List Nat :=
  r.accesses.toList.filterMap fun
    | .delay micros => some micros
    | _ => none

end Recorder

instance {ρ : Type} [RegisterBlock ρ] : RegisterBlock (Recorder ρ) where
  read offset := do
    let value ← Recorder.onBlock (RegisterBlock.read offset)
    Recorder.note (.read offset value)
    return value
  write offset value := do
    Recorder.note (.write offset value)
    Recorder.onBlock (RegisterBlock.write offset value)
  delay micros := do
    Recorder.note (.delay micros)
    Recorder.onBlock (RegisterBlock.delay micros)

end RemoteUpdate
