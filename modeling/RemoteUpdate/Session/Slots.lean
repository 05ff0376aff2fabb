import RemoteUpdate.Flash.Partition
import RemoteUpdate.Session.Tables

/-!
# Slots

A slot is a partition, known by its index in the partition table. Slots that are reserved or read-only
can be looked at but not changed. A slot whose offset is in the pointer block is enabled; the contents of
a slot are changed only after it has been disabled, so that it is not booted half written.
-/

namespace RemoteUpdate.Session

variable {ρ φ : Type}

/-- What is known about a slot. -/
structure SlotInfo where
  name : String
  offset : UInt64
  size : UInt32
  /-- One for the slot that is booted first, zero for a slot that is disabled. -/
  priority : Nat
deriving DecidableEq, Repr

/-- How an image is checked before it is programmed. -/
inductive ImageKind where
  | application
  | factoryUpdate
  /-- No check, and no slot to boot. -/
  | raw
deriving DecidableEq, Repr

/-- The loaded entry of a slot. -/
def slotEntry (slot : Nat) : SessionM ρ φ PartitionEntry := do
  require ((← get).table.entry slot)

/-- The loaded entry of a slot that may be changed. -/
def mutableEntry (slot : Nat) : SessionM ρ φ PartitionEntry := do
  let e ← slotEntry slot
  if e.isProtected then
    log (.slotProtected slot e.nameText)
    throw .invalidArgument
  return e

/-- Fails unless the image passes the checks of its kind. -/
def checkImage (c : Session ρ) (kind : ImageKind) (image : List UInt8) : SessionM ρ φ Unit := do
  let valid := match kind with
    | .application => c.verifier.accepts image
    | .factoryUpdate => c.verifier.acceptsFactory image
    | .raw => true
  unless valid do
    log .imageRejected
    throw .invalidArgument

variable [FlashDevice φ]

/-- The flash range of a slot. -/
def slotPartition (e : PartitionEntry) : SessionM ρ φ FlashPartition := do
  let capacity := FlashDevice.capacity (← get).flash
  require ((FlashPartition.ofEntry capacity e).mapError .flash)

/-! ### Comparing -/

/-- Bytes read back at a time. -/
def compareStep : Nat := 256

/-- The first position at which two lists differ, as far as both go. -/
def firstDifference : List UInt8 → List UInt8 → Option Nat
  | a :: as, b :: bs => if a = b then (firstDifference as bs).map (· + 1) else some 0
  | _, _ => none

/-- Reads a partition back from an offset on and compares it with what is expected there. -/
def compare (p : FlashPartition) (offset : Nat) (expected : List UInt8) : SessionM ρ φ Unit := do
  if expected.isEmpty then return ()
  else
    let wanted := expected.take compareStep
    let got ← onFlash (p.read offset wanted.length)
    match firstDifference got wanted with
    | some i =>
      log (.slotDiffers p.name (offset + i))
      throw (.verifyMismatch (offset + i))
    | none => compare p (offset + compareStep) (expected.drop compareStep)
termination_by expected.length
decreasing_by
  have : expected ≠ [] := by simpa using ‹¬expected.isEmpty = true›
  have := List.length_pos_iff.mpr this
  simp [compareStep]
  omega

/-! ### Looking at slots -/

def slotCount (c : Session ρ) : SessionM ρ φ Nat := do
  return (← c.loadTable).size

def slotByName (c : Session ρ) (name : String) : SessionM ρ φ Nat := do
  found ((← c.loadTable).findName? name)

/-- What is known about a slot. -/
def slotInfo (c : Session ρ) (slot : Nat) : SessionM ρ φ SlotInfo := do
  c.load
  let e ← slotEntry slot
  return {
    name := e.nameText
    offset := e.offset
    size := e.length
    priority := (← get).block.rank e.offset }

def slotSize (c : Session ρ) (slot : Nat) : SessionM ρ φ UInt32 := do
  discard c.loadTable
  return (← slotEntry slot).length

/-- The rank of a slot in the boot order, or 0. -/
def slotPriority (c : Session ρ) (slot : Nat) : SessionM ρ φ Nat := do
  c.load
  let e ← slotEntry slot
  return (← get).block.rank e.offset

/-! ### Changing the tables -/

/-- Adds a slot, and returns its index. -/
def createSlot (c : Session ρ) (name : String) (offset : UInt64) (size : UInt32) :
    SessionM ρ φ Nat := do
  let table ← c.loadTable
  let e ← require (PartitionEntry.make name offset size 0)
  if (table.findName? name).isSome then throw .alreadyExists
  if size = 0 then throw .invalidArgument
  if FlashDevice.capacity (← get).flash < (← require e.stop) then throw .invalidArgument
  match ← require (table.findOverlap offset size) with
  | some i =>
    log (.slotOverlaps name ((table.listed[i]?).getD .blank).nameText)
    throw .invalidArgument
  | none => pure ()
  let (slot, table) ← require (table.push e)
  modify fun s => { s with table }
  c.saveTable
  log (.slotCreated slot name offset size)
  return slot

/-- Takes a slot out of the pointer block, in flash too if that changes the block. -/
def disablePointer (c : Session ρ) (slot : Nat) (e : PartitionEntry) : SessionM ρ φ Unit := do
  let (changed, block) := (← get).block.disable e.offset
  if changed then
    modify fun s => { s with block }
    c.saveBlock
    log (.slotDisabled slot e.nameText)

/-- Puts a slot on top of the pointer block, in flash too if that changes the block. -/
def enablePointer (c : Session ρ) (slot : Nat) (e : PartitionEntry) : SessionM ρ φ Unit := do
  let (placed, block) := (← get).block.enable e.offset
  modify fun s => { s with block }
  match placed with
  | .error failure =>
    if failure = .full then log (.blockFull e.offset)
    throw failure.toUpdateError
  | .ok false => pure ()
  | .ok true =>
    c.saveBlock
    log (.slotEnabled slot e.nameText)

/-- Removes a slot, from the pointer block first. Later slots move down by one. -/
def deleteSlot (c : Session ρ) (slot : Nat) : SessionM ρ φ Unit := do
  c.load
  let e ← mutableEntry slot
  c.disablePointer slot e
  let (_, table) ← require ((← get).table.remove slot)
  modify fun s => { s with table }
  c.saveTable
  log (.slotDeleted slot e.nameText)

def renameSlot (c : Session ρ) (slot : Nat) (name : String) : SessionM ρ φ Unit := do
  let table ← c.loadTable
  let e ← mutableEntry slot
  match table.findName? name with
  | some other => if other ≠ slot then throw .alreadyExists
  | none => pure ()
  let table ← require (table.modifyEntry slot (·.rename name))
  modify fun s => { s with table }
  c.saveTable
  log (.slotRenamed slot e.nameText name)

/-- Makes a slot the first to boot. -/
def enableSlot (c : Session ρ) (slot : Nat) : SessionM ρ φ Unit := do
  c.load
  c.enablePointer slot (← mutableEntry slot)

/-- Keeps a slot from being booted. Its entry and its contents stay. -/
def disableSlot (c : Session ρ) (slot : Nat) : SessionM ρ φ Unit := do
  c.load
  c.disablePointer slot (← mutableEntry slot)

/-! ### Changing contents -/

/-- Disables a slot and erases all of it. -/
def eraseSlot (c : Session ρ) (slot : Nat) : SessionM ρ φ Unit := do
  c.load
  let e ← mutableEntry slot
  c.disablePointer slot e
  let p ← slotPartition e
  onFlash (p.erase 0 p.length)
  log (.slotErased slot e.nameText)

/-- Puts an image into a slot that has been disabled, and reads it back. Unless it is raw, the slot
becomes the first to boot. -/
def programSlot (c : Session ρ) (kind : ImageKind) (slot : Nat) (image : List UInt8) :
    SessionM ρ φ Unit := do
  c.load
  let e ← mutableEntry slot
  if image.isEmpty ∨ e.length.toNat < image.length then throw .invalidArgument
  c.checkImage kind image
  c.disablePointer slot e
  let p ← slotPartition e
  onFlash (p.erase 0 p.length)
  onFlash (p.write 0 image)
  compare p 0 image
  log (.slotProgrammed slot e.nameText image.length)
  unless kind = .raw do
    c.enablePointer slot e

/-- Compares a slot with an image. -/
def verifySlot (c : Session ρ) (kind : ImageKind) (slot : Nat) (image : List UInt8) :
    SessionM ρ φ Unit := do
  discard c.loadTable
  let e ← slotEntry slot
  if e.length.toNat < image.length then throw .invalidArgument
  c.checkImage kind image
  compare (← slotPartition e) 0 image

/-! ### Booting -/

variable [RegisterBlock ρ]

/-- Asks for a slot to be booted on the next reset. -/
def loadSlot (c : Session ρ) (slot : Nat) : SessionM ρ φ Unit := do
  discard c.loadTable
  let e ← mutableEntry slot
  log (.slotLoading slot e.nameText)
  onMailbox (c.mailbox.requestUpdate e.offset)

/-- Asks for the factory image to be booted on the next reset. -/
def loadFactory (c : Session ρ) : SessionM ρ φ Unit := do
  discard c.loadTable
  let offset ← found (← partitionOffset? c.layout.factoryName)
  log .factoryLoading
  onMailbox (c.mailbox.requestUpdate offset)

end RemoteUpdate.Session
