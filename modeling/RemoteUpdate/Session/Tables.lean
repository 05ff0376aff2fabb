import RemoteUpdate.Session.State

/-!
# Loading and saving the tables

The first copy of the partition table is the one that counts; the second is written before it, so that a
good copy is in flash at any time. The partition table tells where the pointer block is, and where its
second copy goes, if there is one.
-/

namespace RemoteUpdate.Session

variable {ρ φ : Type}

/-- The table, if it verifies; what is wrong with it is logged otherwise. -/
def verifiedTable (t : PartitionTable) : SessionM ρ φ PartitionTable :=
  match t.defect? with
  | none => return t
  | some defect => do
    log defect
    throw .corruptMetadata

/-- The block, if it verifies; what is wrong with it is logged otherwise. -/
def verifiedBlock (b : PointerBlock) : SessionM ρ φ PointerBlock :=
  match b.defect? with
  | none => return b
  | some defect => do
    log defect
    throw .corruptMetadata

/-- Runs a program, and logs an event if it fails. -/
def logFailure {α : Type} (e : SessionEvent) (x : SessionM ρ φ α) : SessionM ρ φ α :=
  tryCatch x fun failure => do
    log e
    throw failure

/-- The flash offset of the loaded partition of that name. -/
def partitionOffset? (name : String) : SessionM ρ φ (Option UInt64) := do
  let t := (← get).table
  return (t.listed.find? (·.isNamed name)).map (·.offset)

/-- The flash offset of the pointer block, by the loaded partition table. -/
def blockOffset (c : Session ρ) : SessionM ρ φ UInt64 := do
  match ← partitionOffset? c.layout.blockName with
  | some offset => return offset
  | none =>
    log (.blockNotListed c.layout.blockName)
    throw .notFound

variable [FlashDevice φ]

/-! ### Loading -/

/-- Loads the partition table. -/
def loadTable (c : Session ρ) : SessionM ρ φ PartitionTable := do
  let offset := c.tableOffsets.1
  let table ← logFailure (.tableCorrupt offset) do
    let bytes ← onFlash <| FlashDevice.read offset.toNat tableSize
    verifiedTable (← require (PartitionTable.decode bytes))
  modify fun s => { s with table }
  return table

/-- Loads the pointer block that the loaded partition table lists. -/
def loadBlock (c : Session ρ) : SessionM ρ φ PointerBlock := do
  let offset ← c.blockOffset
  let bytes ← onFlash <| FlashDevice.read offset.toNat tableSize
  let read ← require (PointerBlock.decode bytes)
  let block ← logFailure (.blockCorrupt offset) (verifiedBlock read)
  modify fun s => { s with block }
  return block

def load (c : Session ρ) : SessionM ρ φ Unit := do
  discard c.loadTable
  discard c.loadBlock

/-! ### Saving -/

/-- Erases the space of a table and writes the table. -/
def replace (offset : UInt64) (space : Nat) (bytes : List UInt8) : SessionM ρ φ Unit := do
  onFlash <| FlashDevice.erase offset.toNat space
  onFlash <| FlashDevice.write offset.toNat bytes

/-- Writes the scratch partition table to its second place and then to its first. -/
def saveTable (c : Session ρ) : SessionM ρ φ Unit := do
  let table := (← get).table
  replace c.tableOffsets.2 c.layout.tableSpace table.encode
  replace c.tableOffsets.1 c.layout.tableSpace table.encode
  log (.tableSaved table.size)

/-- Writes the scratch pointer block to its place, and to its second place if there is one. -/
def saveBlock (c : Session ρ) : SessionM ρ φ Unit := do
  let offset ← c.blockOffset
  let block := (← get).block
  replace offset c.layout.blockSpace block.encode
  match ← partitionOffset? c.layout.backupName with
  | some backup => replace backup c.layout.blockSpace block.encode
  | none => pure ()
  log (.blockSaved offset)

/-! ### Copies outside the device -/

/-- Fails unless the bytes fit into so much room. -/
def fitting (room : Nat) (bytes : List UInt8) : SessionM ρ φ (List UInt8) :=
  if bytes.length ≤ room then return bytes else throw .invalidArgument

/-- The bytes of the partition table in flash, for a caller with so much room. -/
def exportTable (c : Session ρ) (room : Nat) : SessionM ρ φ (List UInt8) := do
  fitting room (← c.loadTable).encode

/-- Replaces both copies of the partition table. -/
def restoreTable (c : Session ρ) (bytes : List UInt8) : SessionM ρ φ Unit := do
  let table ← verifiedTable (← require (PartitionTable.decode bytes))
  modify fun s => { s with table }
  log .restoringTable
  c.saveTable

/-- The bytes of the pointer block in flash, for a caller with so much room. -/
def exportBlock (c : Session ρ) (room : Nat) : SessionM ρ φ (List UInt8) := do
  discard c.loadTable
  fitting room (← c.loadBlock).encode

/-- Replaces the copies of the pointer block that the partition table in flash lists. -/
def restoreBlock (c : Session ρ) (bytes : List UInt8) : SessionM ρ φ Unit := do
  let block ← verifiedBlock (← require (PointerBlock.decode bytes))
  discard c.loadTable
  modify fun s => { s with block }
  log .restoringBlock
  c.saveBlock

/-- Replaces the copies of the pointer block by an empty one, whatever they hold. -/
def createEmptyBlock (c : Session ρ) : SessionM ρ φ Unit := do
  discard c.loadTable
  modify fun s => { s with block := .empty maxPointers }
  log .creatingBlock
  c.saveBlock

end RemoteUpdate.Session
