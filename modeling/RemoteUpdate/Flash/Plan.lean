import RemoteUpdate.Flash.Device
import RemoteUpdate.Table.Partitions
import RemoteUpdate.Table.Pointers

/-!
# Laying out a flash device

A `FlashPlan` is a partition table and a pointer block in the making. Formatting a device with it writes
the table to two places and the block to every partition that is meant for it.
-/

namespace RemoteUpdate

/-- Programs on a flash device that log and report failures of the update library. -/
abbrev FormatM (φ : Type) := ExceptT UpdateError (StateT φ LogM)

/-- Runs a program on the device itself. -/
def FlashM.report {φ α : Type} (x : FlashM φ α) : FormatM φ α :=
  ExceptT.mk fun f =>
    let (result, f) := x.run.run f
    pure (result.mapError .flash, f)

/-- The tables of a device that is to be formatted. -/
structure FlashPlan where
  table : PartitionTable := .empty
  block : PointerBlock := .empty maxPointers
  /-- Where the two copies of the partition table go. -/
  tableOffsets : UInt64 × UInt64 := (0x100000, 0x108000)

namespace FlashPlan

/-- Bytes set aside for a copy of a table. -/
def metadataSize : UInt32 := 0x8000

/-- The partitions that hold the pointer block. -/
def blockNames : List String := ["CPB0", "CPB1"]

/-- The plan with one more partition, and its index. Names do not repeat and ranges do not overlap. -/
def addPartition (p : FlashPlan) (name : String) (offset : UInt64) (length flags : UInt32) :
    Except UpdateError (Nat × FlashPlan) := do
  if (p.table.findName? name).isSome then throw .alreadyExists
  if (← p.table.findOverlap offset length).isSome then throw .invalidArgument
  let (i, table) ← p.table.push (← PartitionEntry.make name offset length flags)
  return (i, { p with table })

/-- The plan with an empty pointer block of so many slots. -/
def withSlots (p : FlashPlan) (slots : Nat) : FlashPlan :=
  { p with block := .empty slots }

/-- The plan with the first slots of the pointer block replaced. -/
def withPointers (p : FlashPlan) (pointers : List UInt64) : Except UpdateError FlashPlan :=
  if p.block.size < pointers.length then .error .invalidArgument
  else .ok { p with block := p.block.withSlots (pointers ++ p.block.slots.drop pointers.length) }

/-- The partitions of the standard layout: name, offset and length. -/
def standardPartitions : List (String × UInt64 × UInt32) :=
  [("BOOT_INFO", 0x0, 0x10000),
    ("FACTORY_IMAGE", 0x10000, 0xf0000),
    ("SPT0", 0x100000, metadataSize),
    ("SPT1", 0x108000, metadataSize),
    ("CPB0", 0x110000, metadataSize),
    ("CPB1", 0x118000, metadataSize)]

/-- Boot information, factory image and tables, all reserved. -/
def standard : Except UpdateError FlashPlan :=
  standardPartitions.foldlM
    (fun p s => do return (← p.addPartition s.1 s.2.1 s.2.2 PartitionEntry.reservedFlag).2) {}

variable {φ : Type} [FlashDevice φ]

/-- Erases the space of a table and writes the table. -/
def writeTable (offset : UInt64) (bytes : List UInt8) : FormatM φ Unit := do
  FlashM.report <| FlashDevice.erase offset.toNat metadataSize.toNat
  FlashM.report <| FlashDevice.write offset.toNat bytes

/-- Writes the pointer block to the partition of that name, if there is one. -/
def writeBlock (p : FlashPlan) (name : String) : FormatM φ Unit :=
  match p.table.listed.find? (·.isNamed name) with
  | some e => writeTable e.offset p.block.encode
  | none => pure ()

def format (p : FlashPlan) : FormatM φ Unit := do
  writeTable p.tableOffsets.1 p.table.encode
  writeTable p.tableOffsets.2 p.table.encode
  blockNames.forM p.writeBlock
  emit (.formatted p.table.size p.block.size)

end FlashPlan

end RemoteUpdate
