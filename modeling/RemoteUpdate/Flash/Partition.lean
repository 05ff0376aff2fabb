import RemoteUpdate.Flash.Device
import RemoteUpdate.Table.Entry

/-!
# Partitions of a flash device

A `FlashPartition` is a bounded range of a device with a name. Offsets count from its start, and an
access is checked against its length before it reaches the device.
-/

namespace RemoteUpdate

/-- A named range that fits its device. -/
structure FlashPartition where
  name : String
  /-- First address of the range. -/
  base : Nat
  /-- Bytes in the range. -/
  length : Nat
deriving DecidableEq, Repr

namespace FlashPartition

/-- The range of a device with so many bytes, if it fits and the name is not too long. -/
def make (capacity : Nat) (name : String) (base length : Nat) : Except FlashFault FlashPartition :=
  if capacity < base + length then .error .size
  else if nameFieldSize < name.utf8ByteSize then .error .invalid
  else .ok { name, base, length }

/-- The range that a table entry describes. -/
def ofEntry (capacity : Nat) (e : PartitionEntry) : Except FlashFault FlashPartition :=
  make capacity e.nameText e.offset.toNat e.length.toNat

variable {φ : Type}

/-- The address of a range of the partition. -/
def locate (p : FlashPartition) (offset length : Nat) : FlashM φ Nat :=
  if offset + length ≤ p.length then return p.base + offset else throw .size

variable [FlashDevice φ]

def read (p : FlashPartition) (offset length : Nat) : FlashM φ (List UInt8) := do
  FlashDevice.read (← p.locate offset length) length

/-- Replaces the bytes of the partition from an offset on. -/
def write (p : FlashPartition) (offset : Nat) (bytes : List UInt8) : FlashM φ Unit := do
  FlashDevice.write (← p.locate offset bytes.length) bytes

def erase (p : FlashPartition) (offset length : Nat) : FlashM φ Unit := do
  FlashDevice.erase (← p.locate offset length) length

end FlashPartition

end RemoteUpdate
