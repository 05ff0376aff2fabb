import RemoteUpdate.Failure
import RemoteUpdate.Table.Bytes

/-!
# Entries of the partition table

A `PartitionEntry` names a range of the flash device. Its name is text of at most fifteen bytes in a
field of sixteen, the rest of which is zero; what flash holds need not obey that.
-/

namespace RemoteUpdate

/-- Bytes of the name field, one more than the longest name. -/
def nameFieldSize : Nat := 16

/-- One past the last byte of a range, if a 64-bit number can hold it. -/
def rangeEnd (offset : UInt64) (length : UInt32) : Except UpdateError Nat :=
  if offset.toNat + length.toNat < UInt64.size then .ok (offset.toNat + length.toNat)
  else .error .invalidArgument

/-- A named range of flash. -/
structure PartitionEntry where
  /-- The name field. -/
  name : Vector UInt8 nameFieldSize := .replicate _ 0
  /-- First byte of the range. -/
  offset : UInt64 := 0
  /-- Bytes in the range. -/
  length : UInt32 := 0
  /-- Protection flags. -/
  flags : UInt32 := 0
deriving DecidableEq, Repr

namespace PartitionEntry

/-- Flag of a partition that belongs to the system. -/
def reservedFlag : UInt32 := 0x1

/-- Flag of a partition that may not be written. -/
def readOnlyFlag : UInt32 := 0x2

/-- Bytes of an entry in flash. -/
def byteSize : Nat := 32

def blank : PartitionEntry := {}

/-! ### Names -/

/-- The name field that holds a text: not empty, no zero byte, and room for a zero at the end. -/
def nameField? (name : String) : Option (Vector UInt8 nameFieldSize) :=
  let bytes := name.toUTF8.data
  if bytes.isEmpty || nameFieldSize ≤ bytes.size || bytes.contains 0 then none
  else some (.ofFn fun i => bytes.getD i 0)

/-- The bytes of the name, up to the first zero. -/
def nameBytes (e : PartitionEntry) : List UInt8 :=
  e.name.toList.takeWhile (· != 0)

/-- The name as text, or a question mark if its bytes are no text. -/
def nameText (e : PartitionEntry) : String :=
  (String.fromUTF8? ⟨e.nameBytes.toArray⟩).getD "?"

/-- The bytes of the name are those of `name`. -/
def isNamed (e : PartitionEntry) (name : String) : Bool :=
  e.nameBytes == name.toUTF8.data.toList

def rename (e : PartitionEntry) (name : String) : Except UpdateError PartitionEntry :=
  match nameField? name with
  | some field => .ok { e with name := field }
  | none => .error .invalidArgument

/-- The entry with the given fields, if the name is one. -/
def make (name : String) (offset : UInt64) (length flags : UInt32) :
    Except UpdateError PartitionEntry :=
  rename { offset, length, flags } name

/-! ### Ranges and protection -/

def stop (e : PartitionEntry) : Except UpdateError Nat :=
  rangeEnd e.offset e.length

def isReserved (e : PartitionEntry) : Bool := e.flags &&& reservedFlag != 0
def isReadOnly (e : PartitionEntry) : Bool := e.flags &&& readOnlyFlag != 0

/-- The slot manager may not touch the partition. -/
def isProtected (e : PartitionEntry) : Bool := e.isReserved || e.isReadOnly

/-- The partition starts before the range ends and the range starts before the partition ends. -/
def overlaps (e : PartitionEntry) (offset : UInt64) (length : UInt32) :
    Except UpdateError Bool := do
  let ownStop ← e.stop
  let otherStop ← rangeEnd offset length
  return offset.toNat < ownStop && e.offset.toNat < otherStop

/-! ### Bytes -/

def encode (e : PartitionEntry) : List UInt8 :=
  e.name.toList ++ Table.word64 e.offset ++ Table.word32 e.length ++ Table.word32 e.flags

/-- The entry stored from byte `i` on. -/
def decodeAt (cells : Array UInt8) (i : Nat) : PartitionEntry where
  name := .ofFn fun k => cells.getD (i + k) 0
  offset := Table.word64At cells (i + 16)
  length := Table.word32At cells (i + 24)
  flags := Table.word32At cells (i + 28)

def decode (bytes : List UInt8) : PartitionEntry :=
  decodeAt bytes.toArray 0

end PartitionEntry

end RemoteUpdate
