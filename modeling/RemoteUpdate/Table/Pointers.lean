import RemoteUpdate.Event
import RemoteUpdate.Table.Partitions

/-!
# The pointer block

Which images may be booted, and in which order: eight header words and room for 508 pointers, 4096
bytes in all. A pointer is the flash offset of an image; zero is what is left of a pointer taken out,
and all ones is erased flash. The image of the pointer with the highest index is booted first, so the
block stands for the list `priorities` of its pointers read from the top down.
-/

namespace RemoteUpdate

/-- Pointers a block has room for. -/
def maxPointers : Nat := 508

/-- A pointer that was taken out. -/
def clearedPointer : UInt64 := 0

/-- A pointer that was never set. -/
def erasedPointer : UInt64 := 0xffffffffffffffff

/-- The value refers to an image. -/
def isPointer (p : UInt64) : Bool :=
  p != clearedPointer && p != erasedPointer

/-- The boot order of a flash device. -/
structure PointerBlock where
  magic : UInt32
  headerSize : UInt32
  totalSize : UInt32
  reserved1 : UInt32
  pointerOffset : UInt32
  /-- How many pointers are in use. -/
  slotCount : UInt32
  reserved2 : UInt32
  reserved3 : UInt32
  /-- All pointers, in use or not. -/
  pointers : Vector UInt64 maxPointers
deriving DecidableEq, Repr

/-- Why a pointer cannot go to the top of a block. -/
inductive PlacementError where
  /-- It is no pointer, or the block has no slots. -/
  | noSlot
  /-- Every slot holds another pointer. -/
  | full
deriving DecidableEq, Repr

/-- Both are mistakes of the caller. -/
def PlacementError.toUpdateError : PlacementError → UpdateError
  | .noSlot | .full => .invalidArgument

namespace PointerBlock

/-- The first word of every block. -/
def magicNumber : UInt32 := 0x57789609

/-- Bytes in front of the pointers. -/
def headerBytes : UInt32 := 32

/-- A block with so many slots, as far as there is room, and no pointer. -/
def empty (slots : Nat) : PointerBlock where
  magic := magicNumber
  headerSize := headerBytes
  totalSize := .ofNat tableSize
  reserved1 := 0
  pointerOffset := headerBytes
  slotCount := .ofNat (min slots maxPointers)
  reserved2 := 0
  reserved3 := 0
  pointers := .replicate _ erasedPointer

/-- What keeps the block from being used. -/
def defect? (b : PointerBlock) : Option SessionEvent :=
  if b.magic != magicNumber then some (.blockMagic b.magic magicNumber)
  else if maxPointers < b.slotCount.toNat then some (.blockLength b.slotCount)
  else none

def verifies (b : PointerBlock) : Bool :=
  b.defect?.isNone

def size (b : PointerBlock) : Nat :=
  min b.slotCount.toNat maxPointers

/-- The slots in use, lowest priority first. -/
def slots (b : PointerBlock) : List UInt64 :=
  b.pointers.toList.take b.size

/-- The block with the slots in use replaced by as many others. -/
def withSlots (b : PointerBlock) (slots : List UInt64) : PointerBlock :=
  let fresh := slots.toArray
  { b with pointers := .ofFn fun k => if k < b.size then fresh.getD k b.pointers[k] else b.pointers[k] }

/-- The pointers of the block, first to boot first. -/
def priorities (b : PointerBlock) : List UInt64 :=
  b.slots.reverse.filter isPointer

/-- The slots that hold a pointer, first to boot first. -/
def order (b : PointerBlock) : List Nat :=
  (b.slots.zipIdx.reverse.filter fun s => isPointer s.1).map (·.2)

/-- The rank of a pointer, 1 for the first to boot, or 0 if the block does not hold it. -/
def rank (b : PointerBlock) (p : UInt64) : Nat :=
  match b.priorities.findIdx? (· == p) with
  | some i => i + 1
  | none => 0

/-- The slots with the pointers moved to the bottom in order, and the rest erased. -/
def packSlots (slots : List UInt64) : List UInt64 :=
  let held := slots.filter isPointer
  held ++ List.replicate (slots.length - held.length) erasedPointer

/-- The block with its pointers moved to the bottom, and how many there are. -/
def compact (b : PointerBlock) : Nat × PointerBlock :=
  ((b.slots.filter isPointer).length, b.withSlots (packSlots b.slots))

/-- The block with a pointer taken out wherever it occurs, and whether it did. -/
def disable (b : PointerBlock) (p : UInt64) : Bool × PointerBlock :=
  if isPointer p && b.slots.contains p then
    (true, b.withSlots (b.slots.map fun q => if q == p then clearedPointer else q))
  else (false, b)

/-- The block with a pointer above all others, and whether that changed it. The pointer goes above the
topmost one; with no slot left there, the pointers are packed first. -/
def enable (b : PointerBlock) (p : UInt64) : Except PlacementError Bool × PointerBlock :=
  if !isPointer p || b.slots.isEmpty then (.error .noSlot, b)
  else if b.priorities.head? == some p then (.ok false, b)
  else
    let b := (b.disable p).2
    if b.slots.all isPointer then (.error .full, b)
    else
      let above := match b.order.head? with
        | some top => top + 1
        | none => 0
      let (target, b) := if above < b.size then (above, b) else b.compact
      (.ok true, b.withSlots (b.slots.set target p))

/-! ### Bytes -/

def encode (b : PointerBlock) : List UInt8 :=
  [b.magic, b.headerSize, b.totalSize, b.reserved1, b.pointerOffset, b.slotCount, b.reserved2,
    b.reserved3].flatMap Table.word32 ++ b.pointers.toList.flatMap Table.word64

def decode (bytes : List UInt8) : Except UpdateError PointerBlock :=
  if bytes.length < tableSize then .error .invalidArgument
  else
    let cells := bytes.toArray
    .ok {
      magic := Table.word32At cells 0
      headerSize := Table.word32At cells 4
      totalSize := Table.word32At cells 8
      reserved1 := Table.word32At cells 12
      pointerOffset := Table.word32At cells 16
      slotCount := Table.word32At cells 20
      reserved2 := Table.word32At cells 24
      reserved3 := Table.word32At cells 28
      pointers := .ofFn fun k => Table.word64At cells (32 + 8 * k) }

end PointerBlock

end RemoteUpdate
