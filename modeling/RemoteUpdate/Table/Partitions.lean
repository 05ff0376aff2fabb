import RemoteUpdate.Event
import RemoteUpdate.Table.Entry

/-!
# The partition table

The directory of a flash device: eight header words and room for 127 entries, 4096 bytes in all. The
table speaks only of the entries that its count covers (`listed`); a count beyond the room covers all
of them, and such a table does not verify.
-/

namespace RemoteUpdate

/-- Bytes of a table in flash, for both kinds of table. -/
def tableSize : Nat := 4096

/-- Entries a partition table has room for. -/
def maxPartitions : Nat := 127

/-- The directory of a flash device. -/
structure PartitionTable where
  magic : UInt32
  version : UInt32
  /-- How many entries are listed. -/
  count : UInt32
  reserved : Vector UInt32 5
  /-- All entries, listed or not. -/
  entries : Vector PartitionEntry maxPartitions
deriving DecidableEq, Repr

namespace PartitionTable

/-- The first word of every table. -/
def magicNumber : UInt32 := 0x57713427

/-- A table that lists nothing. -/
def empty : PartitionTable where
  magic := magicNumber
  version := 0
  count := 0
  reserved := .replicate _ 0
  entries := .replicate _ .blank

/-- What keeps the table from being used. -/
def defect? (t : PartitionTable) : Option SessionEvent :=
  if t.magic != magicNumber then some (.tableMagic t.magic magicNumber)
  else if maxPartitions < t.count.toNat then some (.tableLength t.count)
  else none

def verifies (t : PartitionTable) : Bool :=
  t.defect?.isNone

def size (t : PartitionTable) : Nat :=
  min t.count.toNat maxPartitions

def listed (t : PartitionTable) : List PartitionEntry :=
  t.entries.toList.take t.size

def entry (t : PartitionTable) (i : Nat) : Except UpdateError PartitionEntry :=
  match t.listed[i]? with
  | some e => .ok e
  | none => .error .notFound

/-- The table with listed entry `i` edited, if the edit succeeds. -/
def modifyEntry (t : PartitionTable) (i : Nat)
    (edit : PartitionEntry → Except UpdateError PartitionEntry) :
    Except UpdateError PartitionTable := do
  let e ← edit (← t.entry i)
  return { t with entries := t.entries.setIfInBounds i e }

/-- The index of the first listed entry of that name. -/
def findName? (t : PartitionTable) (name : String) : Option Nat :=
  t.listed.findIdx? (·.isNamed name)

/-- The index of the first listed entry that starts at that offset. -/
def findOffset? (t : PartitionTable) (offset : UInt64) : Option Nat :=
  t.listed.findIdx? (·.offset == offset)

/-- The index of the first of the entries that shares a byte with the range. The search stops with an
error at an entry whose end, or if the end of the range, cannot be told. -/
def firstOverlap (offset : UInt64) (length : UInt32) :
    List PartitionEntry → Except UpdateError (Option Nat)
  | [] => .ok none
  | e :: rest => do
    if ← e.overlaps offset length then return some 0
    return (← firstOverlap offset length rest).map (· + 1)

/-- The index of the first listed entry that shares a byte with the range. -/
def findOverlap (t : PartitionTable) (offset : UInt64) (length : UInt32) :
    Except UpdateError (Option Nat) :=
  firstOverlap offset length t.listed

/-- The table with one more entry at the end, and its index. -/
def push (t : PartitionTable) (e : PartitionEntry) : Except UpdateError (Nat × PartitionTable) :=
  if t.size < maxPartitions then
    .ok (t.size, { t with
      entries := t.entries.setIfInBounds t.size e
      count := .ofNat (t.size + 1) })
  else .error .invalidArgument

/-- The table without listed entry `i`, the later ones moved down and the last place blanked, and the
entry removed. -/
def remove (t : PartitionTable) (i : Nat) :
    Except UpdateError (PartitionEntry × PartitionTable) := do
  let removed ← t.entry i
  let moved : Vector PartitionEntry maxPartitions := .ofFn fun k =>
    if k < i ∨ t.size ≤ k then t.entries[k]
    else if k + 1 < t.size then t.entries.toArray.getD (k + 1) .blank
    else .blank
  return (removed, { t with entries := moved, count := .ofNat (t.size - 1) })

/-! ### Bytes -/

def encode (t : PartitionTable) : List UInt8 :=
  Table.word32 t.magic ++ Table.word32 t.version ++ Table.word32 t.count ++
    t.reserved.toList.flatMap Table.word32 ++ t.entries.toList.flatMap PartitionEntry.encode

def decode (bytes : List UInt8) : Except UpdateError PartitionTable :=
  if bytes.length < tableSize then .error .invalidArgument
  else
    let cells := bytes.toArray
    .ok {
      magic := Table.word32At cells 0
      version := Table.word32At cells 4
      count := Table.word32At cells 8
      reserved := .ofFn fun k => Table.word32At cells (12 + 4 * k)
      entries := .ofFn fun k => PartitionEntry.decodeAt cells (32 + PartitionEntry.byteSize * k) }

end PartitionTable

end RemoteUpdate
