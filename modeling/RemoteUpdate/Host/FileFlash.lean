import RemoteUpdate.Flash.Emulated
import RemoteUpdate.Host.FileStore

/-!
# A flash device kept in a file

An `EmulatedFlash` whose cells may be in a file too: what is written or erased in memory is written to the
file as well.
-/

namespace RemoteUpdate

/-- A flash device and the files next to the one that keeps its cells. -/
structure FileFlash where
  flash : EmulatedFlash
  store : FileStore
  /-- Where the file of the device is, unless the device is in memory only. -/
  location : Option FileLocation

namespace FileFlash

/-- A blank device in memory only, next to files. -/
def inMemory (store : FileStore) (capacity : Nat) : FileFlash where
  flash := .blank capacity
  store
  location := none

/-- Bytes written at once while a file is filled up. -/
def fillChunk : Nat := 0x100000

/-- The files after so many erased cells have been written to one of them from an address on, a chunk at a
time. -/
def fillUp (store : FileStore) (l : FileLocation) (address remaining : Nat) : FileStore :=
  if remaining = 0 then store
  else
    let size := min remaining fillChunk
    fillUp (store.patch l address (Cells.filled Cells.erasedByte size)) l (address + size)
      (remaining - size)
termination_by remaining
decreasing_by
  unfold fillChunk
  omega

/-- The device kept in the file at a path. A file that is missing is made, and one that is too short is
filled up with erased cells. A refusal comes without files, as it leaves them as they were: what is no file
and what is too large a one is refused before anything is written, and of what is filled up only a sink, which
keeps nothing, can still end early. -/
def open? (store : FileStore) (path : String) (capacity : Nat) : Except FileError FileFlash := do
  let location ← store.locateNew path
  let found ← match store.node location with
    | .file contents => .ok contents
    | .missing | .sink => .ok .empty
    | .directory => .error .isDirectory
  if capacity < found.size then .error (.tooLarge found.size capacity)
  else
    let store := fillUp (store.put location found) location found.size (capacity - found.size)
    let cells ← store.readFront location capacity
    .ok { flash := { cells }, store, location := some location }

/-- Runs a program on the cells in memory. -/
def onCells {α : Type} (x : FlashM EmulatedFlash α) : FlashM FileFlash α :=
  x.focus flash fun flash f => { f with flash }

/-- Puts bytes over those in the file, if there is one. -/
def keep (address : Nat) (bytes : ByteArray) : FlashM FileFlash Unit :=
  modify fun f => { f with store := f.location.elim f.store (f.store.patch · address bytes) }

end FileFlash

instance : FlashDevice FileFlash where
  capacity f := FlashDevice.capacity f.flash
  read address length := FileFlash.onCells (FlashDevice.read address length)
  write address bytes := do
    FileFlash.onCells (FlashDevice.write address bytes)
    FileFlash.keep address ⟨bytes.toArray⟩
  erase address length := do
    FileFlash.onCells (FlashDevice.erase address length)
    FileFlash.keep address (Cells.filled Cells.erasedByte length)

end RemoteUpdate
