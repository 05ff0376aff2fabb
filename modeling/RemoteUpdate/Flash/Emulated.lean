import RemoteUpdate.Flash.Cells
import RemoteUpdate.Flash.Device

/-!
# An emulated flash device

Cells in memory. A range that does not fit is refused first; what is left fails only if writes are made
to fail. Writes and erases that succeed are counted.
-/

namespace RemoteUpdate

/-- A flash device in memory. -/
structure EmulatedFlash where
  cells : ByteArray
  /-- Writes and erases fail. -/
  failing : Bool := false
  /-- Writes that succeeded. -/
  writes : Nat := 0
  /-- Erases that succeeded. -/
  erases : Nat := 0

namespace EmulatedFlash

/-- A device that is erased all over. -/
def blank (capacity : Nat) : EmulatedFlash where
  cells := Cells.filled Cells.erasedByte capacity

/-- The bytes of a range that fits. -/
def contents? (f : EmulatedFlash) (address length : Nat) : Option (List UInt8) :=
  if address + length ≤ f.cells.size then some (Cells.slice f.cells address length) else none

/-- The device with writes and erases made to fail, or to work again. -/
def setFailing (f : EmulatedFlash) (failing : Bool) : EmulatedFlash :=
  { f with failing }

/-- Refuses a range that does not fit. -/
def checkRange (address length : Nat) : FlashM EmulatedFlash Unit := do
  let f ← get
  unless address + length ≤ f.cells.size do throw .size

/-- Replaces the bytes of a range that fits, unless the device is failing. -/
def store (address : Nat) (bytes : ByteArray) : FlashM EmulatedFlash Unit := do
  let f ← get
  if f.failing then throw .failed
  set { f with cells := Cells.patch f.cells address bytes }

def read (address length : Nat) : FlashM EmulatedFlash (List UInt8) := do
  checkRange address length
  return Cells.slice (← get).cells address length

/-- Replaces the bytes from an address on. -/
def write (address : Nat) (bytes : List UInt8) : FlashM EmulatedFlash Unit := do
  checkRange address bytes.length
  store address ⟨bytes.toArray⟩
  modify fun f => { f with writes := f.writes + 1 }

def erase (address length : Nat) : FlashM EmulatedFlash Unit := do
  checkRange address length
  store address (Cells.filled Cells.erasedByte length)
  modify fun f => { f with erases := f.erases + 1 }

end EmulatedFlash

instance : FlashDevice EmulatedFlash where
  capacity f := f.cells.size
  read := EmulatedFlash.read
  write := EmulatedFlash.write
  erase := EmulatedFlash.erase

end RemoteUpdate
