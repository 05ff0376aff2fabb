import RemoteUpdate.Failure

/-!
# Flash devices

A `FlashDevice` is a run of byte cells, addressed from zero, that can be read, written and erased in
ranges of any length. How it is attached does not matter here, and every call may fail.
-/

namespace RemoteUpdate

/-- Programs on a flash device. -/
abbrev FlashM (φ : Type) := ExceptT FlashFault (StateM φ)

/-- A device that keeps bytes. -/
class FlashDevice (φ : Type) where
  /-- How many bytes the device keeps. -/
  capacity : φ → Nat
  /-- The bytes of a range. -/
  read : (address length : Nat) → FlashM φ (List UInt8)
  /-- Replaces the bytes from an address on. -/
  write : (address : Nat) → List UInt8 → FlashM φ Unit
  /-- Erases a range. -/
  erase : (address length : Nat) → FlashM φ Unit

/-- Runs a program on a device that is one part of a larger state. -/
def FlashM.focus {φ ψ α : Type} (get : ψ → φ) (set : φ → ψ → ψ) (x : FlashM φ α) : FlashM ψ α :=
  ExceptT.mk fun t =>
    let (result, f) := x.run.run (get t)
    pure (result, set f t)

end RemoteUpdate
