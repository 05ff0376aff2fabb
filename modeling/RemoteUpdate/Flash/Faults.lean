import RemoteUpdate.Flash.Device

/-!
# Faults in front of a flash device

`FaultyFlash` lets calls through to a device, except those that are planned to fail, and shows stuck
cells to whoever reads them.
-/

namespace RemoteUpdate

/-- The kinds of calls that can be planned to fail. -/
inductive FlashCall where
  | read
  | write
  | erase
deriving DecidableEq, Repr

/-- A call of this kind fails, after `skip` of them went through. -/
structure PlannedFault where
  call : FlashCall
  skip : Nat
  fault : FlashFault
deriving DecidableEq, Repr

/-- A flash device behind a layer of faults. -/
structure FaultyFlash (φ : Type) where
  device : φ
  /-- The faults to come, oldest first. A call looks only at the oldest of its kind. -/
  planned : List PlannedFault := []
  /-- Cells that read back as this byte whatever they hold, the latest last. -/
  stuck : List (Nat × UInt8) := []

namespace FaultyFlash

variable {φ : Type}

/-- The device with one more call planned to fail. -/
def failLater (f : FaultyFlash φ) (p : PlannedFault) : FaultyFlash φ :=
  { f with planned := f.planned ++ [p] }

/-- The device with one more cell stuck. -/
def stickAt (f : FaultyFlash φ) (address : Nat) (byte : UInt8) : FaultyFlash φ :=
  { f with stuck := f.stuck ++ [(address, byte)] }

/-- What a call of some kind runs into, and the faults that are left. -/
def takeFault (call : FlashCall) : List PlannedFault → Option FlashFault × List PlannedFault
  | [] => (none, [])
  | p :: rest =>
    if p.call ≠ call then
      let (fault, rest) := takeFault call rest
      (fault, p :: rest)
    else if p.skip = 0 then (some p.fault, rest)
    else (none, { p with skip := p.skip - 1 } :: rest)

/-- The bytes read from an address on, as stuck cells show them. -/
def showStuck (stuck : List (Nat × UInt8)) (address : Nat) (bytes : List UInt8) : List UInt8 :=
  stuck.foldl (fun bytes s => if address ≤ s.1 then bytes.set (s.1 - address) s.2 else bytes) bytes

/-- Makes a call, unless it is planned to fail. -/
def guarded {α : Type} (call : FlashCall) (x : FlashM φ α) : FlashM (FaultyFlash φ) α := do
  let (fault, planned) := takeFault call (← get).planned
  modify fun f => { f with planned }
  match fault with
  | some fault => throw fault
  | none => x.focus device fun device f => { f with device }

end FaultyFlash

instance {φ : Type} [FlashDevice φ] : FlashDevice (FaultyFlash φ) where
  capacity f := FlashDevice.capacity f.device
  read address length := do
    let bytes ← FaultyFlash.guarded .read (FlashDevice.read address length)
    return FaultyFlash.showStuck (← get).stuck address bytes
  write address bytes := FaultyFlash.guarded .write (FlashDevice.write address bytes)
  erase address length := FaultyFlash.guarded .erase (FlashDevice.erase address length)

end RemoteUpdate
