/-!
# Where the mailbox registers are, and how long the driver waits

`RegisterMap` lists byte offsets of the registers and the sizes of the two rings. `Timing` bounds every
wait of the driver by a number of polls.
-/

namespace RemoteUpdate

/-- Byte offsets of the mailbox registers, and the sizes of the two rings in words. The defaults are
those of Stratix 10 and Agilex class devices. -/
structure RegisterMap where
  /-- Producer cursor of the command ring, owned by the host. -/
  commandIn : UInt32 := 0x00
  /-- Consumer cursor of the response ring, owned by the host. -/
  responseOut : UInt32 := 0x04
  /-- Urgent command. -/
  urgent : UInt32 := 0x08
  /-- Interrupt enables. -/
  interrupts : UInt32 := 0x0c
  /-- Consumer cursor of the command ring, owned by the device manager. -/
  commandOut : UInt32 := 0x20
  /-- Producer cursor of the response ring, owned by the device manager. -/
  responseIn : UInt32 := 0x24
  /-- Status, with the urgent acknowledge bit. -/
  status : UInt32 := 0x2c
  /-- First slot of the command ring. -/
  commandBuffer : UInt32 := 0x40
  /-- First slot of the response ring. -/
  responseBuffer : UInt32 := 0xc0
  /-- Doorbell that the host rings. -/
  doorbellToSdm : UInt32 := 0x400
  /-- Doorbell that the device manager rings. -/
  doorbellFromSdm : UInt32 := 0x480
  /-- Slots of the command ring. -/
  commandSlots : Nat := 32
  /-- Slots of the response ring. -/
  responseSlots : Nat := 16
deriving DecidableEq, Repr

namespace RegisterMap

/-- The byte offset of slot `i` of the command ring. -/
def commandSlot (m : RegisterMap) (i : Nat) : UInt32 :=
  m.commandBuffer + .ofNat (4 * i)

/-- The byte offset of slot `i` of the response ring. -/
def responseSlot (m : RegisterMap) (i : Nat) : UInt32 :=
  m.responseBuffer + .ofNat (4 * i)

end RegisterMap

/-- The poll budget of the driver. A wait lasts at most its number of polls times the interval. -/
structure Timing where
  /-- Microseconds between two polls. -/
  interval : Nat := 1000
  /-- Polls while the command ring is full. -/
  commandPolls : Nat := 1000
  /-- Doorbell checks and dropped responses in one attempt. -/
  doorbellPolls : Nat := 1000
  /-- Polls for each data word of a response. -/
  dataPolls : Nat := 2000
  /-- Attempts at one command; zero counts as one. -/
  retries : Nat := 3
  /-- Microseconds to wait after an attempt that may be repeated. -/
  backoff : Nat := 2000
deriving DecidableEq, Repr

/-- The urgent acknowledge bit of the status register, toggled once for each urgent command. -/
def urgentAcknowledge : UInt32 := 0x100

/-! ### Interrupt enables of the flags register -/

namespace Interrupt

/-- The command ring has been emptied. -/
def commandEmpty : UInt32 := 0x1

/-- A response is ready. -/
def responseReady : UInt32 := 0x2

/-- An urgent command has been acknowledged. -/
def urgentDone : UInt32 := 0x100

/-- All three. -/
def all : UInt32 := commandEmpty ||| responseReady ||| urgentDone

end Interrupt

end RemoteUpdate
