import RemoteUpdate.Mailbox.Cursor
import RemoteUpdate.Mailbox.RegisterMap
import RemoteUpdate.Mailbox.Report
import RemoteUpdate.Mailbox.Wire

/-!
# State of an emulated device manager

The registers and rings of the mailbox as the device manager sees them, what it knows of images and
firmware, and what has been asked of it to go wrong.
-/

namespace RemoteUpdate

/-- A command as the device manager received it. -/
structure LoggedCommand where
  header : CommandHeader
  arguments : List UInt32
deriving DecidableEq, Repr

/-- The next `remaining` commands with this opcode are answered with this code. -/
structure PlannedFailure where
  opcode : UInt32
  code : UInt32
  remaining : Nat
deriving DecidableEq, Repr

/-- A secure device manager behind a mailbox. It consumes commands when the host rings the doorbell, or
some ticks later. Responses that do not fit into the response ring wait in the outbox. -/
structure EmulatedSdm where
  map : RegisterMap := {}
  /-- Producer cursor of the command ring. -/
  cin : Nat := 0
  /-- Consumer cursor of the response ring. -/
  rout : Nat := 0
  /-- Urgent command, 0 if there is none. -/
  urgent : UInt32 := 0
  /-- Interrupt enables. -/
  interrupts : UInt32 := 0
  /-- Consumer cursor of the command ring. -/
  cout : Nat := 0
  /-- Producer cursor of the response ring. -/
  rin : Nat := 0
  /-- Status register. -/
  status : UInt32 := 0
  /-- Doorbell to the host. -/
  doorbell : UInt32 := 0
  /-- Slots of the command ring. -/
  commandCells : Array UInt32 := Array.replicate map.commandSlots 0
  /-- Slots of the response ring. -/
  responseCells : Array UInt32 := Array.replicate map.responseSlots 0
  /-- A command of which some words are still to come. -/
  partialCommand : Option LoggedCommand := none
  /-- Response words that have not been published. -/
  outbox : List UInt32 := []
  /-- Ticks from a doorbell to the consumption of commands. -/
  consumeDelay : Nat := 0
  /-- Ticks until commands are consumed, if the host is waiting for that. -/
  countdown : Option Nat := none
  /-- Stray responses in front of the next answer. -/
  strays : Nat := 0
  /-- How many of the next commands find the device busy. -/
  busy : Nat := 0
  /-- How many of the next doorbells to the host get lost; without a number, all of them. -/
  lostDoorbells : Option Nat := some 0
  /-- The urgent acknowledge bit does not move. -/
  acknowledgeFrozen : Bool := false
  failures : List PlannedFailure := []
  /-- Doorbells that the host rang with the command ring full. -/
  overflowDoorbells : Nat := 0
  /-- Urgent commands received. -/
  urgentCount : Nat := 0
  /-- Commands executed, oldest first. -/
  log : Array LoggedCommand := #[]
  updateStatus : UpdateStatus := { currentImage := 0x10000, version := 0x202, retryCounter := 0 }
  /-- Words of the update status that are reported. -/
  statusWords : Nat := updateStatusWords
  deviceInfo : DeviceInfo := { versions := .replicate _ 0x01140200, maxRetry := 3 }
  /-- The words that tell where the partition tables are. -/
  subpartitions : Vector UInt32 4 := #v[0, 0x100000, 0, 0x108000]
  configStatus : Vector UInt32 configStatusWords :=
    #v[0, 0, ConfigFlag.statusPin, ConfigFlag.configDone ||| ConfigFlag.initDone, 0, 0]
  /-- The host has taken over the flash controller. -/
  controllerOpen : Bool := false
  referenceClock : UInt32 := 200000000
  /-- The image asked for at the next reboot. -/
  pendingUpdate : Option UInt64 := none
  reboots : Nat := 0
  /-- Execution stages reported, oldest first. -/
  stages : List UInt32 := []

namespace EmulatedSdm

def commandRing (s : EmulatedSdm) : Ring := ⟨s.map.commandSlots⟩
def responseRing (s : EmulatedSdm) : Ring := ⟨s.map.responseSlots⟩

/-- A device manager that has just been switched on. -/
def fresh (map : RegisterMap) : EmulatedSdm := { map }

/-! ### What may go wrong -/

/-- Puts `count` stray responses in front of the next answer. -/
def injectStrays (count : Nat) (s : EmulatedSdm) : EmulatedSdm := { s with strays := count }

/-- Answers the next `count` commands that the device is busy. -/
def injectBusy (count : Nat) (s : EmulatedSdm) : EmulatedSdm := { s with busy := count }

/-- Loses the next `count` doorbells to the host, or all of them if `count` is all ones. -/
def dropDoorbells (count : UInt32) (s : EmulatedSdm) : EmulatedSdm :=
  { s with lostDoorbells := if count = 0xffffffff then none else some count.toNat }

/-- Answers the next `count` commands with this opcode with this code. -/
def failNext (opcode code : UInt32) (count : Nat) (s : EmulatedSdm) : EmulatedSdm :=
  { s with failures := s.failures ++ [⟨opcode, code, count⟩] }

/-- Reports only the first words of the update status, as early firmware does. -/
def truncateStatus (words : Nat) (s : EmulatedSdm) : EmulatedSdm :=
  { s with statusWords := min words updateStatusWords }

/-- Reports the partition tables at other offsets. -/
def moveTables (first second : UInt32) (s : EmulatedSdm) : EmulatedSdm :=
  { s with subpartitions := #v[0, first, 0, second] }

end EmulatedSdm

end RemoteUpdate
