import RemoteUpdate.Failure

/-!
# Log

Everything that is worth a line in the log is an `Event`; its `severity` and its `text` are functions of
the event. A program that logs runs in `LogM`, which also knows a third way to end beside success and
failure: a program is *aborted* when it does arithmetic on a ring without slots or looks at memory that
is not there. Nothing that follows an abort happens, so no state is left to speak of.
-/

namespace RemoteUpdate

/-- How important an event is. -/
inductive Severity where
  | error
  | warn
  | info
  | debug
deriving DecidableEq, Repr

/-- The word for a severity at the head of a line. -/
def Severity.label : Severity → String
  | .error => "ERROR"
  | .warn => "WARN"
  | .info => "INFO"
  | .debug => "DEBUG"

/-- What can happen to a mailbox driver. -/
inductive MailboxEvent where
  | commandRingFull
  | commandSent (opcode : UInt32) (arguments : Nat)
  | doorbellTimeout
  | dataTimeout
  | urgentAcknowledged (opcode : UInt32)
  | urgentIgnored (opcode : UInt32)
  | responseReceived (opcode code : UInt32) (length : Nat)
  | strayDropped (header : UInt32)
  | onlyStrays (opcode : UInt32)
  | attemptFailed (opcode : UInt32) (attempt : Nat) (error : MailboxError)
  | drained (header : UInt32)
  | controllerReopening (error : MailboxError)
  | referenceClock (hz : UInt32)
  | statusReceived (words : Nat)
  | updateRequested (offset : UInt64)
  | rebootRequested
deriving DecidableEq, Repr

namespace MailboxEvent

def severity : MailboxEvent → Severity
  | commandRingFull | doorbellTimeout | dataTimeout | urgentIgnored _ | strayDropped _
  | onlyStrays _ | attemptFailed _ _ _ | controllerReopening _ => .warn
  | referenceClock _ | updateRequested _ | rebootRequested => .info
  | commandSent _ _ | urgentAcknowledged _ | responseReceived _ _ _ | drained _
  | statusReceived _ => .debug

def text : MailboxEvent → String
  | commandRingFull => "Command buffer stayed full"
  | commandSent opcode arguments => s!"Sent command {opcode} with {arguments} args"
  | doorbellTimeout => "Timed out waiting for the SDM doorbell"
  | dataTimeout => "Timed out waiting for response data"
  | urgentAcknowledged opcode => s!"Urgent command {opcode} acknowledged"
  | urgentIgnored opcode => s!"Urgent command {opcode} not acknowledged"
  | responseReceived opcode code length =>
    s!"Command {opcode} response code " ++ Text.hex code.toNat ++ s!", {length} words"
  | strayDropped header => "Dropping stray response " ++ Text.hexPadded 8 header.toNat
  | onlyStrays opcode => s!"Command {opcode} only saw stray responses"
  | attemptFailed opcode attempt error =>
    s!"Command {opcode} attempt {attempt} failed: Err({error.label})"
  | drained header => "Drained response " ++ Text.hexPadded 8 header.toNat
  | controllerReopening error => s!"QSPI open failed ({error.label}), reopening"
  | referenceClock hz => s!"QSPI reference clock {hz} Hz"
  | statusReceived words => s!"RSU status is {words} words"
  | updateRequested offset => "RSU update to " ++ Text.hex offset.toNat
  | rebootRequested => "Requesting HPS reboot"

end MailboxEvent

/-- What can happen to an emulated device manager. -/
inductive DeviceEvent where
  | urgentReceived (opcode : UInt32)
  | commandReceived (opcode : UInt32) (arguments : Nat)
  | argumentsMissing (opcode : UInt32)
  | commandUnknown (opcode : UInt32)
  | writeIgnored (value offset : UInt32)
deriving DecidableEq, Repr

namespace DeviceEvent

def severity : DeviceEvent → Severity
  | urgentReceived _ | commandReceived _ _ => .debug
  | argumentsMissing _ | commandUnknown _ | writeIgnored _ _ => .warn

def text : DeviceEvent → String
  | urgentReceived opcode => s!"Urgent command {opcode}"
  | commandReceived opcode arguments => s!"Command {opcode} with {arguments} args"
  | argumentsMissing opcode => s!"Command {opcode} is missing arguments"
  | commandUnknown opcode => s!"Unknown command {opcode}"
  | writeIgnored value offset =>
    "Ignoring write of " ++ Text.hex value.toNat ++ " to " ++ Text.hex offset.toNat

end DeviceEvent

/-- What can be wrong with a table, or happen to a session that works on the tables. -/
inductive SessionEvent where
  | tableMagic (found expected : UInt32)
  | tableLength (entries : UInt32)
  | blockMagic (found expected : UInt32)
  | blockLength (slots : UInt32)
  | blockFull (pointer : UInt64)
  | tablesLocated (first second : UInt32)
  | tableCorrupt (offset : UInt64)
  | blockNotListed (name : String)
  | blockCorrupt (offset : UInt64)
  | tableSaved (entries : Nat)
  | blockSaved (offset : UInt64)
  | restoringTable
  | restoringBlock
  | creatingBlock
  | slotProtected (slot : Nat) (name : String)
  | slotOverlaps (name other : String)
  | slotCreated (slot : Nat) (name : String) (offset : UInt64) (size : UInt32)
  | slotDeleted (slot : Nat) (name : String)
  | slotRenamed (slot : Nat) (old new : String)
  | slotDisabled (slot : Nat) (name : String)
  | slotEnabled (slot : Nat) (name : String)
  | slotErased (slot : Nat) (name : String)
  | imageRejected
  | slotProgrammed (slot : Nat) (name : String) (bytes : Nat)
  | slotDiffers (name : String) (offset : Nat)
  | slotLoading (slot : Nat) (name : String)
  | factoryLoading
  | actionUnsupported (action : UInt32)
  | errorCleared
  | retriesReset
deriving DecidableEq, Repr

namespace SessionEvent

def severity : SessionEvent → Severity
  | tableMagic _ _ | tableLength _ | blockMagic _ _ | blockLength _ | blockFull _
  | tableCorrupt _ | blockNotListed _ | blockCorrupt _ | slotOverlaps _ _ | imageRejected
  | slotDiffers _ _ => .error
  | slotProtected _ _ | actionUnsupported _ => .warn
  | _ => .info

def text : SessionEvent → String
  | tableMagic found expected =>
    "Bad SPT magic number " ++ Text.hexPadded 8 found.toNat ++ ", expected " ++
      Text.hexPadded 8 expected.toNat
  | tableLength entries => s!"SPT lists {entries} entries"
  | blockMagic found expected =>
    "Bad CPB magic number " ++ Text.hexPadded 8 found.toNat ++ ", expected " ++
      Text.hexPadded 8 expected.toNat
  | blockLength slots => s!"CPB lists {slots} slots"
  | blockFull pointer => "CPB has no free pointer for " ++ Text.hex pointer.toNat
  | tablesLocated first second =>
    "SPT0 at " ++ Text.hexPadded 8 first.toNat ++ ", SPT1 at " ++ Text.hexPadded 8 second.toNat
  | tableCorrupt offset => "SPT0 at " ++ Text.hex offset.toNat ++ " is corrupt"
  | blockNotListed name => s!"No {name} entry in the SPT"
  | blockCorrupt offset => "CPB at " ++ Text.hex offset.toNat ++ " is corrupt"
  | tableSaved entries => s!"Saved SPT with {entries} entries"
  | blockSaved offset => "Saved CPB at " ++ Text.hex offset.toNat
  | restoringTable => "Restoring SPT"
  | restoringBlock => "Restoring CPB"
  | creatingBlock => "Creating empty CPB"
  | slotProtected slot name => s!"Slot {slot} ({name}) is protected"
  | slotOverlaps name other => s!"Slot {name} overlaps {other}"
  | slotCreated slot name offset size =>
    s!"Created slot {slot} ({name}) at " ++ Text.hex offset.toNat ++ ", " ++
      Text.hex size.toNat ++ " bytes"
  | slotDeleted slot name => s!"Deleted slot {slot} ({name})"
  | slotRenamed slot old new => s!"Renamed slot {slot} from {old} to {new}"
  | slotDisabled slot name => s!"Disabled slot {slot} ({name})"
  | slotEnabled slot name => s!"Enabled slot {slot} ({name})"
  | slotErased slot name => s!"Erased slot {slot} ({name})"
  | imageRejected => "Image header rejected"
  | slotProgrammed slot name bytes =>
    s!"Programmed slot {slot} ({name}) with " ++ Text.hex bytes ++ " bytes"
  | slotDiffers name offset => s!"{name} differs at " ++ Text.hex offset
  | slotLoading slot name => s!"Loading slot {slot} ({name}) after reboot"
  | factoryLoading => "Loading factory image after reboot"
  | actionUnsupported action =>
    "Firmware does not support notify action " ++ Text.hex action.toNat
  | errorCleared => "Cleared error status"
  | retriesReset => "Reset retry counter"

end SessionEvent

/-- Anything that is worth a line in the log. -/
inductive Event where
  /-- From the mailbox driver. -/
  | mailbox (e : MailboxEvent)
  /-- From the emulated device manager. -/
  | device (e : DeviceEvent)
  /-- From a session or from one of its tables. -/
  | session (e : SessionEvent)
  /-- A flash device has been given its first tables. -/
  | formatted (partitions slots : Nat)
  /-- A flash image file did not exist and is being formatted. -/
  | formattingNew (path : String)
deriving DecidableEq, Repr

namespace Event

/-- How important the event is. -/
def severity : Event → Severity
  | mailbox e => e.severity
  | device e => e.severity
  | session e => e.severity
  | formatted _ _ | formattingNew _ => .info

/-- The event in words, behind the name of the part that it comes from. -/
def text : Event → String
  | mailbox e => "[sdm-mbox] " ++ e.text
  | device e => "[sdm-emu] " ++ e.text
  | session e => "[rsu] " ++ e.text
  | formatted partitions slots =>
    s!"[rsu-flash] Formatted {partitions} partitions, {slots} CPB slots"
  | formattingNew path => s!"Formatting new flash image {path}"

/-- The line of the event in the log. -/
def line (e : Event) : String :=
  e.severity.label ++ " " ++ e.text

end Event

/-- The events of a run, oldest first. -/
abbrev Log := Array Event

/-- Programs that log and may be aborted. -/
abbrev LogM := StateT Log Option

/-- Adds an event to the log. -/
def emit (e : Event) : LogM Unit :=
  modify (·.push e)

/-- Ends the program without a result. -/
def abort {α : Type} : LogM α :=
  fun _ => none

/-- Goes on with the value if there is one, and aborts otherwise. -/
def orAbort {α : Type} : Option α → LogM α
  | some a => pure a
  | none => abort

/-- Runs a program on one part of a larger state. -/
def focus {σ τ α : Type} (get : τ → σ) (set : σ → τ → τ) (x : StateT σ LogM α) :
    StateT τ LogM α := fun t => do
  let (a, s) ← x (get t)
  return (a, set s t)

end RemoteUpdate
