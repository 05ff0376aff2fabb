import RemoteUpdate.Session.Slots
import RemoteUpdate.Text.Number

/-!
# What can be asked for on the command line

A `Request` is one command with its arguments. `Signature` tells how a command is written: its name, what
its arguments may be, and the request that they make.
-/

namespace RemoteUpdate.CommandLine

open Session (ImageKind)

/-- One command with its arguments. -/
inductive Request where
  | format (slots : Nat)
  | list
  | update (offset : UInt64)
  | slotCount
  | slotByName (name : String)
  | slotInfo (slot : Nat)
  | slotSize (slot : Nat)
  | slotPriority (slot : Nat)
  | eraseSlot (slot : Nat)
  | programSlot (kind : ImageKind) (slot : Nat) (image : String)
  | verifySlot (kind : ImageKind) (slot : Nat) (image : String)
  | enableSlot (slot : Nat)
  | disableSlot (slot : Nat)
  | loadSlot (slot : Nat)
  | loadFactory
  | renameSlot (slot : Nat) (name : String)
  | deleteSlot (slot : Nat)
  | createSlot (name : String) (offset : UInt64) (size : UInt32)
  | status
  | notify (stage : UInt32)
  | clearError
  | resetRetries
  | decisionVersions
  | decisionStates
  | maxRetry
  | createEmptyBlock
  | restoreBlock (file : String)
  | saveBlock (file : String)
  | restoreTable (file : String)
  | saveTable (file : String)
  | runningFactory
deriving DecidableEq, Repr

/-- The file next to the flash device that a request reads or writes. -/
def Request.file? : Request → Option String
  | programSlot _ _ file | verifySlot _ _ file | restoreBlock file | saveBlock file
  | restoreTable file | saveTable file => some file
  | _ => none

/-- Which log lines are shown. -/
inductive LogLevel where
  | off
  | error
  | warn
  | info
  | debug
  | trace
deriving DecidableEq, Repr

namespace LogLevel

def all : List LogLevel := [off, error, warn, info, debug, trace]

def label : LogLevel → String
  | off => "OFF"
  | error => "ERROR"
  | warn => "WARN"
  | info => "INFO"
  | debug => "DEBUG"
  | trace => "TRACE"

/-- The level of a name, in either case. -/
def ofLabel? (s : String) : Option LogLevel :=
  all.find? fun l => l.label == s.map Char.toUpper

/-- Lines of this severity are shown. -/
def shows : LogLevel → Severity → Bool
  | off, _ => false
  | error, s => s == .error
  | warn, s => s == .error || s == .warn
  | info, s => s != .debug
  | debug, _ | trace, _ => true

end LogLevel

/-! ### Arguments -/

/-- What an argument may be. -/
inductive ValueKind where
  | text
  /-- Text that is not empty. -/
  | path
  | level
  /-- A decimal number below a bound. -/
  | decimal (bound : Nat)
  /-- A number below a bound. -/
  | number (bound : Nat)
deriving DecidableEq, Repr

/-- An argument that has been read. -/
inductive Value where
  | text (s : String)
  | number (n : Nat)
  | level (l : LogLevel)
deriving DecidableEq, Repr

/-- An option that takes a value. -/
structure OptionSpec where
  long : String
  short : Option Char := none
  kind : ValueKind
deriving DecidableEq, Repr

/-- How a command is written. -/
structure Signature where
  name : String
  options : List OptionSpec := []
  positionals : List ValueKind := []
  /-- The request, from the options given by name and the positional arguments. -/
  build : List (String × Value) → List Value → Option Request

namespace Signature

/-- A number of machine size. -/
def sizeKind : ValueKind := .number UInt64.size

/-- A command without arguments. -/
def plain (name : String) (r : Request) : Signature where
  name
  build _ _ := some r

/-- A command that takes a number below a bound. -/
def onNumber (name : String) (bound : Nat) (r : Nat → Request) : Signature where
  name
  positionals := [.number bound]
  build
    | _, [.number n] => some (r n)
    | _, _ => none

/-- A command that takes a slot. -/
def onSlot (name : String) (r : Nat → Request) : Signature :=
  onNumber name UInt64.size r

/-- A command that takes a file. -/
def onFile (name : String) (r : String → Request) : Signature where
  name
  positionals := [.path]
  build
    | _, [.text s] => some (r s)
    | _, _ => none

/-- A command that takes a slot and the file of an image. -/
def onImage (name : String) (r : Nat → String → Request) : Signature where
  name
  positionals := [sizeKind, .path]
  build
    | _, [.number n, .text s] => some (r n s)
    | _, _ => none

def all : List Signature := [
  { name := "format"
    options := [{ long := "cpb_slots", kind := .decimal UInt64.size }]
    build
      | options, _ => match options.lookup "cpb_slots" with
        | some (.number n) => some (.format n)
        | _ => some (.format maxPointers) },
  plain "list" .list,
  onNumber "update" UInt64.size (.update <| .ofNat ·),
  plain "slot_count" .slotCount,
  { name := "slot_by_name"
    positionals := [.text]
    build
      | _, [.text s] => some (.slotByName s)
      | _, _ => none },
  onSlot "slot_get_info" .slotInfo,
  onSlot "slot_size" .slotSize,
  onSlot "slot_priority" .slotPriority,
  onSlot "slot_erase" .eraseSlot,
  onImage "slot_program_buf" (.programSlot .application),
  onImage "slot_program_factory_update_buf" (.programSlot .factoryUpdate),
  onImage "slot_program_buf_raw" (.programSlot .raw),
  onImage "slot_verify_buf" (.verifySlot .application),
  onImage "slot_verify_buf_raw" (.verifySlot .raw),
  onSlot "slot_enable" .enableSlot,
  onSlot "slot_disable" .disableSlot,
  onSlot "slot_load" .loadSlot,
  plain "slot_load_factory" .loadFactory,
  { name := "slot_rename"
    positionals := [sizeKind, .text]
    build
      | _, [.number n, .text s] => some (.renameSlot n s)
      | _, _ => none },
  onSlot "slot_delete" .deleteSlot,
  { name := "slot_create"
    positionals := [.text, .number UInt64.size, .number UInt32.size]
    build
      | _, [.text s, .number offset, .number size] =>
        some (.createSlot s (.ofNat offset) (.ofNat size))
      | _, _ => none },
  plain "status_log" .status,
  onNumber "notify" UInt32.size (.notify <| .ofNat ·),
  plain "clear_error_status" .clearError,
  plain "reset_retry_counter" .resetRetries,
  plain "display_dcmf_version" .decisionVersions,
  plain "display_dcmf_status" .decisionStates,
  plain "display_max_retry" .maxRetry,
  plain "create_empty_cpb" .createEmptyBlock,
  onFile "restore_cpb" .restoreBlock,
  onFile "save_cpb" .saveBlock,
  onFile "restore_spt" .restoreTable,
  onFile "save_spt" .saveTable,
  plain "check_running_factory" .runningFactory]

def find? (name : String) : Option Signature :=
  all.find? (·.name == name)

end Signature

end RemoteUpdate.CommandLine
