import RemoteUpdate.Mailbox.Exchange
import RemoteUpdate.Mailbox.Report

/-!
# Requests

The commands of the device manager as typed requests: each sends its command, checks that the answer
carries enough words, and decodes it. Only opening the flash controller keeps something for later, the
reference clock, and so works on a `Channel`.
-/

namespace RemoteUpdate

/-- Words in the answer that tells where the partition tables are. -/
def subpartitionWords : Nat := 4

/-- A register block, and the reference clock of the flash controller once that has been opened. -/
structure Channel (ρ : Type) where
  registers : ρ
  referenceClock : Option UInt32 := none

namespace Channel

variable {ρ : Type}

/-- Runs a program on the registers of the channel. -/
def onRegisters {α : Type} (x : RegisterM ρ α) : StateT (Channel ρ) LogM α :=
  focus registers (fun r c => { c with registers := r }) x

end Channel

namespace Mailbox

variable {ρ : Type} [RegisterBlock ρ]

/-- Fails if an answer of `actual` words is too short. -/
def expectWords (_ : Mailbox ρ) (expected actual : Nat) : MailboxM ρ Unit :=
  if actual < expected then throw (.shortResponse expected actual) else pure ()

/-- Sends a command whose answer carries nothing of interest. -/
def order (m : Mailbox ρ) (command : Command) (arguments : List UInt32) : MailboxM ρ Unit :=
  discard <| m.request command arguments noData

def restart (m : Mailbox ρ) : MailboxM ρ Unit := do
  let (result, _) ← m.send Command.restart.opcode [] true noData
  match result with
  | .ok _ => return ()
  | .error e => throw e

/-- Hands the flash controller back. -/
def closeController (m : Mailbox ρ) : MailboxM ρ Unit :=
  m.order .qspiClose []

/-- Opens the flash controller. An open that fails is tried once more after a close. -/
def reopenController (m : Mailbox ρ) : MailboxM ρ Unit := do
  match ← outcome (m.order .qspiOpen []) with
  | .ok () => return ()
  | .error e =>
    m.log (.controllerReopening e)
    m.closeController
    m.order .qspiOpen []

/-- Asks for direct access to the flash. The answer is the reference clock. -/
def directAccess (m : Mailbox ρ) : MailboxM ρ UInt32 := do
  let (count, words) ← m.request .qspiDirect [] (.replicate 1 0)
  m.expectWords 1 count
  return words[0]

/-- Takes over the flash controller and returns its reference clock. If direct access fails, the controller
is closed again. -/
def takeController (m : Mailbox ρ) : MailboxM ρ UInt32 := do
  m.reopenController
  match ← outcome m.directAccess with
  | .ok hz =>
    m.log (.referenceClock hz)
    return hz
  | .error e =>
    -- the failure of direct access is what the caller hears of
    discard <| outcome m.closeController
    throw e

/-- As `takeController`, keeping the reference clock. -/
def openController (m : Mailbox ρ) :
    ExceptT MailboxError (StateT (Channel ρ) LogM) UInt32 := do
  let hz ← ExceptT.mk (Channel.onRegisters m.takeController.run)
  modify fun c => { c with referenceClock := some hz }
  return hz

/-- The four words that tell where the partition tables are. -/
def subpartitionTable (m : Mailbox ρ) : MailboxM ρ (Vector UInt32 subpartitionWords) := do
  let (count, words) ← m.request .subpartitionTable [] (.replicate subpartitionWords 0)
  m.expectWords subpartitionWords count
  return words

def updateStatus (m : Mailbox ρ) : MailboxM ρ UpdateStatus := do
  let (count, words) ← m.request .updateStatus [] ({} : UpdateStatus).toWords
  m.log (.statusReceived count)
  return (UpdateStatus.ofWords words).raiseLegacyVersion

/-- Asks for the image at a flash offset to be loaded on the next reset. -/
def requestUpdate (m : Mailbox ρ) (offset : UInt64) : MailboxM ρ Unit := do
  m.log (.updateRequested offset)
  m.order .update [lowWord offset, highWord offset]

/-- Reports an execution stage or asks for an action. -/
def notifyStage (m : Mailbox ρ) (value : UInt32) : MailboxM ρ Unit :=
  m.order .stageNotify [value]

def reboot (m : Mailbox ρ) : MailboxM ρ Unit := do
  m.log .rebootRequested
  m.order .reboot []

def deviceInfo (m : Mailbox ρ) : MailboxM ρ DeviceInfo := do
  let (count, words) ← m.request .deviceInfo [] (.replicate deviceInfoWords 0)
  m.expectWords deviceInfoWords count
  return .ofWords words

/-- What a configuration report says, once it has at least four words. -/
def fabricState (words : Vector UInt32 configStatusWords) : Except MailboxError FabricState :=
  let state := words[0]
  let pins := words[2]
  let soft := words[3]
  let done := ConfigFlag.configDone ||| ConfigFlag.initDone
  if state ≠ ConfigState.idle ∧ state ≠ ConfigState.configuring then .error (.configuration state)
  else if pins &&& ConfigFlag.statusPin = 0 then .error .hardware
  else if soft &&& ConfigFlag.upset ≠ 0 then .error .hardware
  else if soft &&& done = done ∧ state = ConfigState.idle then .ok .done
  else .ok .configuring

/-- Asks, by one of the two commands for it, how far configuration of the fabric has come. -/
def configState (m : Mailbox ρ) (opcode : UInt32) : MailboxM ρ FabricState := do
  unless opcode = Command.configStatus.opcode ∨ opcode = Command.reconfigStatus.opcode do
    throw .invalidArgument
  let (result, words) ← m.send opcode [] false (Vector.replicate configStatusWords 0)
  match result with
  | .error e => throw e
  | .ok count =>
    m.expectWords 4 count
    match fabricState words with
    | .error e => throw e
    | .ok state => return state

end Mailbox

end RemoteUpdate
