import RemoteUpdate.Event
import RemoteUpdate.Sdm.State

/-!
# Firmware of an emulated device manager

How a command that has arrived whole is answered. Stray responses come first; an injected busy answer
or failure takes the place of execution; otherwise `handle` carries the command out. Answers go to the
outbox.
-/

namespace RemoteUpdate.EmulatedSdm

/-- Logs an event of the device. -/
def note (e : DeviceEvent) : StateT EmulatedSdm LogM Unit :=
  emit (.device e)

/-- Puts an answer to a command into the outbox. -/
def respond (header : CommandHeader) (code : UInt32) (data : List UInt32) (s : EmulatedSdm) :
    EmulatedSdm :=
  let response := ResponseHeader.make header.client header.transaction data.length code
  { s with outbox := s.outbox ++ response.word :: data }

/-- A response of one word that does not answer the command: it belongs to the next transaction. -/
def respondStray (header : CommandHeader) (s : EmulatedSdm) : EmulatedSdm :=
  let stray := CommandHeader.make header.client ((header.transaction + 1) &&& 0xf) 0 false 0
  respond stray ResponseCode.ok.value [0xdeadbeef] s

/-- The code of the first planned failure of an opcode that is not used up, and the plan after it. -/
def takeFailure (opcode : UInt32) : List PlannedFailure → Option (UInt32 × List PlannedFailure)
  | [] => none
  | f :: rest =>
    if f.opcode = opcode ∧ 0 < f.remaining then
      some (f.code, { f with remaining := f.remaining - 1 } :: rest)
    else (takeFailure opcode rest).map fun r => (r.1, f :: r.2)

/-- The device manager after a stage notification. -/
def notified (value : UInt32) (s : EmulatedSdm) : EmulatedSdm :=
  let status := s.updateStatus
  let status := if value &&& Notify.clearError ≠ 0 then status.clearError else status
  let status :=
    if value &&& Notify.resetRetries ≠ 0 then { status with retryCounter := 0 } else status
  { s with
    updateStatus := status
    stages := if value &&& Notify.ignoreStage = 0 then s.stages ++ [value &&& Notify.stageMask]
      else s.stages }

/-- The device manager after a reboot: an image that was asked for is running. -/
def rebooted (s : EmulatedSdm) : EmulatedSdm :=
  let s := { s with reboots := s.reboots + 1 }
  match s.pendingUpdate with
  | some image =>
    { s with
      pendingUpdate := none
      updateStatus := { s.updateStatus with currentImage := image } }
  | none => s

/-- Carries out a command, and returns the code and the data of the answer. -/
def handle (opcode : UInt32) (arguments : List UInt32) :
    StateT EmulatedSdm LogM (ResponseCode × List UInt32) := do
  match Command.ofOpcode? opcode, arguments with
  | some .restart, _ => return (.ok, [])
  | some .configStatus, _ | some .reconfigStatus, _ =>
    return (.ok, (← get).configStatus.toList)
  | some .qspiOpen, _ =>
    modify fun s => { s with controllerOpen := true }
    return (.ok, [])
  | some .qspiClose, _ =>
    modify fun s => { s with controllerOpen := false }
    return (.ok, [])
  | some .qspiDirect, _ =>
    let s ← get
    if s.controllerOpen then return (.ok, [s.referenceClock]) else return (.error, [])
  | some .reboot, _ =>
    modify rebooted
    return (.ok, [])
  | some .subpartitionTable, _ => return (.ok, (← get).subpartitions.toList)
  | some .updateStatus, _ =>
    let s ← get
    return (.ok, s.updateStatus.toWords.toList.take s.statusWords)
  | some .update, low :: high :: _ =>
    modify fun s => { s with pendingUpdate := some (joinWords low high) }
    return (.ok, [])
  | some .stageNotify, value :: _ =>
    modify (notified value)
    return (.ok, [])
  | some .update, _ | some .stageNotify, _ =>
    note (.argumentsMissing opcode)
    return (.error, [])
  | some .deviceInfo, _ => return (.ok, (← get).deviceInfo.toWords.toList)
  | none, _ =>
    note (.commandUnknown opcode)
    return (.invalidCommand, [])

/-- Logs a command and answers it. -/
def execute (command : LoggedCommand) : StateT EmulatedSdm LogM Unit := do
  let header := command.header
  note (.commandReceived header.opcode command.arguments.length)
  modify fun s => { s with log := s.log.push command }
  modify fun s => { s.strays.repeat (respondStray header) s with strays := 0 }
  let s ← get
  if 0 < s.busy then
    set (respond header ResponseCode.deviceBusy.value [] { s with busy := s.busy - 1 })
  else
    match takeFailure header.opcode s.failures with
    | some (code, failures) => set (respond header code [] { s with failures })
    | none =>
      let (code, data) ← handle header.opcode command.arguments
      modify (respond header code.value data)

end RemoteUpdate.EmulatedSdm
