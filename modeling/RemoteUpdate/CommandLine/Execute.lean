import RemoteUpdate.CommandLine.Usage
import RemoteUpdate.Host.FileFlash
import RemoteUpdate.Sdm.Registers
import RemoteUpdate.Session.Status

/-!
# Carrying out a command

A command runs on a flash device kept in a file, with an emulated device manager that has just been
switched on. Its result is the text to print, or a message that tells what went wrong.
-/

namespace RemoteUpdate.CommandLine

/-- What a command works on. -/
abbrev Bench := SessionState EmulatedSdm FileFlash

/-- A flash device next to a device manager that has just been switched on. -/
def Bench.switchedOn (flash : FileFlash) : Bench where
  channel := { registers := .fresh {} }
  flash

/-- Programs that end with a message if they fail. -/
abbrev RunM := ExceptT String (StateT Bench LogM)

/-- Fails with what went wrong, and with the message of the failure. -/
def context {ε α : Type} (message : ε → String) (what : String) : Except ε α → Except String α
  | .ok a => .ok a
  | .error e => .error (what ++ ": " ++ message e)

/-- Runs a program of the session. -/
def inSession {α : Type} (x : SessionM EmulatedSdm FileFlash α) : RunM α :=
  ExceptT.mk do return (← x.run).mapError UpdateError.message

def readFile (path : String) : RunM (List UInt8) := do
  let store := (← get).flash.store
  let r := context FileError.message ("failed to read " ++ path) (store.read path)
  ExceptT.mk (pure (r.map fun contents => contents.data.toList))

/-- Makes or replaces a file. -/
def writeFile (path : String) (bytes : List UInt8) : RunM Unit := do
  let store := (← get).flash.store
  let r := store.write path ⟨bytes.toArray⟩
  let store ← ExceptT.mk (pure (context FileError.message ("failed to write " ++ path) r))
  modify fun b => { b with flash := { b.flash with store } }

/-- Formats the device with the standard layout. -/
def format (slots : Nat) : RunM Unit := do
  if slots = 0 ∨ maxPointers < slots then
    throw s!"CPB slot count must be between 1 and {maxPointers}"
  let plan ← inSession (Session.require FlashPlan.standard)
  inSession <| ExceptT.mk <| focus SessionState.flash (fun flash b => { b with flash })
    (plan.withSlots slots).format.run

/-! ### What is printed -/

def asLines (l : List String) : String :=
  String.join (l.map (· ++ "\n"))

def statusLines (s : UpdateStatus) : List String :=
  [ "Current Image\t: " ++ Text.hexPadded 8 s.currentImage.toNat,
    "Last Fail Image\t: " ++ Text.hexPadded 8 s.failImage.toNat,
    "State\t\t: " ++ Text.hexPadded 8 s.state.toNat,
    "Version\t\t: " ++ Text.hexPadded 8 s.version.toNat,
    "Error location\t: " ++ Text.hexPadded 8 s.errorLocation.toNat,
    "Error details\t: " ++ Text.hexPadded 8 s.errorDetails.toNat ] ++
  if s.version = 0 then [] else ["Retry counter\t: " ++ Text.hexPadded 8 s.retryCounter.toNat]

/-- An entry of the partition table. -/
def entryLine (e : PartitionEntry) : String :=
  Text.padLeft 16 ' ' e.nameText ++ "\tOffset: " ++ Text.hexPadded 16 e.offset.toNat ++
    "\tLength: " ++ Text.hexPadded 8 e.length.toNat ++ "\tFlag: " ++ Text.hexPadded 8 e.flags.toNat

def priorityLines (b : PointerBlock) : List String :=
  (b.priorities.zip b.order).zipIdx.map fun ((pointer, slot), i) =>
    s!"Priority {i + 1} Offset: " ++ Text.hexPadded 16 pointer.toNat ++ s!" nslot: {slot}"

/-- The status and both tables, with where they are. -/
def listLines (status : UpdateStatus) (tableOffsets : UInt64 × UInt64) (blockOffset : UInt64)
    (table : PartitionTable) (block : PointerBlock) : List String :=
  statusLines status ++
    [ "Sub-partition table 0 offset " ++ Text.hexPadded 8 tableOffsets.1.toNat,
      "Sub-partition table 1 offset " ++ Text.hexPadded 8 tableOffsets.2.toNat ] ++
    table.listed.map entryLine ++
    ["CMF pointer block offset " ++ Text.hexPadded 8 blockOffset.toNat] ++
    priorityLines block

/-- What is known about a slot. -/
def slotLines (i : Session.SlotInfo) : List String :=
  [ "NAME: " ++ i.name,
    "OFFSET: " ++ Text.hexCapitals 16 i.offset.toNat,
    "SIZE: " ++ Text.hexCapitals 8 i.size.toNat,
    "PRIORITY: " ++ if i.priority = 0 then "[disabled]" else toString i.priority ]

def versionLine (word : UInt32) (copy : Nat) : String :=
  let field (f : BitField) := f.get word
  s!"DCMF{copy} version = {field DecisionField.major}.{field DecisionField.minor}." ++
    toString (field DecisionField.update)

def stateLine (state : UInt16) (copy : Nat) : String :=
  s!"DCMF{copy}: " ++ if state = 0 then "OK" else "Corrupted"

/-- What is said about an image that has been programmed. -/
def programmedLine (kind : Session.ImageKind) (slot bytes : Nat) : String :=
  s!"Slot {slot} was programmed with " ++ match kind with
    | .application => s!"{bytes} bytes."
    | .factoryUpdate => s!"a {bytes} byte factory update."
    | .raw => s!"{bytes} raw bytes."

/-! ### Commands -/

/-- Carries out a request, and returns the lines to print. -/
def execute (c : Session EmulatedSdm) : Request → RunM (List String)
  | .format slots => do
    format slots
    return [s!"Formatted with {slots} CPB slots."]
  | .list => do
    let (status, blockOffset) ← inSession c.survey
    let b ← get
    return listLines status c.tableOffsets blockOffset b.table b.block
  | .update offset => do
    inSession (c.update offset)
    return ["RSU update to " ++ Text.hexPadded 16 offset.toNat ++ "."]
  | .slotCount => do
    let count ← inSession c.slotCount
    return [s!"Number of slots = {count}."]
  | .slotByName name => do
    let slot ← inSession (c.slotByName name)
    return ["Slot name " ++ name ++ s!" is {slot}."]
  | .slotInfo slot => do
    return slotLines (← inSession (c.slotInfo slot))
  | .slotSize slot => do
    let size ← inSession (c.slotSize slot)
    return [s!"Slot {slot} size = {size}."]
  | .slotPriority slot => do
    let priority ← inSession (c.slotPriority slot)
    return [s!"Slot {slot} priority = {priority}."]
  | .eraseSlot slot => do
    inSession (c.eraseSlot slot)
    return [s!"Slot {slot} erased."]
  | .programSlot kind slot image => do
    let bytes ← readFile image
    inSession (c.programSlot kind slot bytes)
    return [programmedLine kind slot bytes.length]
  | .verifySlot kind slot image => do
    let bytes ← readFile image
    inSession (c.verifySlot kind slot bytes)
    return [s!"Slot {slot} was verified with " ++ image ++ "."]
  | .enableSlot slot => do
    inSession (c.enableSlot slot)
    return [s!"Slot {slot} enabled."]
  | .disableSlot slot => do
    inSession (c.disableSlot slot)
    return [s!"Slot {slot} disabled."]
  | .loadSlot slot => do
    inSession (c.loadSlot slot)
    return [s!"Slot {slot} loading."]
  | .loadFactory => do
    inSession c.loadFactory
    return ["Factory image loading."]
  | .renameSlot slot name => do
    inSession (c.renameSlot slot name)
    return [s!"Slot {slot} renamed to " ++ name ++ "."]
  | .deleteSlot slot => do
    inSession (c.deleteSlot slot)
    return [s!"Slot {slot} deleted."]
  | .createSlot name offset size => do
    let slot ← inSession (c.createSlot name offset size)
    return [s!"Slot {slot} created as " ++ name ++ " at " ++ Text.hexPadded 8 offset.toNat ++
      " with size " ++ Text.hex size.toNat ++ "."]
  | .status => do
    return statusLines (← inSession c.status)
  | .notify stage => do
    inSession (c.notify stage)
    return []
  | .clearError => do
    inSession c.clearError
    return []
  | .resetRetries => do
    inSession c.resetRetries
    return []
  | .decisionVersions => do
    return (← inSession c.deviceInfo).versions.toList.zipIdx.map fun (v, i) => versionLine v i
  | .decisionStates => do
    return (← inSession c.deviceInfo).status.toList.zipIdx.map fun (s, i) => stateLine s i
  | .maxRetry => do
    let retries := (← inSession c.deviceInfo).maxRetry
    return [s!"max_retry = {retries}"]
  | .createEmptyBlock => do
    inSession c.createEmptyBlock
    return []
  | .restoreBlock file => do
    inSession (c.restoreBlock (← readFile file))
    return []
  | .saveBlock file => do
    writeFile file (← inSession (c.exportBlock tableSize))
    return []
  | .restoreTable file => do
    inSession (c.restoreTable (← readFile file))
    return []
  | .saveTable file => do
    writeFile file (← inSession (c.exportTable tableSize))
    return []
  | .runningFactory => do
    return ["Running factory image: " ++ if ← inSession c.runningFactory then "yes" else "no"]

/-- Carries out a request, and returns the text to print. -/
def answer (c : Session EmulatedSdm) (request : Request) : RunM String := do
  return asLines (← execute c request)

/-- Brings up the mailbox and opens a session. -/
def openSession : RunM (Session EmulatedSdm) := do
  let mailbox : Mailbox EmulatedSdm := {}
  let onChannel {α : Type} (x : StateT (Channel EmulatedSdm) LogM α) : StateT Bench LogM α :=
    focus SessionState.channel (fun channel b => { b with channel }) x
  ExceptT.mk do
    let r ← onChannel (Channel.onRegisters mailbox.init.run)
    return context MailboxError.message "mailbox init failed" r
  ExceptT.mk do
    return (← onChannel (Session.start mailbox {}).run).mapError UpdateError.message

/-- Carries out a request in a new session, on a device that is formatted first if its file has just been
made. -/
def runOn (i : Invocation) (fresh : Bool) : RunM String := do
  if fresh then
    emit (.formattingNew i.flash)
    format maxPointers
  answer (← openSession) i.request

/-- Opens the flash device and carries out a command on it. Returns the text to print or a message, and
the files afterwards. -/
def run (i : Invocation) (store : FileStore) : LogM (Except String String × FileStore) := do
  match context FileError.message ("failed to open flash image " ++ i.flash)
      (FileFlash.open? store i.flash i.flashSize) with
  | .error e => return (.error e, store)
  | .ok flash =>
    let (r, bench) ← (runOn i (!store.hasPath i.flash)).run (Bench.switchedOn flash)
    return (r, bench.flash.store)

end RemoteUpdate.CommandLine
