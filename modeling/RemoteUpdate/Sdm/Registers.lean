import RemoteUpdate.Mailbox.RegisterBlock
import RemoteUpdate.Sdm.Firmware

/-!
# The registers of an emulated device manager

What the registers do. Moving the host's cursor of the response ring lets waiting responses in; ringing
the doorbell starts an urgent command, or the consumption of the command ring, at once or some ticks
later. Time passes in ticks, one for each delay of the host.
-/

namespace RemoteUpdate.EmulatedSdm

/-- The doorbell to the host is rung, unless it gets lost. -/
def raiseDoorbell (s : EmulatedSdm) : EmulatedSdm :=
  match s.lostDoorbells with
  | none => s
  | some 0 => { s with doorbell := 1 }
  | some (n + 1) => { s with lostDoorbells := some n }

/-- Words go from the outbox into the response ring as long as it has room. -/
def deliver (s : EmulatedSdm) : List UInt32 → EmulatedSdm
  | [] => { s with outbox := [] }
  | word :: rest =>
    if 0 < s.responseRing.free s.rin s.rout then
      deliver { s with
        responseCells := s.responseCells.setIfInBounds s.rin word
        rin := s.responseRing.next s.rin } rest
    else { s with outbox := word :: rest }

/-- Publishes what the response ring has room for, and rings if that was anything. -/
def publish : StateT EmulatedSdm LogM Unit := do
  let s ← get
  let free ← orAbort (s.responseRing.whenSlotted (s.responseRing.free s.rin s.rout))
  let published := 0 < free && !s.outbox.isEmpty
  let s := s.deliver s.outbox
  set (if published then s.raiseDoorbell else s)

/-- Takes one word out of the command ring, and executes the command that it completes. -/
def consumeWord : StateT EmulatedSdm LogM Unit := do
  let s ← get
  let word := s.commandCells.getD s.cout 0
  let command : LoggedCommand := match s.partialCommand with
    | some c => { c with arguments := c.arguments ++ [word] }
    | none => ⟨⟨word⟩, []⟩
  let s := { s with cout := s.commandRing.next s.cout, partialCommand := none }
  if command.arguments.length < command.header.length then
    set { s with partialCommand := some command }
  else
    set s
    execute command

/-- Takes so many words out of the command ring. -/
def consumeWords : Nat → StateT EmulatedSdm LogM Unit
  | 0 => pure ()
  | count + 1 => do
    consumeWord
    consumeWords count

/-- Empties the command ring and publishes the answers. -/
def consume : StateT EmulatedSdm LogM Unit := do
  let s ← get
  consumeWords (s.commandRing.pending s.cin s.cout)
  publish

/-- Accepts the urgent command. A restart forgets all that is under way. -/
def acceptUrgent : StateT EmulatedSdm LogM Unit := do
  let s ← get
  note (.urgentReceived s.urgent)
  let s := { s with urgentCount := s.urgentCount + 1 }
  let s := if s.urgent = Command.restart.opcode then
      { s with partialCommand := none, outbox := [], countdown := none, interrupts := 0 }
    else s
  let s := { s with urgent := 0 }
  let s := if s.acknowledgeFrozen then s
    else { s with status := s.status ^^^ urgentAcknowledge }
  set s.raiseDoorbell

/-- The host rings the doorbell. -/
def onDoorbell : StateT EmulatedSdm LogM Unit := do
  let s ← get
  if s.urgent ≠ 0 then acceptUrgent
  else
    let free ← orAbort (s.commandRing.whenSlotted (s.commandRing.free s.cin s.cout))
    if free = 0 then
      modify fun s => { s with overflowDoorbells := s.overflowDoorbells + 1 }
    if s.consumeDelay = 0 then consume
    else if s.countdown.isNone then
      modify fun s => { s with countdown := some s.consumeDelay }

def tick : StateT EmulatedSdm LogM Unit := do
  let s ← get
  match s.countdown with
  | some 0 | some 1 =>
    set { s with countdown := none }
    consume
  | some (n + 2) => set { s with countdown := some (n + 1) }
  | none => pure ()
  publish

/-- The index of the slot at an offset, in a ring of slots from `start` to `stop`. -/
def slotIndex? (start stop offset : UInt32) : Option Nat :=
  if start ≤ offset ∧ offset < stop then some ((offset - start) / 4).toNat else none

/-- The index of the command slot at an offset. -/
def commandIndex? (s : EmulatedSdm) (offset : UInt32) : Option Nat :=
  slotIndex? s.map.commandBuffer (s.map.commandSlot s.map.commandSlots) offset

/-- The index of the response slot at an offset. -/
def responseIndex? (s : EmulatedSdm) (offset : UInt32) : Option Nat :=
  slotIndex? s.map.responseBuffer (s.map.responseSlot s.map.responseSlots) offset

def readRegister (s : EmulatedSdm) (offset : UInt32) : UInt32 :=
  if offset = s.map.commandIn then .ofNat s.cin
  else if offset = s.map.responseOut then .ofNat s.rout
  else if offset = s.map.urgent then s.urgent
  else if offset = s.map.interrupts then s.interrupts
  else if offset = s.map.commandOut then .ofNat s.cout
  else if offset = s.map.responseIn then .ofNat s.rin
  else if offset = s.map.status then s.status
  else if offset = s.map.doorbellFromSdm then s.doorbell
  else if offset = s.map.doorbellToSdm then 0
  else
    match s.commandIndex? offset, s.responseIndex? offset with
    | some i, _ => s.commandCells.getD i 0
    | none, some i => s.responseCells.getD i 0
    | none, none => 0

def writeRegister (offset value : UInt32) : StateT EmulatedSdm LogM Unit := do
  let s ← get
  if offset = s.map.commandIn then
    let cin ← orAbort (s.commandRing.whenSlotted (s.commandRing.wrap value.toNat))
    set { s with cin }
  else if offset = s.map.responseOut then
    let rout ← orAbort (s.responseRing.whenSlotted (s.responseRing.wrap value.toNat))
    set { s with rout }
    publish
  else if offset = s.map.urgent then set { s with urgent := value }
  else if offset = s.map.interrupts then set { s with interrupts := value }
  else if offset = s.map.doorbellFromSdm then set { s with doorbell := value }
  else if offset = s.map.doorbellToSdm then
    if value &&& 1 ≠ 0 then onDoorbell
  else
    match s.commandIndex? offset with
    | some i => set { s with commandCells := s.commandCells.setIfInBounds i value }
    | none => note (.writeIgnored value offset)

end RemoteUpdate.EmulatedSdm

namespace RemoteUpdate

instance : RegisterBlock EmulatedSdm where
  read offset := return (← get).readRegister offset
  write := EmulatedSdm.writeRegister
  delay _ := EmulatedSdm.tick

end RemoteUpdate
