import RemoteUpdate.Mailbox.Cursor
import RemoteUpdate.Mailbox.RegisterBlock
import RemoteUpdate.Mailbox.RegisterMap
import RemoteUpdate.Mailbox.Wire

/-!
# Exchanging commands and responses

The host's side of the mailbox. A command goes into the command ring word by word, the doorbell is rung,
and the answer is collected from the response ring. Both rings are shared with a peer that may be slow,
busy or silent, so every wait has a budget of polls:

* `writeWord` waits for room in the command ring, at most `commandPolls` times for each word;
* `collect` waits for the doorbell and reads responses until one answers the command. Each look at the
  doorbell and each response dropped costs one unit of the budget `doorbellPolls`, which is what the
  recursion runs on;
* `readData` waits for each data word, at most `dataPolls` times.

`send` repeats an attempt that timed out or found the peer busy. Data words of an answer land in the
caller's buffer, from its start, even if the attempt fails later on.
-/

namespace RemoteUpdate

/-- Programs on a register block that may fail. -/
abbrev MailboxM (ρ : Type) := ExceptT MailboxError (RegisterM ρ)

/-- Runs a program and hands its failure on as a value. -/
def outcome {ρ α : Type} (x : MailboxM ρ α) : MailboxM ρ (Except MailboxError α) :=
  ExceptT.lift x.run

/-- A driver for a mailbox behind a register block of type `ρ`. -/
structure Mailbox (ρ : Type) where
  map : RegisterMap := {}
  timing : Timing := {}
  /-- The client under which commands are sent. -/
  client : UInt8 := hostClient
  /-- The transaction under which commands are sent. -/
  transaction : UInt8 := hostTransaction
deriving DecidableEq, Repr

/-- The outcome of one attempt at a command. -/
structure Attempt where
  /-- How many words were copied, or what went wrong. -/
  result : Except MailboxError Nat
  /-- The words copied to the start of the caller's buffer. -/
  copied : List UInt32 := []

/-- The buffer of a sender that expects no data words. -/
def noData : Vector UInt32 0 := #v[]

/-- The buffer with the words stored from its start on. -/
def overlay {n : Nat} (buffer : Vector UInt32 n) (words : List UInt32) : Vector UInt32 n :=
  let fresh := words.toArray
  .ofFn fun i => fresh.getD i buffer[i]

/-- What an answer code means to the sender of the command, with `copied` words delivered. -/
def resultOfCode (code : UInt32) (copied : Nat) : Except MailboxError Nat :=
  match ResponseCode.ofValue? code with
  | some .ok => .ok copied
  | some .deviceBusy => .error .busy
  | some .timeout => .error .timeout
  | some .invalidCommand => .error .unsupported
  | _ => .error (.firmware code)

namespace Mailbox

variable {ρ : Type}

def commandRing (m : Mailbox ρ) : Ring := ⟨m.map.commandSlots⟩
def responseRing (m : Mailbox ρ) : Ring := ⟨m.map.responseSlots⟩

def log (_ : Mailbox ρ) (e : MailboxEvent) : RegisterM ρ Unit :=
  emit (.mailbox e)

variable [RegisterBlock ρ]

def read (_ : Mailbox ρ) (offset : UInt32) : RegisterM ρ UInt32 :=
  RegisterBlock.read offset

def write (_ : Mailbox ρ) (offset value : UInt32) : RegisterM ρ Unit :=
  RegisterBlock.write offset value

def delay (_ : Mailbox ρ) (micros : Nat) : RegisterM ρ Unit :=
  RegisterBlock.delay micros

def cursor (m : Mailbox ρ) (ring : Ring) (offset : UInt32) : RegisterM ρ Nat := do
  let value ← m.read offset
  orAbort (ring.whenSlotted (ring.wrap value.toNat))

/-! ### Sending -/

/-- Writes a word at the producer cursor `cin` of the command ring once there is room, and returns the
cursor after it. While the ring is full the doorbell is rung once, so that the peer empties it. -/
def writeWord (m : Mailbox ρ) (cin : Nat) (word : UInt32) : MailboxM ρ Nat :=
  go m.timing.commandPolls false
where
  go : Nat → Bool → MailboxM ρ Nat
    | 0, _ => do
      m.log .commandRingFull
      throw .timeout
    | polls + 1, rung => do
      let cout ← m.read m.map.commandOut
      if ← orAbort (m.commandRing.whenSlotted (m.commandRing.isFull cin cout.toNat)) then
        unless rung do m.write m.map.doorbellToSdm 1
        m.delay m.timing.interval
        go polls true
      else
        let next := m.commandRing.next cin
        m.write (m.map.commandSlot cin) word
        m.write m.map.commandIn (.ofNat next)
        return next

/-- Writes words one after the other, and returns the cursor after the last. -/
def writeWords (m : Mailbox ρ) (cin : Nat) : List UInt32 → MailboxM ρ Nat
  | [] => return cin
  | word :: rest => do m.writeWords (← m.writeWord cin word) rest

/-- Puts a command with its arguments into the command ring and rings the doorbell. -/
def sendCommand (m : Mailbox ρ) (opcode : UInt32) (indirect : Bool) (arguments : List UInt32) :
    MailboxM ρ Unit := do
  if maxOpcode < opcode ∨ maxArguments < arguments.length then
    throw .invalidArgument
  let header := CommandHeader.make m.client m.transaction arguments.length indirect opcode
  let cin ← m.cursor m.commandRing m.map.commandIn
  discard <| m.writeWords cin (header.word :: arguments)
  -- the peer may have seen only the front of the command so far
  m.write m.map.doorbellToSdm 1
  m.log (.commandSent opcode arguments.length)

/-! ### Waiting -/

/-- Clears the doorbell if it is raised, and says whether it was. -/
def takeDoorbell (m : Mailbox ρ) : RegisterM ρ Bool := do
  if (← m.read m.map.doorbellFromSdm) &&& 1 = 0 then return false
  m.write m.map.doorbellFromSdm 0
  return true

/-- Waits for the doorbell and clears it. -/
def waitDoorbell (m : Mailbox ρ) : Nat → MailboxM ρ Unit
  | 0 => do
    m.log .doorbellTimeout
    throw .timeout
  | budget + 1 => do
    unless ← m.takeDoorbell do
      m.delay m.timing.interval
      m.waitDoorbell budget

/-- The consumer cursor of the response ring. -/
def responseCursor (m : Mailbox ρ) : RegisterM ρ Nat :=
  m.cursor m.responseRing m.map.responseOut

/-- The response ring holds a word that a consumer at `rout` has not taken. -/
def responsePending (m : Mailbox ρ) (rout : Nat) : RegisterM ρ Bool := do
  return (← m.cursor m.responseRing m.map.responseIn) != rout

/-- Waits for the doorbell, and says whether the response ring holds words. -/
def waitResponse (m : Mailbox ρ) : MailboxM ρ Bool := do
  m.waitDoorbell m.timing.doorbellPolls
  m.responsePending (← m.responseCursor)

/-- Takes the word at `rout` out of the response ring, and returns it with the cursor after it. -/
def readWord (m : Mailbox ρ) (rout : Nat) : RegisterM ρ (UInt32 × Nat) := do
  let word ← m.read (m.map.responseSlot rout)
  let next := m.responseRing.next rout
  m.write m.map.responseOut (.ofNat next)
  return (word, next)

/-- Waits for a word at `rout`, and says whether one came. -/
def waitWord (m : Mailbox ρ) (rout : Nat) : RegisterM ρ Bool :=
  go m.timing.dataPolls
where
  go : Nat → RegisterM ρ Bool
    | 0 => do
      m.log .dataTimeout
      return false
    | polls + 1 => do
      if ← m.responsePending rout then return true
      m.delay m.timing.interval
      go polls

/-- Takes so many words out of the response ring. Returns what it got, and the cursor after the last
word if none failed to come. -/
def readData (m : Mailbox ρ) (rout : Nat) : Nat → RegisterM ρ (List UInt32 × Option Nat)
  | 0 => return ([], some rout)
  | count + 1 => do
    unless ← m.waitWord rout do return ([], none)
    let (word, next) ← m.readWord rout
    let (rest, last) ← m.readData next count
    return (word :: rest, last)

/-! ### Attempts -/

/-- Sends a command through the urgent register and waits for the acknowledge bit to move. -/
def sendUrgent (m : Mailbox ρ) (opcode : UInt32) : MailboxM ρ Nat := do
  let before := (← m.read m.map.status) &&& urgentAcknowledge
  m.write m.map.urgent opcode
  m.write m.map.doorbellToSdm 1
  m.waitDoorbell m.timing.doorbellPolls
  let after := (← m.read m.map.status) &&& urgentAcknowledge
  if before = after then
    m.log (.urgentIgnored opcode)
    throw .notAcknowledged
  m.log (.urgentAcknowledged opcode)
  return 0

/-- The cursor to read responses at: the one given, as long as the response ring holds words. -/
def unread (m : Mailbox ρ) : Option Nat → RegisterM ρ (Option Nat)
  | none => return none
  | some rout => do if ← m.responsePending rout then return some rout else return none

/-- Takes the response at `rout` out of the response ring. Ends the attempt if the response answers the
command or is cut short, and returns the cursor after it otherwise. -/
def takeResponse (m : Mailbox ρ) (opcode : UInt32) (room rout : Nat) :
    RegisterM ρ (Except Attempt Nat) := do
  let (word, next) ← m.readWord rout
  let header : ResponseHeader := ⟨word⟩
  let (data, last) ← m.readData next header.length
  let copied := if header.answers m.client m.transaction then data.take room else []
  match last with
  | none => return .error { result := .error .timeout, copied }
  | some rout =>
    if header.answers m.client m.transaction then
      m.log (.responseReceived opcode header.code header.length)
      return .error { result := resultOfCode header.code copied.length, copied }
    m.log (.strayDropped word)
    return .ok rout

/-- Collects the answer to a command whose sender has room for `room` data words. With `reading` the
consumer cursor is known and responses are taken as long as there are any; without, or when they run
out, the doorbell decides. -/
def collect (m : Mailbox ρ) (opcode : UInt32) (room : Nat) :
    (budget : Nat) → (reading : Option Nat) → RegisterM ρ Attempt
  | 0, reading => do
    match ← m.unread reading with
    | some rout =>
      match ← m.takeResponse opcode room rout with
      | .error a => return a
      | .ok _ =>
        m.log (.onlyStrays opcode)
        return { result := .error .timeout }
    | none =>
      m.log .doorbellTimeout
      return { result := .error .timeout }
  | budget + 1, reading => do
    match ← m.unread reading with
    | some rout =>
      match ← m.takeResponse opcode room rout with
      | .error a => return a
      | .ok rout => m.collect opcode room budget (some rout)
    | none =>
      if ← m.takeDoorbell then
        m.collect opcode room budget (some (← m.responseCursor))
      else
        m.delay m.timing.interval
        m.collect opcode room budget none

/-- One attempt at sending a command and collecting its answer. -/
def attempt (m : Mailbox ρ) (opcode : UInt32) (arguments : List UInt32) (urgent : Bool)
    (room : Nat) : RegisterM ρ Attempt := do
  if urgent then
    return { result := ← (m.sendUrgent opcode).run }
  match ← (m.sendCommand opcode false arguments).run with
  | .error e => return { result := .error e }
  | .ok () => m.collect opcode room m.timing.doorbellPolls none

/-- Sends a command and collects its answer in `buffer`, trying again while the failure is transient.
Returns how many words were copied, and the buffer. -/
def send {n : Nat} (m : Mailbox ρ) (opcode : UInt32) (arguments : List UInt32) (urgent : Bool)
    (buffer : Vector UInt32 n) : RegisterM ρ (Except MailboxError Nat × Vector UInt32 n) :=
  go (m.timing.retries - 1) 1 buffer
where
  go : (more number : Nat) → Vector UInt32 n → RegisterM ρ (Except MailboxError Nat × Vector UInt32 n)
    | more, number, buffer => do
      let a ← m.attempt opcode arguments urgent n
      let buffer := overlay buffer a.copied
      match a.result with
      | .ok count => return (.ok count, buffer)
      | .error e =>
        unless e.isTransient do return (.error e, buffer)
        m.log (.attemptFailed opcode number e)
        m.delay m.timing.backoff
        match more with
        | 0 => return (.error e, buffer)
        | more + 1 => go more (number + 1) buffer

/-- As `send`, for commands that are not urgent, failing where the command failed. -/
def request {n : Nat} (m : Mailbox ρ) (command : Command) (arguments : List UInt32)
    (buffer : Vector UInt32 n) : MailboxM ρ (Nat × Vector UInt32 n) := do
  let (result, buffer) ← m.send command.opcode arguments false buffer
  return (← liftExcept result, buffer)
where
  liftExcept (r : Except MailboxError Nat) : MailboxM ρ Nat := ExceptT.mk (pure r)

/-! ### The rest -/

/-- Brings the mailbox into a known state: interrupts enabled, no urgent command and no doorbell
pending, and the peer restarted. -/
def init (m : Mailbox ρ) : MailboxM ρ Unit := do
  m.write m.map.interrupts Interrupt.all
  m.write m.map.urgent 0
  m.write m.map.doorbellFromSdm 0
  let (result, _) ← m.send Command.restart.opcode [] true noData
  match result with
  | .error e => throw e
  | .ok _ =>
    -- a restart clears the interrupt enables
    m.write m.map.interrupts Interrupt.all

/-- Takes at most `room` words out of the response ring, as they are and without waiting. -/
def receive (m : Mailbox ρ) (room : Nat) : RegisterM ρ (List UInt32) := do
  discard m.takeDoorbell
  go room (← m.responseCursor)
where
  go : Nat → Nat → RegisterM ρ (List UInt32)
    | 0, _ => return []
    | room + 1, rout => do
      unless ← m.responsePending rout do return []
      let (word, next) ← m.readWord rout
      return word :: (← go room next)

/-- Drops at most `limit` whole responses from the response ring, and returns how many. -/
def drain (m : Mailbox ρ) (limit : Nat) : RegisterM ρ Nat := do
  discard m.takeDoorbell
  go limit 0 (← m.responseCursor)
where
  go : (limit done rout : Nat) → RegisterM ρ Nat
    | 0, done, _ => return done
    | limit + 1, done, rout => do
      unless ← m.responsePending rout do return done
      let (word, next) ← m.readWord rout
      match ← m.readData next (ResponseHeader.mk word).length with
      | (_, none) => return done
      | (_, some rout) =>
        m.log (.drained word)
        go limit (done + 1) rout

end Mailbox

end RemoteUpdate
