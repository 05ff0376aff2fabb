import RemoteUpdate.Flash.Plan
import RemoteUpdate.Mailbox.Requests

/-!
# Sessions

A session works on the slots of one flash device through one mailbox. What stays the same in a session
is its `Session`; what changes is its `SessionState`, which holds scratch copies of both tables. Every
operation reloads the copies that it works on, and a load that fails leaves the copy as it was.

A `Verifier` decides which images may be programmed.
-/

namespace RemoteUpdate

/-- Where a session finds its tables, and how much space they take. -/
structure Layout where
  /-- The partition that holds the pointer block. -/
  blockName : String := "CPB0"
  /-- The partition that holds the second copy of the pointer block. -/
  backupName : String := "CPB1"
  /-- The partition that holds the factory image. -/
  factoryName : String := "FACTORY_IMAGE"
  /-- Which word of the device manager's answer is the offset of the first partition table. -/
  firstTable : Nat := 1
  /-- Which word of the answer is the offset of the second partition table. -/
  secondTable : Nat := 3
  /-- Bytes erased for a partition table. -/
  tableSpace : Nat := tableSize
  /-- Bytes erased for a pointer block. -/
  blockSpace : Nat := tableSize
deriving DecidableEq, Repr

/-- Which images may be programmed. -/
structure Verifier where
  /-- The bytes may be an application image. -/
  accepts : List UInt8 → Bool
  /-- The bytes may be an update of the factory image. -/
  acceptsFactory : List UInt8 → Bool := accepts

namespace Verifier

/-- The first word of an image with configuration firmware. -/
def imageMagic : UInt32 := 0x62294895

/-- Images with configuration firmware are accepted. -/
def firmware : Verifier where
  accepts := (Table.word32 imageMagic).isPrefixOf

end Verifier

/-- What stays the same in a session. -/
structure Session (ρ : Type) where
  mailbox : Mailbox ρ
  layout : Layout
  /-- Where the two copies of the partition table are. -/
  tableOffsets : UInt64 × UInt64
  verifier : Verifier := .firmware

/-- What changes in a session. -/
structure SessionState (ρ φ : Type) where
  channel : Channel ρ
  flash : φ
  /-- The partition table last loaded, with what has been changed since. -/
  table : PartitionTable := .empty
  /-- The pointer block last loaded, with what has been changed since. -/
  block : PointerBlock := .empty 0

/-- Programs in a session. -/
abbrev SessionM (ρ φ : Type) := ExceptT UpdateError (StateT (SessionState ρ φ) LogM)

namespace Session

variable {ρ φ : Type}

/-- Logs an event of the session. -/
def log (e : SessionEvent) : SessionM ρ φ Unit :=
  emit (.session e)

/-- Goes on with a value, or fails as it failed. -/
def require {α : Type} (r : Except UpdateError α) : SessionM ρ φ α :=
  ExceptT.mk (pure r)

/-- Goes on with a value, or fails because there is none. -/
def found {α : Type} : Option α → SessionM ρ φ α
  | some a => pure a
  | none => throw .notFound

/-- Runs a program on the mailbox of the session. -/
def onMailbox {α : Type} (x : MailboxM ρ α) : SessionM ρ φ α :=
  ExceptT.mk do
    let result ← focus SessionState.channel (fun channel s => { s with channel })
      (Channel.onRegisters x.run)
    return result.mapError .ofMailbox

/-- Runs a program on the flash device of the session. -/
def onFlash {α : Type} (x : FlashM φ α) : SessionM ρ φ α :=
  ExceptT.mk <| focus SessionState.flash (fun flash s => { s with flash }) x.report.run

/-- Opens a session: asks the device manager where the partition tables are. -/
def start [RegisterBlock ρ] (mailbox : Mailbox ρ) (layout : Layout) :
    ExceptT UpdateError (StateT (Channel ρ) LogM) (Session ρ) := do
  let words ← ExceptT.mk do
    let result ← Channel.onRegisters mailbox.subpartitionTable.run
    return result.mapError .ofMailbox
  match words.toList[layout.firstTable]?, words.toList[layout.secondTable]? with
  | some first, some second =>
    emit (.session (.tablesLocated first second))
    return { mailbox, layout, tableOffsets := (first.toUInt64, second.toUInt64) }
  | _, _ => throw .invalidArgument

end Session

end RemoteUpdate
