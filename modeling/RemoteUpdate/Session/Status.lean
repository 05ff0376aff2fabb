import RemoteUpdate.Session.Tables

/-!
# The update state

What a session can ask of the device manager beside slots: how the last update went, notifications, and
the state of the decision firmware.
-/

namespace RemoteUpdate.Session

variable {ρ φ : Type} [RegisterBlock ρ]

def status (c : Session ρ) : SessionM ρ φ UpdateStatus :=
  onMailbox c.mailbox.updateStatus

/-- Reports an execution stage, of which only the lower 16 bits are sent. -/
def notify (c : Session ρ) (stage : UInt32) : SessionM ρ φ Unit :=
  onMailbox (c.mailbox.notifyStage (stage &&& Notify.stageMask))

/-- Asks for an action, which takes firmware of version 1 or later. -/
def notifyAction (c : Session ρ) (action : UInt32) : SessionM ρ φ Unit := do
  let status ← c.status
  if status.applicationVersion < 1 then
    log (.actionUnsupported action)
    throw .unsupported
  onMailbox (c.mailbox.notifyStage (Notify.ignoreStage ||| action))

/-- Makes the device manager forget the last failure. -/
def clearError (c : Session ρ) : SessionM ρ φ Unit := do
  c.notifyAction Notify.clearError
  log .errorCleared

/-- Makes the device manager count attempts anew. -/
def resetRetries (c : Session ρ) : SessionM ρ φ Unit := do
  c.notifyAction Notify.resetRetries
  log .retriesReset

def deviceInfo (c : Session ρ) : SessionM ρ φ DeviceInfo :=
  onMailbox c.mailbox.deviceInfo

/-- Asks for the image at a flash offset to be booted on the next reset, whatever the partition table
says. -/
def update (c : Session ρ) (offset : UInt64) : SessionM ρ φ Unit :=
  onMailbox (c.mailbox.requestUpdate offset)

variable [FlashDevice φ]

def runningFactory (c : Session ρ) : SessionM ρ φ Bool := do
  let status ← c.status
  discard c.loadTable
  let offset ← found (← partitionOffset? c.layout.factoryName)
  return offset == status.currentImage

/-- The update status and where the pointer block is, with both tables loaded. -/
def survey (c : Session ρ) : SessionM ρ φ (UpdateStatus × UInt64) := do
  let status ← c.status
  c.load
  return (status, ← c.blockOffset)

end RemoteUpdate.Session
