import RemoteUpdate.Mailbox.BitField

/-!
# What the device manager reports

The update state (`UpdateStatus`, nine words), the packed version word in it (`VersionField`), the
decision firmware report (`DeviceInfo`, seven words), and the configuration state of the fabric.
-/

namespace RemoteUpdate

def joinWords (low high : UInt32) : UInt64 :=
  low.toUInt64 ||| (high.toUInt64 <<< 32)

/-- The lower half of a 64-bit number. -/
def lowWord (n : UInt64) : UInt32 := n.toUInt32

/-- The upper half of a 64-bit number. -/
def highWord (n : UInt64) : UInt32 := (n >>> 32).toUInt32

/-! ### The fields of the version word -/

namespace VersionField

/-- Version of the decision firmware. -/
def decision : BitField := ⟨0, 8⟩

/-- Version of the application's configuration firmware. -/
def application : BitField := ⟨8, 8⟩

/-- Which firmware reported the error. -/
def errorSource : BitField := ⟨16, 12⟩

/-- Index of the running decision firmware copy. -/
def currentIndex : BitField := ⟨28, 4⟩

end VersionField

/-- Words in an update status report. -/
def updateStatusWords : Nat := 9

/-- The retry counter of a report that does not carry one. -/
def retryCounterUnset : UInt32 := 0xffffffff

/-- The update state at one moment. -/
structure UpdateStatus where
  /-- Flash offset of the running image. -/
  currentImage : UInt64 := 0
  /-- Flash offset of the image that failed last. -/
  failImage : UInt64 := 0
  /-- State code of the last failure. -/
  state : UInt32 := 0
  /-- Packed version word. -/
  version : UInt32 := 0
  /-- Where the last failure occurred. -/
  errorLocation : UInt32 := 0
  /-- Details of the last failure. -/
  errorDetails : UInt32 := 0
  /-- Attempts at the current image, or `retryCounterUnset`. -/
  retryCounter : UInt32 := retryCounterUnset
deriving DecidableEq, Repr

namespace UpdateStatus

/-- The report in nine words. -/
def ofWords (w : Vector UInt32 updateStatusWords) : UpdateStatus where
  currentImage := joinWords w[0] w[1]
  failImage := joinWords w[2] w[3]
  state := w[4]
  version := w[5]
  errorLocation := w[6]
  errorDetails := w[7]
  retryCounter := w[8]

def toWords (s : UpdateStatus) : Vector UInt32 updateStatusWords :=
  #v[lowWord s.currentImage, highWord s.currentImage, lowWord s.failImage, highWord s.failImage,
    s.state, s.version, s.errorLocation, s.errorDetails, s.retryCounter]

/-- The firmware filled in the retry counter. -/
def hasRetryCounter (s : UpdateStatus) : Bool :=
  s.retryCounter != retryCounterUnset

/-- The version of the application's configuration firmware. -/
def applicationVersion (s : UpdateStatus) : UInt32 :=
  VersionField.application.get s.version

/-- Firmware that fills in the retry counter speaks version 1 at least, even where it reports 0. -/
def raiseLegacyVersion (s : UpdateStatus) : UpdateStatus :=
  if s.hasRetryCounter && s.applicationVersion == 0 then
    { s with version := VersionField.application.set s.version 1 }
  else s

/-- The report with its last failure forgotten. -/
def clearError (s : UpdateStatus) : UpdateStatus :=
  { s with failImage := 0, state := 0, errorLocation := 0, errorDetails := 0 }

end UpdateStatus

/-! ### The parts of a stage notification: a 16-bit stage, and three flags above it -/

namespace Notify

/-- Do not record a stage. -/
def ignoreStage : UInt32 := 0x40000

/-- Forget the last failure. -/
def clearError : UInt32 := 0x20000

/-- Start counting attempts anew. -/
def resetRetries : UInt32 := 0x10000

/-- The bits of the stage. -/
def stageMask : UInt32 := 0xffff

end Notify

def decisionCopies : Nat := 4

/-- Words in a device report. -/
def deviceInfoWords : Nat := 7

/-! ### The fields of a decision firmware version word -/

namespace DecisionField

def update : BitField := ⟨8, 8⟩
def minor : BitField := ⟨16, 8⟩
def major : BitField := ⟨24, 8⟩

end DecisionField

/-- Versions and state of the decision firmware copies, and the retry limit. -/
structure DeviceInfo where
  /-- Version words of the copies. -/
  versions : Vector UInt32 decisionCopies := .replicate _ 0
  /-- State of the copies, 0 meaning intact. -/
  status : Vector UInt16 decisionCopies := .replicate _ 0
  /-- How often an image is tried. -/
  maxRetry : UInt32 := 0
deriving DecidableEq, Repr

namespace DeviceInfo

/-- Two 16-bit numbers in one word, the first in the lower half. -/
def pack (low high : UInt16) : UInt32 :=
  low.toUInt32 ||| (high.toUInt32 <<< 16)

/-- The report in seven words. -/
def ofWords (w : Vector UInt32 deviceInfoWords) : DeviceInfo where
  versions := #v[w[0], w[1], w[2], w[3]]
  status := #v[w[4].toUInt16, (w[4] >>> 16).toUInt16, w[5].toUInt16, (w[5] >>> 16).toUInt16]
  maxRetry := w[6]

def toWords (d : DeviceInfo) : Vector UInt32 deviceInfoWords :=
  let v : Vector UInt32 4 := d.versions
  let s : Vector UInt16 4 := d.status
  #v[v[0], v[1], v[2], v[3], pack s[0] s[1], pack s[2] s[3], d.maxRetry]

end DeviceInfo

/-- Words in a configuration status report. -/
def configStatusWords : Nat := 6

/-! ### The configuration states of the first word of the report -/

namespace ConfigState

def idle : UInt32 := 0
def configuring : UInt32 := 0x10000000
def unsupported : UInt32 := 0xf0000001
def invalid : UInt32 := 0xf0000002
def corrupt : UInt32 := 0xf0000003
def authentication : UInt32 := 0xf0000004
def hardware : UInt32 := 0xf0000005
def timeout : UInt32 := 0xf0000006
def failed : UInt32 := 0xf0000007
def bootInfo : UInt32 := 0xf0000008

/-- Every state: idle, configuring, and the failures in the order of their number. -/
def all : List UInt32 :=
  [idle, configuring, unsupported, invalid, corrupt, authentication, hardware, timeout, failed,
    bootInfo]

end ConfigState

/-! ### The bits of the pin and soft-function words of the report -/

namespace ConfigFlag

/-- The status pin is high, so configuration has not failed. -/
def statusPin : UInt32 := 0x80000000

def configDone : UInt32 := 0x1

def initDone : UInt32 := 0x2

/-- A configuration bit has flipped. -/
def upset : UInt32 := 0x8

end ConfigFlag

/-- How far configuration of the fabric has come. -/
inductive FabricState where
  /-- The fabric runs. -/
  | done
  /-- Configuration is under way; ask again. -/
  | configuring
deriving DecidableEq, Repr

end RemoteUpdate
