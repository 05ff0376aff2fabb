import RemoteUpdate.Text.Hex

/-!
# Failures

Three layers fail in their own ways: the mailbox driver (`MailboxError`), the flash device
(`FlashFault`), and the update library on top of both (`UpdateError`). Each failure is a cause; its
wording is in `message`, and the short word for it is in `kind` or `label`.
-/

namespace RemoteUpdate

/-- Why a mailbox exchange failed. -/
inductive MailboxError where
  /-- A poll budget ran out. -/
  | timeout
  /-- The acknowledge bit did not move after an urgent command. -/
  | notAcknowledged
  /-- The peer answered that it is busy. -/
  | busy
  /-- The caller asked for something that cannot be sent. -/
  | invalidArgument
  /-- The peer does not know the command. -/
  | unsupported
  /-- The answer carries fewer words than the command needs. -/
  | shortResponse (expected actual : Nat)
  /-- The peer answered with a code that has no meaning of its own here. -/
  | firmware (code : UInt32)
  /-- The device reports a hardware failure during configuration. -/
  | hardware
  /-- The device reports this configuration state. -/
  | configuration (state : UInt32)
deriving DecidableEq, Repr

namespace MailboxError

/-- The word for the kind of failure. -/
def kind : MailboxError → String
  | timeout => "Timeout"
  | notAcknowledged => "CommError"
  | busy => "DeviceBusy"
  | invalidArgument => "InvalidArgument"
  | unsupported => "Unsupported"
  | shortResponse _ _ => "ResponseTooShort"
  | firmware _ => "Sdm"
  | hardware => "HardwareError"
  | configuration _ => "ConfigError"

def label (e : MailboxError) : String :=
  match e with
  | shortResponse expected actual =>
    e.kind ++ s!" \x7b expected: {expected}, actual: {actual} \x7d"
  | firmware code => e.kind ++ s!"({code})"
  | configuration state => e.kind ++ s!"({state})"
  | _ => e.kind

def message : MailboxError → String
  | timeout => "mailbox timed out"
  | notAcknowledged => "urgent command was not acknowledged"
  | busy => "SDM is busy"
  | invalidArgument => "invalid argument"
  | unsupported => "not supported by the SDM firmware"
  | shortResponse expected actual =>
    s!"response too short: expected {expected} words, got {actual}"
  | firmware code => "SDM returned error code " ++ Text.hex code.toNat
  | hardware => "FPGA configuration hardware error"
  | configuration state => "FPGA configuration state " ++ Text.hex state.toNat

/-- Failures after which the same command is worth sending again. -/
def isTransient : MailboxError → Bool
  | timeout | busy => true
  | _ => false

end MailboxError

/-- Why a flash device refused or failed a call. -/
inductive FlashFault where
  /-- The device failed. -/
  | failed
  /-- The device is busy. -/
  | busy
  /-- A parameter makes no sense. -/
  | invalid
  /-- The range does not fit. -/
  | size
  /-- The operation is not supported. -/
  | unsupported
  /-- There is no device. -/
  | absent
deriving DecidableEq, Repr

namespace FlashFault

/-- Every fault, in the order of its code. -/
def all : List FlashFault := [failed, busy, invalid, size, unsupported, absent]

/-- The number of the fault. -/
def code : FlashFault → Nat
  | failed => 1
  | busy => 2
  | invalid => 6
  | size => 7
  | unsupported => 10
  | absent => 11

def label : FlashFault → String
  | failed => "FAIL"
  | busy => "BUSY"
  | invalid => "INVAL"
  | size => "SIZE"
  | unsupported => "NOSUPPORT"
  | absent => "NODEVICE"

/-- The fault a word stands for. -/
def ofLabel? (s : String) : Option FlashFault :=
  all.find? fun f => f.label == s

end FlashFault

/-- Why an operation on slots, tables or update state failed. -/
inductive UpdateError where
  /-- The mailbox timed out. -/
  | timeout
  /-- The mailbox exchange went wrong. -/
  | communication
  /-- The peer is busy. -/
  | busy
  /-- A table in flash does not verify. -/
  | corruptMetadata
  /-- There is no such slot, partition or table. -/
  | notFound
  /-- The name is taken. -/
  | alreadyExists
  /-- The firmware cannot do this. -/
  | unsupported
  /-- The caller asked for something that is not allowed. -/
  | invalidArgument
  /-- The flash device failed. -/
  | flash (fault : FlashFault)
  /-- The slot differs from the image, first at this byte. -/
  | verifyMismatch (offset : Nat)
  /-- The peer answered with this code. -/
  | firmware (code : UInt32)
  /-- The device reports a hardware failure. -/
  | hardware
deriving DecidableEq, Repr

namespace UpdateError

/-- The word for the kind of failure. -/
def kind : UpdateError → String
  | timeout => "Timeout"
  | communication => "CommError"
  | busy => "DeviceBusy"
  | corruptMetadata => "CorruptMetadata"
  | notFound => "NotFound"
  | alreadyExists => "AlreadyExists"
  | unsupported => "Unsupported"
  | invalidArgument => "InvalidArgument"
  | flash _ => "Flash"
  | verifyMismatch _ => "VerifyMismatch"
  | firmware _ => "Sdm"
  | hardware => "HardwareError"

def message : UpdateError → String
  | timeout => "mailbox timed out"
  | communication => "mailbox communication error"
  | busy => "SDM is busy"
  | corruptMetadata => "RSU metadata is corrupt"
  | notFound => "not found"
  | alreadyExists => "already exists"
  | unsupported => "not supported"
  | invalidArgument => "invalid argument"
  | flash fault => "flash error " ++ fault.label
  | verifyMismatch offset => "verify mismatch at byte offset " ++ Text.hex offset
  | firmware code => "SDM returned error code " ++ Text.hex code.toNat
  | hardware => "hardware error"

/-- How a mailbox failure is reported one layer up. -/
def ofMailbox : MailboxError → UpdateError
  | .timeout => timeout
  | .notAcknowledged => communication
  | .busy => busy
  | .invalidArgument => invalidArgument
  | .unsupported => unsupported
  | .shortResponse _ _ => communication
  | .firmware code => firmware code
  | .hardware => hardware
  | .configuration state => firmware state

end UpdateError

end RemoteUpdate
