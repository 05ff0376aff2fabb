import RemoteUpdate.Mailbox.BitField

/-!
# Words on the wire

Every command and every response starts with a header word. Both kinds keep the client in the four
topmost bits, the transaction in the four below, and the number of words that follow in bits 12 to 22,
so that a response can be matched to its command. Clients and transactions are bytes outside of headers,
so a header cuts them to four bits. The rest of a command header is its opcode, the rest
of a response header the code of the answer.

The commands and answer codes that have a name are `Command` and `ResponseCode`.
-/

namespace RemoteUpdate

/-- The client under which the host sends. -/
def hostClient : UInt8 := 0xb

/-- The transaction under which the host sends. -/
def hostTransaction : UInt8 := 0x1

/-- The longest argument list of a command. -/
def maxArguments : Nat := 31

/-- The largest opcode. -/
def maxOpcode : UInt32 := 2047

namespace HeaderField

/-- Opcode of a command, code of a response. -/
def code : BitField := ⟨0, 11⟩

/-- Whether the arguments of a command are in memory. -/
def indirect : BitField := ⟨11, 1⟩

def length : BitField := ⟨12, 11⟩

def transaction : BitField := ⟨24, 4⟩

def client : BitField := ⟨28, 4⟩

end HeaderField

/-- The first word of a command. -/
structure CommandHeader where
  word : UInt32
deriving DecidableEq, Repr

namespace CommandHeader

def client (h : CommandHeader) : UInt8 := (HeaderField.client.get h.word).toUInt8
def transaction (h : CommandHeader) : UInt8 := (HeaderField.transaction.get h.word).toUInt8
def length (h : CommandHeader) : Nat := (HeaderField.length.get h.word).toNat
def opcode (h : CommandHeader) : UInt32 := HeaderField.code.get h.word
def isIndirect (h : CommandHeader) : Bool := HeaderField.indirect.get h.word != 0

/-- The header with one field replaced. -/
def withField (h : CommandHeader) (f : BitField) (value : UInt32) : CommandHeader :=
  ⟨f.set h.word value⟩

/-- The header with the given fields, each cut to its width. -/
def make (client transaction : UInt8) (length : Nat) (indirect : Bool) (opcode : UInt32) :
    CommandHeader :=
  (⟨0⟩ : CommandHeader)
    |>.withField HeaderField.client client.toUInt32
    |>.withField HeaderField.transaction transaction.toUInt32
    |>.withField HeaderField.length (.ofNat length)
    |>.withField HeaderField.indirect (if indirect then 1 else 0)
    |>.withField HeaderField.code opcode

end CommandHeader

/-- The first word of a response. -/
structure ResponseHeader where
  word : UInt32
deriving DecidableEq, Repr

namespace ResponseHeader

def client (h : ResponseHeader) : UInt8 := (HeaderField.client.get h.word).toUInt8
def transaction (h : ResponseHeader) : UInt8 := (HeaderField.transaction.get h.word).toUInt8
def length (h : ResponseHeader) : Nat := (HeaderField.length.get h.word).toNat
def code (h : ResponseHeader) : UInt32 := HeaderField.code.get h.word

/-- The header with one field replaced. -/
def withField (h : ResponseHeader) (f : BitField) (value : UInt32) : ResponseHeader :=
  ⟨f.set h.word value⟩

/-- The header with the given fields, each cut to its width. -/
def make (client transaction : UInt8) (length : Nat) (code : UInt32) : ResponseHeader :=
  (⟨0⟩ : ResponseHeader)
    |>.withField HeaderField.client client.toUInt32
    |>.withField HeaderField.transaction transaction.toUInt32
    |>.withField HeaderField.length (.ofNat length)
    |>.withField HeaderField.code code

/-- The response belongs to a command sent by `client` as `transaction`. -/
def answers (h : ResponseHeader) (client transaction : UInt8) : Bool :=
  h.client == client && h.transaction == transaction

end ResponseHeader

/-- The commands that have a name. -/
inductive Command where
  | restart
  | configStatus
  | reconfigStatus
  | qspiOpen
  | qspiClose
  | qspiDirect
  | reboot
  | subpartitionTable
  | updateStatus
  | update
  | stageNotify
  | deviceInfo
deriving DecidableEq, Repr

namespace Command

def all : List Command :=
  [restart, configStatus, reconfigStatus, qspiOpen, qspiClose, qspiDirect, reboot,
    subpartitionTable, updateStatus, update, stageNotify, deviceInfo]

def opcode : Command → UInt32
  | restart => 2
  | configStatus => 4
  | reconfigStatus => 9
  | qspiOpen => 50
  | qspiClose => 51
  | qspiDirect => 59
  | reboot => 71
  | subpartitionTable => 90
  | updateStatus => 91
  | update => 92
  | stageNotify => 93
  | deviceInfo => 116

/-- The command sent under a number, if it has a name. -/
def ofOpcode? (n : UInt32) : Option Command :=
  all.find? fun c => c.opcode == n

end Command

/-- The answer codes that have a name. -/
inductive ResponseCode where
  | ok
  | invalidCommand
  | unknownBranch
  | unknown
  | notAllowedUnderSecurity
  | notConfigured
  | timeout
  | deviceBusy
  | error
deriving DecidableEq, Repr

namespace ResponseCode

def all : List ResponseCode :=
  [ok, invalidCommand, unknownBranch, unknown, notAllowedUnderSecurity, notConfigured, timeout,
    deviceBusy, error]

def value : ResponseCode → UInt32
  | ok => 0
  | invalidCommand => 1
  | unknownBranch => 2
  | unknown => 3
  | notAllowedUnderSecurity => 0x85
  | notConfigured => 0x100
  | timeout => 0x1fe
  | deviceBusy => 0x1ff
  | error => 0x3ff

def label : ResponseCode → String
  | ok => "Ok"
  | invalidCommand => "InvalidCommand"
  | unknownBranch => "UnknownBr"
  | unknown => "Unknown"
  | notAllowedUnderSecurity => "NotAllowedUnderSecurity"
  | notConfigured => "NotConfigured"
  | timeout => "Timeout"
  | deviceBusy => "DeviceBusy"
  | error => "Error"

/-- The code a number stands for, if it has a name. -/
def ofValue? (n : UInt32) : Option ResponseCode :=
  all.find? fun c => c.value == n

end ResponseCode

end RemoteUpdate
