/-!
# Little-endian words in bytes

The tables in flash are made of 32-bit and 64-bit words, least significant byte first.
-/

namespace RemoteUpdate.Table

def word32 (w : UInt32) : List UInt8 :=
  [w.toUInt8, (w >>> 8).toUInt8, (w >>> 16).toUInt8, (w >>> 24).toUInt8]

def word64 (w : UInt64) : List UInt8 :=
  [w.toUInt8, (w >>> 8).toUInt8, (w >>> 16).toUInt8, (w >>> 24).toUInt8,
    (w >>> 32).toUInt8, (w >>> 40).toUInt8, (w >>> 48).toUInt8, (w >>> 56).toUInt8]

/-- The word stored from byte `i` on; bytes past the end count as zero. -/
def word32At (cells : Array UInt8) (i : Nat) : UInt32 :=
  (cells.getD i 0).toUInt32 ||| ((cells.getD (i + 1) 0).toUInt32 <<< 8) |||
    ((cells.getD (i + 2) 0).toUInt32 <<< 16) ||| ((cells.getD (i + 3) 0).toUInt32 <<< 24)

/-- The double word stored from byte `i` on. -/
def word64At (cells : Array UInt8) (i : Nat) : UInt64 :=
  (word32At cells i).toUInt64 ||| ((word32At cells (i + 4)).toUInt64 <<< 32)

end RemoteUpdate.Table
