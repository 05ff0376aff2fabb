/-!
# Bit fields of a word

A `BitField` is a run of adjacent bits in a 32-bit word. `get` reads it as a number and `set` stores a
number in it, dropping what does not fit and leaving the other bits alone.
-/

namespace RemoteUpdate

/-- The `width` bits from bit `low` upwards. -/
structure BitField where
  low : UInt32
  width : UInt32
deriving DecidableEq, Repr

namespace BitField

/-- As many ones as the field has bits. -/
def mask (f : BitField) : UInt32 :=
  ((1 : UInt32) <<< f.width) - 1

/-- The number stored in the field. -/
def get (f : BitField) (word : UInt32) : UInt32 :=
  (word >>> f.low) &&& f.mask

/-- The word with `value` in the field. -/
def set (f : BitField) (word value : UInt32) : UInt32 :=
  (word &&& ~~~(f.mask <<< f.low)) ||| ((value &&& f.mask) <<< f.low)

end BitField

end RemoteUpdate
