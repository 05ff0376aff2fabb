/-!
# Ranges of bytes

A `ByteArray` as the cells of a device or of a file: cut out a range, put bytes over a range, and make
runs of one byte.
-/

namespace RemoteUpdate.Cells

/-- The byte that erased cells hold. -/
def erasedByte : UInt8 := 0xff

/-- So many copies of one byte, made by doubling. -/
def filled (b : UInt8) (count : Nat) : ByteArray :=
  if count = 0 then .empty
  else
    let half := filled b (count / 2)
    if count % 2 = 0 then half ++ half else (half ++ half).push b

/-- The bytes from an address on, as many as asked for or as there are. -/
def slice (cells : ByteArray) (address length : Nat) : List UInt8 :=
  (cells.extract address (address + length)).data.toList

/-- The cells with the bytes put over those from an address on. -/
def patch (cells : ByteArray) (address : Nat) (bytes : ByteArray) : ByteArray :=
  cells.extract 0 address ++ bytes ++ cells.extract (address + bytes.size) cells.size

end RemoteUpdate.Cells
