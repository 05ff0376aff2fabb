/-!
# Hexadecimal text

Three spellings of a number occur in messages and reports: shortest (`hex`), padded with zeros to a
fixed number of digits (`hexPadded`), and the latter in capitals (`hexCapitals`).
-/

namespace RemoteUpdate.Text

/-- The text `s` with copies of `c` in front until it has `width` characters. -/
def padLeft (width : Nat) (c : Char) (s : String) : String :=
  String.ofList (List.replicate (width - s.length) c) ++ s

/-- The digits of `n` in base 16, without leading zeros. -/
def hexDigits (n : Nat) : String :=
  String.ofList (Nat.toDigits 16 n)

/-- A leading `0x` and the digits of `n`, as few as possible. -/
def hex (n : Nat) : String :=
  "0x" ++ hexDigits n

/-- A leading `0x` and at least `digits` digits. -/
def hexPadded (digits n : Nat) : String :=
  "0x" ++ padLeft digits '0' (hexDigits n)

/-- As `hexPadded`, with the digits above nine in capitals. -/
def hexCapitals (digits n : Nat) : String :=
  "0x" ++ padLeft digits '0' ((hexDigits n).map Char.toUpper)

end RemoteUpdate.Text
