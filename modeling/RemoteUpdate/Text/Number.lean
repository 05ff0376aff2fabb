/-!
# Reading numbers

Unsigned numbers as they are typed: digits with at most one plus sign in front, decimal, or hexadecimal
after `0x`. A number that does not fit its type is no number.
-/

namespace RemoteUpdate.Text

/-- The value of a digit in some base, in either case. -/
def digitValue? (base : Nat) (c : Char) : Option Nat :=
  let value :=
    if '0' ≤ c ∧ c ≤ '9' then c.toNat - '0'.toNat
    else if 'a' ≤ c ∧ c ≤ 'z' then c.toNat - 'a'.toNat + 10
    else if 'A' ≤ c ∧ c ≤ 'Z' then c.toNat - 'A'.toNat + 10
    else base
  if value < base then some value else none

/-- The value of digits behind a number that has been read already. -/
def digitsFrom? (base value : Nat) : List Char → Option Nat
  | [] => some value
  | c :: rest => do digitsFrom? base (value * base + (← digitValue? base c)) rest

def digits? (base : Nat) : List Char → Option Nat
  | [] => none
  | s => digitsFrom? base 0 s

/-- The value of digits with at most one plus sign in front. -/
def unsigned? (base : Nat) : List Char → Option Nat
  | '+' :: rest => digits? base rest
  | s => digits? base s

/-- A decimal number below a bound. -/
def decimal? (bound : Nat) (s : String) : Option Nat :=
  (unsigned? 10 s.toList).filter (· < bound)

/-- A decimal or hexadecimal number below a bound. -/
def number? (bound : Nat) (s : String) : Option Nat :=
  let value := match s.toList with
    | '0' :: 'x' :: rest | '0' :: 'X' :: rest => unsigned? 16 rest
    | rest => unsigned? 10 rest
  value.filter (· < bound)

end RemoteUpdate.Text
