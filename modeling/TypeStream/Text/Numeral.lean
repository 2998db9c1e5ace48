/-! # Unsigned numerals

A numeral is an optional `+` followed by one or more digits of its radix.  It is read from the
left, so of two faults the first one counts: a character that is no digit, or a value that has
reached the limit. -/

namespace TypeStream.Text

/-- Why a text is not a numeral below the limit. -/
inductive NumeralError
  /-- There is no character at all. -/
  | empty
  /-- A character is not a digit of the radix, or a sign stands alone. -/
  | invalidDigit
  /-- The digits read so far have reached the limit. -/
  | tooLarge
deriving DecidableEq, Repr

/-- The report shown to the user. -/
def NumeralError.message : NumeralError → String
  | .empty => "cannot parse integer from empty string"
  | .invalidDigit => "invalid digit found in string"
  | .tooLarge => "number too large to fit in target type"

namespace Numeral

/-- The value of `c` as a digit, in radices up to thirty-six and in either case. -/
def digit? (radix : Nat) (c : Char) : Option Nat :=
  let value? :=
    if '0' ≤ c ∧ c ≤ '9' then some (c.toNat - '0'.toNat)
    else if 'a' ≤ c ∧ c ≤ 'z' then some (c.toNat - 'a'.toNat + 10)
    else if 'A' ≤ c ∧ c ≤ 'Z' then some (c.toNat - 'A'.toNat + 10)
    else none
  value?.filter (· < radix)

/-- Reads digits behind those that have the value `acc`; the value must stay below `limit`. -/
def accumulate (radix limit : Nat) (acc : Nat) : List Char → Except NumeralError Nat
  | [] => .ok acc
  | c :: rest =>
    match digit? radix c with
    | none => .error .invalidDigit
    | some d =>
      if acc * radix + d < limit then accumulate radix limit (acc * radix + d) rest
      else .error .tooLarge

/-- Reads a numeral whose value is below `limit`. -/
def parse (radix limit : Nat) : List Char → Except NumeralError Nat
  | [] => .error .empty
  | ['+'] => .error .invalidDigit
  | '+' :: digits => accumulate radix limit 0 digits
  | digits => accumulate radix limit 0 digits

end Numeral

end TypeStream.Text
