/-!
# Decimal counts

A count is written with decimal digits.  One plus sign may stand in front, and
underscores may stand anywhere after the first digit to group the digits.
-/

namespace ChartParsing
namespace Text
namespace Numeral

/-- The value of a decimal digit. -/
def digit? (c : Char) : Option Nat :=
  if c.isDigit then some (c.toNat - '0'.toNat) else none

/-- Reads digits and underscores on from the value `acc` of the digits before them. -/
def readDigits (acc : Nat) : List Char → Option Nat
  | [] => some acc
  | c :: cs =>
      if c = '_' then readDigits acc cs
      else (digit? c).bind fun d => readDigits (10 * acc + d) cs

/-- The text without its sign: one plus sign is dropped unless another one follows. -/
def unsigned : List Char → List Char
  | '+' :: '+' :: cs => '+' :: '+' :: cs
  | '+' :: cs => cs
  | cs => cs

/-- The count that a text states, if it states one. -/
def read (cs : List Char) : Option Nat :=
  match unsigned cs with
  | [] => none
  | c :: rest => (digit? c).bind fun d => readDigits d rest

end Numeral
end Text
end ChartParsing
