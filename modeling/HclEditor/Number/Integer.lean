/-!
# Integers of 64 bits

A text denotes an integer when it is an optional sign and digits of the radix. The digits
are read from the left: whichever comes first, a character that is no digit or a digit
with which the number leaves the range, is what is wrong with the text.
-/

namespace HclEditor.Number

/-- Why a text denotes no integer of 64 bits. -/
inductive IntegerFault where
  | empty
  | invalidDigit
  | tooLarge
  | tooSmall
deriving DecidableEq, Repr

/-- The wording of an integer fault. -/
def IntegerFault.message : IntegerFault → String
  | .empty => "cannot parse integer from empty string"
  | .invalidDigit => "invalid digit found in string"
  | .tooLarge => "number too large to fit in target type"
  | .tooSmall => "number too small to fit in target type"

/-- The least integer of 64 bits. -/
def leastInteger : Int := -Int.pow 2 63

/-- The greatest integer of 64 bits. -/
def greatestInteger : Int := Int.pow 2 63 - 1

/-- The value of a digit in the radix, letters of either case counting on from ten. -/
def digitValue? (radix : Nat) (c : Char) : Option Nat :=
  let value :=
    if c.isDigit then c.toNat - '0'.toNat
    else if 'a' ≤ c ∧ c ≤ 'z' then c.toNat - 'a'.toNat + 10
    else if 'A' ≤ c ∧ c ≤ 'Z' then c.toNat - 'A'.toNat + 10
    else radix
  if value < radix then some value else none

/-- Reads on from a value that the digits so far denote, with a minus sign in front of
them if `negative`. -/
def readDigits (radix : Nat) (negative : Bool) (value : Int) :
    List Char → Except IntegerFault Int
  | [] => .ok value
  | c :: cs =>
      match digitValue? radix c with
      | none => .error .invalidDigit
      | some digit =>
          let next := if negative then value * radix - digit else value * radix + digit
          if next < leastInteger then .error .tooSmall
          else if greatestInteger < next then .error .tooLarge
          else readDigits radix negative next cs

/-- The integer that a text denotes in the radix. -/
def readInteger (radix : Nat) : List Char → Except IntegerFault Int
  | [] => .error .empty
  | '-' :: cs => if cs.isEmpty then .error .invalidDigit else readDigits radix true 0 cs
  | '+' :: cs => if cs.isEmpty then .error .invalidDigit else readDigits radix false 0 cs
  | cs => readDigits radix false 0 cs

/-- The integer with the opposite sign. The least integer has none and stays. -/
def negate (value : Int) : Int :=
  if value = leastInteger then value else -value

end HclEditor.Number
