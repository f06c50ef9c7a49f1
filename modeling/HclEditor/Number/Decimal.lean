/-!
# Decimal numbers

A decimal is a coefficient times a power of ten. As a text it is an optional sign, digits
with an optional point among or around them, and an optional exponent; infinity and the
undefined number have names instead.
-/

namespace HclEditor.Number

/-- A natural number times a power of ten. -/
structure Decimal where
  coefficient : Nat
  exponent : Int
deriving DecidableEq, Repr

/-- Why a text denotes no decimal. -/
inductive DecimalFault where
  | empty
  | malformed
deriving DecidableEq, Repr

/-- The wording of a decimal fault. -/
def DecimalFault.message : DecimalFault → String
  | .empty => "cannot parse float from empty string"
  | .malformed => "invalid float literal"

/-- The magnitude of what a text denotes. -/
inductive Magnitude (α : Type) where
  | finite (value : α)
  | infinite
  | undefined
deriving DecidableEq, Repr

namespace Decimal

/-- The natural number that some decimal digits denote. -/
def ofDigits (digits : List Char) : Nat :=
  digits.foldl (fun value c => value * 10 + (c.toNat - '0'.toNat)) 0

/-- The exponent behind its letter: an optional sign and at least one digit. -/
def readExponent? : List Char → Option Int
  | '-' :: digits => readDigits? digits |>.map fun value => -(value : Int)
  | '+' :: digits => readDigits? digits |>.map Int.ofNat
  | digits => readDigits? digits |>.map Int.ofNat
where
  /-- At least one digit, and nothing else. -/
  readDigits? (digits : List Char) : Option Nat :=
    if digits.isEmpty || !digits.all Char.isDigit then none else some (ofDigits digits)

/-- Digits with an optional point and an optional exponent. -/
def read? (cs : List Char) : Option Decimal :=
  let whole := cs.takeWhile Char.isDigit
  let afterWhole := cs.drop whole.length
  let fraction :=
    match afterWhole with
    | '.' :: rest => rest.takeWhile Char.isDigit
    | _ => []
  let afterFraction :=
    match afterWhole with
    | '.' :: rest => rest.drop fraction.length
    | rest => rest
  let scaled (exponent : Int) : Option Decimal :=
    if whole.isEmpty && fraction.isEmpty then none
    else some ⟨ofDigits (whole ++ fraction), exponent - fraction.length⟩
  match afterFraction with
  | [] => scaled 0
  | c :: rest => if c = 'e' ∨ c = 'E' then readExponent? rest >>= scaled else none

/-- The names of the numbers without digits, in lower case. -/
def named? (word : String) : Option (Magnitude Decimal) :=
  if word = "inf" ∨ word = "infinity" then some .infinite
  else if word = "nan" then some .undefined
  else none

/-- What a text without a sign denotes. -/
def readMagnitude? (cs : List Char) : Option (Magnitude Decimal) :=
  match read? cs with
  | some decimal => some (.finite decimal)
  | none => named? (String.ofList (cs.map Char.toLower))

/-- What a text denotes: whether it has a minus sign, and the magnitude. -/
def readSigned : List Char → Except DecimalFault (Bool × Magnitude Decimal)
  | [] => .error .empty
  | '-' :: cs => orMalformed ((readMagnitude? cs).map (true, ·))
  | '+' :: cs => orMalformed ((readMagnitude? cs).map (false, ·))
  | cs => orMalformed ((readMagnitude? cs).map (false, ·))
where
  /-- What was found, or else the text is malformed. -/
  orMalformed {α : Type} : Option α → Except DecimalFault α
    | some found => .ok found
    | none => .error .malformed

/-- The decimal without an exponent, and without a point if it is whole. -/
def positional (decimal : Decimal) : String :=
  let digits := Nat.toDigits 10 decimal.coefficient
  match decimal.exponent with
  | .ofNat zeros => String.ofList (digits ++ List.replicate zeros '0')
  | .negSucc less =>
      let places := less + 1
      let padded := List.replicate (places + 1 - digits.length) '0' ++ digits
      let whole := padded.length - places
      String.ofList (padded.take whole ++ '.' :: padded.drop whole)

end Decimal

end HclEditor.Number
