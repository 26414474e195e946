/-!
# Reading numbers, truth values and characters

Constants that arrive as text are read by fixed rules, each with its own reasons to refuse a text:

* an integer is an optional sign and ASCII digits; the minus sign is for signed kinds only, and the first
  character that is no digit, or the first digit that leaves the range, decides the reason;
* a truth value is one of two words;
* a character is a text of exactly one character.
-/

namespace InjectorTree.Text

/-- Why a text cannot be read. -/
inductive ReadError
  | emptyInteger
  | invalidDigit
  | tooLarge
  | tooSmall
  | notATruthValue
  | emptyCharacter
  | manyCharacters
deriving DecidableEq, Repr

/-- The reason in words. -/
def ReadError.message : ReadError → String
  | .emptyInteger => "cannot parse integer from empty string"
  | .invalidDigit => "invalid digit found in string"
  | .tooLarge => "number too large to fit in target type"
  | .tooSmall => "number too small to fit in target type"
  | .notATruthValue => "provided string was not `true` or `false`"
  | .emptyCharacter => "cannot parse char from empty string"
  | .manyCharacters => "too many characters in string"

/-- The integers of a fixed width. -/
structure IntegerKind where
  signed : Bool
  bits : Nat
deriving DecidableEq, Repr

/-- The least integer of the kind. -/
def IntegerKind.least (kind : IntegerKind) : Int :=
  if kind.signed then -(Nat.pow 2 (kind.bits - 1)) else 0

/-- The greatest integer of the kind. -/
def IntegerKind.greatest (kind : IntegerKind) : Int :=
  if kind.signed then Nat.pow 2 (kind.bits - 1) - 1 else Nat.pow 2 kind.bits - 1

/-- The value of a decimal digit. -/
def digitValue? (c : Char) : Option Nat :=
  if '0' ≤ c ∧ c ≤ '9' then some (c.toNat - '0'.toNat) else none

/-- Appends digits to a value; `unit` is 1 for a positive number and -1 for a negative one. -/
def readDigits (kind : IntegerKind) (unit : Int) : Int → List Char → Except ReadError Int
  | value, [] => .ok value
  | value, c :: rest =>
    match digitValue? c with
    | none => .error .invalidDigit
    | some digit =>
      let value := value * 10 + unit * digit
      if kind.greatest < value then .error .tooLarge
      else if value < kind.least then .error .tooSmall
      else readDigits kind unit value rest

/-- An integer of the kind, from an optional sign and digits. -/
def readInteger (kind : IntegerKind) (text : String) : Except ReadError Int :=
  match text.toList with
  | [] => .error .emptyInteger
  | ['+'] => .error .invalidDigit
  | ['-'] => .error .invalidDigit
  | '+' :: digits => readDigits kind 1 0 digits
  | '-' :: digits =>
    if kind.signed then readDigits kind (-1) 0 digits else readDigits kind 1 0 ('-' :: digits)
  | digits => readDigits kind 1 0 digits

/-- The decimal text of an integer. -/
def integerText (value : Int) : String :=
  if value < 0 then "-" ++ toString value.natAbs else toString value.natAbs

/-- A truth value, from one of the two words. -/
def readTruthValue (text : String) : Except ReadError Bool :=
  if text = "true" then .ok true
  else if text = "false" then .ok false
  else .error .notATruthValue

/-- A character, from a text that holds nothing else. -/
def readCharacter (text : String) : Except ReadError Char :=
  match text.toList with
  | [] => .error .emptyCharacter
  | [c] => .ok c
  | _ => .error .manyCharacters

end InjectorTree.Text
