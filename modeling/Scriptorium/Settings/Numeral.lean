import Scriptorium.Settings.Binary64

/-!
# Numerals

Integers are written in base ten and may also be read in base sixteen, eight and two. Floats are
written with a point and without an exponent. Underscores may stand between digits, and a whole
part has no leading zero.
-/

namespace Scriptorium.Settings

def renderInteger (value : Int) : List Char :=
  (if value < 0 then ['-'] else []) ++ Nat.toDigits 10 value.natAbs

/-- A decimal without an exponent, with at least one digit on each side of the point. -/
def renderDecimal (digits : Nat) (exponent : Int) : List Char :=
  let chars := Nat.toDigits 10 digits
  if 0 ≤ exponent then chars ++ List.replicate exponent.toNat '0' ++ ['.', '0']
  else
    let places := (-exponent).toNat
    if places < chars.length then
      chars.take (chars.length - places) ++ '.' :: chars.drop (chars.length - places)
    else '0' :: '.' :: List.replicate (places - chars.length) '0' ++ chars

def renderFloat : Binary64 → List Char
  | .nan => ['n', 'a', 'n']
  | .infinite negative => (if negative then ['-'] else []) ++ ['i', 'n', 'f']
  | .finite negative magnitude =>
      let (digits, exponent) := Binary64.shortestDecimal magnitude
      (if negative then ['-'] else []) ++ renderDecimal digits exponent

/-- The digits after a first one. An underscore needs a digit after it. -/
def moreDigits (isDigit : Char → Bool) : List Char → Option (List Char)
  | [] => some []
  | '_' :: char :: rest =>
      if isDigit char then (moreDigits isDigit rest).map (char :: ·) else none
  | char :: rest => if isDigit char then (moreDigits isDigit rest).map (char :: ·) else none

/-- The digits of a numeral, of which there is at least one, without its underscores. -/
def digitsOf (isDigit : Char → Bool) : List Char → Option (List Char)
  | [] => none
  | char :: rest => if isDigit char then (moreDigits isDigit rest).map (char :: ·) else none

/-- The digits of a whole number without a leading zero. -/
def wholeDigits (chars : List Char) : Option (List Char) := do
  let digits ← digitsOf Char.isDigit chars
  if digits.head? = some '0' ∧ digits ≠ ['0'] then none else return digits

def isHexDigit (char : Char) : Bool :=
  char.isDigit || ('a' ≤ char && char ≤ 'f') || ('A' ≤ char && char ≤ 'F')

def digitValue (char : Char) : Nat :=
  if char.isDigit then char.toNat - 48
  else if 'a' ≤ char then char.toNat - 87
  else char.toNat - 55

def valueOf (base : Nat) (digits : List Char) : Nat :=
  digits.foldl (fun value char => value * base + digitValue char) 0

def splitSign : List Char → Bool × List Char
  | '+' :: rest => (false, rest)
  | '-' :: rest => (true, rest)
  | chars => (false, chars)

/-- Reads a whole text as an integer. Only base ten has signs. -/
def readInteger? : List Char → Option Int
  | '0' :: 'x' :: rest => (digitsOf isHexDigit rest).map fun digits => (valueOf 16 digits : Nat)
  | '0' :: 'o' :: rest =>
      (digitsOf (fun char => '0' ≤ char ∧ char ≤ '7') rest).map fun digits =>
        (valueOf 8 digits : Nat)
  | '0' :: 'b' :: rest =>
      (digitsOf (fun char => char = '0' ∨ char = '1') rest).map fun digits =>
        (valueOf 2 digits : Nat)
  | chars =>
      let (negative, rest) := splitSign chars
      (wholeDigits rest).map fun digits =>
        let value : Int := Nat.ofDigitChars 10 digits 0
        if negative then -value else value

def isExponentMark (char : Char) : Bool :=
  char = 'e' || char = 'E'

/-- Reads the exponent of a float up to the end, or nothing, which stands for zero. -/
def readExponent? : List Char → Option Int
  | [] => some 0
  | mark :: rest =>
      if isExponentMark mark then
        let (negative, rest) := splitSign rest
        (digitsOf Char.isDigit rest).map fun digits =>
          let value : Int := Nat.ofDigitChars 10 digits 0
          if negative then -value else value
      else none

/-- Reads a float without its sign: a whole part, and a fraction or an exponent or both. -/
def readDecimal? (chars : List Char) : Option (Nat × Int) := do
  let isPartEnd (char : Char) : Bool := char = '.' || isExponentMark char
  let whole ← wholeDigits (chars.takeWhile (!isPartEnd ·))
  match chars.dropWhile (!isPartEnd ·) with
  | [] => none
  | '.' :: rest =>
      let fraction ← digitsOf Char.isDigit (rest.takeWhile (!isExponentMark ·))
      let exponent ← readExponent? (rest.dropWhile (!isExponentMark ·))
      return (Nat.ofDigitChars 10 (whole ++ fraction) 0, exponent - fraction.length)
  | rest => return (Nat.ofDigitChars 10 whole 0, ← readExponent? rest)

/-- Reads a whole text as a float. A decimal that is too large to be finite is well written, but no
float belongs to it. -/
def readFloat? (chars : List Char) : Option (Option Binary64) :=
  let (negative, rest) := splitSign chars
  if rest = ['i', 'n', 'f'] then some (some (.infinite negative))
  else if rest = ['n', 'a', 'n'] then some (some .nan)
  else (readDecimal? rest).map fun (digits, exponent) =>
    Binary64.ofDecimal? negative digits exponent

end Scriptorium.Settings
