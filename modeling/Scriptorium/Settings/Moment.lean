/-!
# Dates and times

A moment is a date, a time of day, or both, and with both it may say how far the time is off the
universal one. Dates are those of the calendar, seconds may be leap seconds, and fractions of a
second are kept to the nanosecond, with further digits cut off.
-/

namespace Scriptorium.Settings

structure Date where
  year : Nat
  month : Nat
  day : Nat
deriving DecidableEq, Repr, Inhabited

structure Time where
  hour : Nat
  minute : Nat
  second : Nat
  nanosecond : Nat
deriving DecidableEq, Repr, Inhabited

/-- How far a time is off the universal one. -/
inductive Offset where
  | zulu
  | minutes (value : Int)
deriving DecidableEq, Repr, Inhabited

/-- A date, a time, or both. -/
inductive Moment where
  | day (date : Date)
  | clock (time : Time)
  | instant (date : Date) (time : Time) (offset : Option Offset)
deriving DecidableEq, Repr, Inhabited

def daysIn (year month : Nat) : Nat :=
  if month = 2 then
    if year % 4 = 0 ∧ (year % 100 ≠ 0 ∨ year % 400 = 0) then 29 else 28
  else if month = 4 ∨ month = 6 ∨ month = 9 ∨ month = 11 then 30
  else 31

namespace Date

/-- The calendar has the date, and its year has at most four digits. -/
def IsValid (date : Date) : Prop :=
  date.year < 10000 ∧ 1 ≤ date.month ∧ date.month ≤ 12 ∧ 1 ≤ date.day ∧
    date.day ≤ daysIn date.year date.month

instance (date : Date) : Decidable date.IsValid :=
  inferInstanceAs (Decidable (_ ∧ _ ∧ _ ∧ _ ∧ _))

end Date

namespace Time

/-- Every part of the time is in its range. The second may be a leap second. -/
def IsValid (time : Time) : Prop :=
  time.hour ≤ 23 ∧ time.minute ≤ 59 ∧ time.second ≤ 60 ∧ time.nanosecond < 1000000000

instance (time : Time) : Decidable time.IsValid :=
  inferInstanceAs (Decidable (_ ∧ _ ∧ _ ∧ _))

end Time

namespace Offset

/-- An offset in minutes is less than a day. -/
def IsValid : Offset → Prop
  | zulu => True
  | minutes value => -1440 < value ∧ value < 1440

instance : (offset : Offset) → Decidable offset.IsValid
  | zulu => inferInstanceAs (Decidable True)
  | minutes _ => inferInstanceAs (Decidable (_ ∧ _))

end Offset

namespace Moment

def IsValid : Moment → Prop
  | day date => date.IsValid
  | clock time => time.IsValid
  | instant date time offset => date.IsValid ∧ time.IsValid ∧ ∀ o ∈ offset, o.IsValid

end Moment

/-! ### Writing -/

/-- A number with leading zeros up to a width. -/
def padded (width value : Nat) : List Char :=
  let digits := Nat.toDigits 10 value
  List.replicate (width - digits.length) '0' ++ digits

def dropTrailingZeros (chars : List Char) : List Char :=
  (chars.reverse.dropWhile (· = '0')).reverse

def Date.render (date : Date) : List Char :=
  padded 4 date.year ++ '-' :: padded 2 date.month ++ '-' :: padded 2 date.day

/-- Hour, minute and second, and the fraction of a second unless it is zero. -/
def Time.render (time : Time) : List Char :=
  padded 2 time.hour ++ ':' :: padded 2 time.minute ++ ':' :: padded 2 time.second ++
    if time.nanosecond = 0 then [] else '.' :: dropTrailingZeros (padded 9 time.nanosecond)

/-- The letter for no offset, or hours and minutes with their sign. -/
def Offset.render : Offset → List Char
  | .zulu => ['Z']
  | .minutes value =>
      (if value < 0 then '-' else '+') :: padded 2 (value.natAbs / 60) ++
        ':' :: padded 2 (value.natAbs % 60)

/-- The text of a moment. The letter `T` stands between its date and its time. -/
def Moment.render : Moment → List Char
  | .day date => date.render
  | .clock time => time.render
  | .instant date time offset =>
      date.render ++ 'T' :: time.render ++ (offset.map Offset.render).getD []

/-! ### Reading -/

def takeDigits : Nat → List Char → Option (Nat × List Char)
  | count, chars =>
      let digits := chars.take count
      if digits.length = count ∧ digits.all Char.isDigit then
        some (Nat.ofDigitChars 10 digits 0, chars.drop count)
      else none

def takeChar (char : Char) : List Char → Option (List Char)
  | [] => none
  | first :: rest => if first = char then some rest else none

def Date.read? (chars : List Char) : Option (Date × List Char) := do
  let (year, chars) ← takeDigits 4 chars
  let chars ← takeChar '-' chars
  let (month, chars) ← takeDigits 2 chars
  let chars ← takeChar '-' chars
  let (day, chars) ← takeDigits 2 chars
  let date : Date := ⟨year, month, day⟩
  if date.IsValid then return (date, chars) else none

/-- The nanoseconds of the digits of a fraction of a second. -/
def nanosecondsOf (digits : List Char) : Nat :=
  let kept := digits.take 9
  Nat.ofDigitChars 10 kept 0 * Nat.pow 10 (9 - kept.length)

/-- Reads a fraction of a second, which has at least one digit, or nothing. -/
def readFraction? : List Char → Option (Nat × List Char)
  | '.' :: chars =>
      let digits := chars.takeWhile Char.isDigit
      if digits = [] then none
      else some (nanosecondsOf digits, chars.dropWhile Char.isDigit)
  | chars => some (0, chars)

/-- Reads seconds and their fraction, or nothing, which stands for zero seconds. -/
def readSeconds? : List Char → Option (Nat × Nat × List Char)
  | ':' :: chars => do
      let (second, chars) ← takeDigits 2 chars
      let (nanosecond, chars) ← readFraction? chars
      return (second, nanosecond, chars)
  | chars => some (0, 0, chars)

def Time.read? (chars : List Char) : Option (Time × List Char) := do
  let (hour, chars) ← takeDigits 2 chars
  let chars ← takeChar ':' chars
  let (minute, chars) ← takeDigits 2 chars
  let (second, nanosecond, chars) ← readSeconds? chars
  let time : Time := ⟨hour, minute, second, nanosecond⟩
  if time.IsValid then return (time, chars) else none

def readOffsetMinutes? (chars : List Char) : Option Nat := do
  let (hours, chars) ← takeDigits 2 chars
  let chars ← takeChar ':' chars
  let (minutes, chars) ← takeDigits 2 chars
  if chars = [] ∧ hours ≤ 23 ∧ minutes ≤ 59 then return hours * 60 + minutes else none

/-- Reads an offset up to the end, or nothing. -/
def readOffset? : List Char → Option (Option Offset)
  | [] => some none
  | ['Z'] | ['z'] => some (some .zulu)
  | '+' :: chars => do return some (.minutes (← readOffsetMinutes? chars))
  | '-' :: chars => do return some (.minutes (-(← readOffsetMinutes? chars : Nat)))
  | _ => none

/-- Between a date and a time stands the letter T or a blank. -/
def isDateTimeMark (char : Char) : Bool :=
  char = 'T' || char = 't' || char = ' '

/-- Reads a whole text as a moment. -/
def Moment.read? (chars : List Char) : Option Moment :=
  match Date.read? chars with
  | some (date, []) => some (.day date)
  | some (date, mark :: chars) =>
      if isDateTimeMark mark then do
        let (time, chars) ← Time.read? chars
        return .instant date time (← readOffset? chars)
      else none
  | none => do
      let (time, chars) ← Time.read? chars
      if chars = [] then return .clock time else none

end Scriptorium.Settings
