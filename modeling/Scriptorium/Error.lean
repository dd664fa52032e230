import Scriptorium.Span

/-!
# Causes of refusal

Every request about scripts that cannot be met names its cause. A refused request changes nothing,
so the cause is all that it leaves behind.

Two of the causes are no answers: a number that fits no word, and a record that should be kept and
is not. A program that checks its sums and its reads ends there. One that goes on with the remainder
of a sum modulo the words has some other answer, or none.
-/

namespace Scriptorium

/-- Why a request about a script was refused. -/
inductive Error where
  | untracked (name : String)
  | alreadyTracked (name : String)
  /-- The span is out of order, leaves a text of this size, or splits a character of it. -/
  | misplaced (span : Span) (size : Nat)
  /-- The span of a proposed edit ends before it starts. -/
  | inverted (span : Span)
  | noSuchPosition (line column : Nat)
  | futureVersion (requested current : Nat)
  /-- Two edits of one batch overlap without one containing the other. -/
  | conflict (first second : Span)
  /-- A computed offset or length is not a 64-bit word: there is no answer. -/
  | overflow
  /-- The requested version lies after every record kept: there is no answer. -/
  | beyondRecords
deriving DecidableEq, Repr, Inhabited

/-- The wording of a cause, where it is an answer. -/
def Error.message? : Error → Option String
  | untracked name => some ("No script with name '" ++ name ++ "'")
  | alreadyTracked name => some ("Script '" ++ name ++ "' is already registered")
  | misplaced span size =>
      some ("Range " ++ toString span.start ++ ".." ++ toString span.stop ++
        " is invalid for text of length " ++ toString size)
  | inverted span =>
      some ("Range " ++ toString span.start ++ ".." ++ toString span.stop ++
        " ends before it starts")
  | noSuchPosition line column =>
      some ("Line " ++ toString line ++ ", column " ++ toString column ++ " is outside the script")
  | futureVersion requested current =>
      some ("Version " ++ toString requested ++ " is newer than current version " ++
        toString current)
  | conflict first second =>
      some ("Trying to apply overlapping edits at " ++ first.describe ++ " and " ++
        second.describe)
  | overflow | beyondRecords => none

end Scriptorium
