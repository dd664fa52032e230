import Scriptorium.Error

/-!
# Changes

A change says that the bytes of a span were replaced by a number of new bytes, without saying which.
The record of an edit adds how long the text was afterwards. From the records of consecutive edits
one change can be computed that covers them all: it starts at the least start, and it keeps the
shortest of the tails that the edits left untouched.
-/

namespace Scriptorium

/-- A span of an old text was replaced by `inserted` bytes. -/
structure Change where
  span : Span
  inserted : Nat
deriving DecidableEq, Repr, Inhabited

namespace Change

/-- The span that the inserted bytes cover in the new text. -/
def newSpan (change : Change) : Span :=
  ⟨change.span.start, change.span.start + change.inserted⟩

/-- By how much the text grew, negative when it shrank. -/
def growth (change : Change) : Int :=
  change.inserted - change.span.length

end Change

/-- The record of one edit. -/
structure Record where
  /-- The length of the text after the edit. -/
  resultingSize : Nat
  change : Change
deriving DecidableEq, Repr, Inhabited

namespace Record

/-- The number of bytes after the inserted ones, unless the record says that there are fewer than
none. -/
def tail (record : Record) : Except Error Nat :=
  if record.change.newSpan.stop ≤ record.resultingSize then
    .ok (record.resultingSize - record.change.newSpan.stop)
  else
    .error .overflow

end Record

/-- A computed offset as the 64-bit word it is congruent to. Only records that contradict each other
give an offset that is no word itself. -/
def wordOfInt (offset : Int) : Nat :=
  (offset % wordCount).toNat

/-- An offset in range is kept. -/
theorem wordOfInt_natCast {offset : Nat} (h : offset < wordCount) : wordOfInt offset = offset := by
  rw [wordOfInt, ← Int.natCast_emod, Int.toNat_natCast, Nat.mod_eq_of_lt h]

/-- A difference of offsets as a 64-bit word with a sign. -/
def signedWord (difference : Int) : Int :=
  difference.bmod wordCount

namespace Change

def growthOf : List Record → Int
  | [] => 0
  | record :: rest => record.change.growth + growthOf rest

/-- The change that covers a first edit and the ones after it, given the tails they left. -/
def cover (records : List Record) (tails : List Nat) : Option Change := do
  let last ← records.getLast?
  let start ← (records.map fun record => record.change.span.start).min?
  let tail ← tails.min?
  let growth := growthOf records
  let newStop := last.resultingSize - tail
  return ⟨⟨start, wordOfInt (newStop - growth)⟩, newStop - start⟩

/-- One change that covers all the given edits, oldest first, and none for no edits. -/
def collapse (records : List Record) : Except Error (Option Change) :=
  (records.mapM Record.tail).map (cover records)

end Change

/-- What is known about the change of a script between two versions. -/
inductive Delta where
  | unchanged
  /-- One change turns the older text into the newer one. -/
  | changed (change : Change)
  /-- The records needed are no longer kept. -/
  | unknown
deriving DecidableEq, Repr, Inhabited

end Scriptorium
