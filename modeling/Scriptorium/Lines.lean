import Scriptorium.Text

/-!
# Lines

A line ends with a line feed, with a carriage return and a line feed, or with a lone carriage
return. A table of line starts answers which offset a line and column name and which line and
column an offset has. Lines and columns count from one, and columns count bytes.
-/

namespace Scriptorium

/-- A line and a column, both counted from one. -/
structure Position where
  line : Nat
  column : Nat
deriving DecidableEq, Repr, Inhabited

abbrev lineFeed : UInt8 := 10

abbrev carriageReturn : UInt8 := 13

/-- The offsets right after the line terminators of some bytes, of which the first has the offset
`offset`. -/
def lineBreaks (offset : Nat) : List UInt8 → List Nat
  | [] => []
  | 13 :: 10 :: rest => (offset + 2) :: lineBreaks (offset + 2) rest
  | byte :: rest =>
      if byte = carriageReturn ∨ byte = lineFeed then
        (offset + 1) :: lineBreaks (offset + 1) rest
      else
        lineBreaks (offset + 1) rest

/-- What is known of a text for converting positions: where its lines start, which offsets split a
character, and how long it is. -/
structure LineTable where
  starts : List Nat
  splits : List Nat
  size : Nat
deriving DecidableEq, Repr, Inhabited

namespace LineTable

def ofText (text : String) : LineTable where
  starts := 0 :: lineBreaks 0 (Text.bytes text)
  splits := (List.range (Text.size text)).filter fun offset => ¬ Text.IsBoundary text offset
  size := Text.size text

def lineCount (table : LineTable) : Nat :=
  table.starts.length

/-- An offset is a boundary when it is not past the end and splits no character. -/
def isBoundary (table : LineTable) (offset : Nat) : Bool :=
  offset ≤ table.size && !table.splits.contains offset

/-- A line, counted from zero, holds the offsets before the start of the next one. The last line
holds the end of the text as well. -/
def lineHolds (table : LineTable) (line offset : Nat) : Bool :=
  match table.starts[line + 1]? with
  | some next => offset < next
  | none => offset ≤ table.size

/-- The offset of a position. The column is added to the start of its line before anything is known
of it, and where the sum is no word, there is no answer. -/
def offset (table : LineTable) (line column : Nat) : Except Error Nat :=
  match line, column with
  | line + 1, column + 1 =>
      match table.starts[line]? with
      | none => .error (.noSuchPosition (line + 1) (column + 1))
      | some start =>
          if wordCount ≤ start + column then .error .overflow
          else if table.lineHolds line (start + column) ∧ table.isBoundary (start + column) then
            .ok (start + column)
          else
            .error (.noSuchPosition (line + 1) (column + 1))
  | line, column => .error (.noSuchPosition line column)

/-- The line and column of an offset: the line is the number of starts up to the offset. -/
def position (table : LineTable) (offset : Nat) : Except Error Position :=
  if table.isBoundary offset then
    let line := table.starts.countP (· ≤ offset)
    .ok ⟨line, offset - table.starts.getD (line - 1) 0 + 1⟩
  else
    .error (.misplaced (.point offset) table.size)

end LineTable

end Scriptorium
