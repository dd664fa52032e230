import Scriptorium.Settings.Draft
import Scriptorium.Settings.Numeral
import Scriptorium.Settings.Quoted

/-!
# Parsed outlines

Every reader below takes characters and leaves the rest, or refuses. Values nest to a fixed depth,
on which the recursion into arrays and tables runs; the readers of lists of things make at most one
step for each character.
-/

namespace Scriptorium.Settings

/-- How deeply arrays and tables between braces may nest, and how many keys a path may have. -/
abbrev maxDepth : Nat := 80

def skipBlanks (chars : List Char) : List Char :=
  chars.dropWhile isBlank

/-- What follows blanks, line breaks and comments. The flag says whether a comment is open. -/
def skipTrivia : Bool → List Char → Option (List Char)
  | _, [] => some []
  | false, '\r' :: '\n' :: rest => skipTrivia false rest
  | false, char :: rest =>
      if isBlank char ∨ char = '\n' then skipTrivia false rest
      else if char = '#' then skipTrivia true rest
      else some (char :: rest)
  | true, '\r' :: '\n' :: rest => skipTrivia false rest
  | true, char :: rest =>
      if char = '\n' then skipTrivia false rest
      else if isControl char then none
      else skipTrivia true rest

/-- What follows the end of a line, before which only blanks and a comment may stand. The end of
the text ends a line. -/
def skipLineEnd : Bool → List Char → Option (List Char)
  | _, [] => some []
  | _, '\r' :: '\n' :: rest => some rest
  | inComment, char :: rest =>
      if char = '\n' then some rest
      else if inComment then if isControl char then none else skipLineEnd true rest
      else if isBlank char then skipLineEnd false rest
      else if char = '#' then skipLineEnd true rest
      else none

/-- Reads at most so many keys with points between them. Blanks may stand around the points and
after the keys. -/
def readPath : Nat → List Char → Option ((List String × String) × List Char)
  | 0, _ => none
  | steps + 1, chars => do
      let (key, chars) ← readKey chars
      match skipBlanks chars with
      | '.' :: chars => do
          let ((parents, last), chars) ← readPath steps (skipBlanks chars)
          return ((key :: parents, last), chars)
      | chars => return (([], key), chars)

/-- A character of a number, a date or a word. -/
def isScalarChar (char : Char) : Bool :=
  char.isAlphanum || char = '_' || char = '+' || char = '-' || char = '.' || char = ':'

def scalar? (chars : List Char) : Option Value :=
  if chars = ['t', 'r', 'u', 'e'] then some (.boolean true)
  else if chars = ['f', 'a', 'l', 's', 'e'] then some (.boolean false)
  else
    match readInteger? chars with
    | some value => some (.integer value)
    | none =>
        match readFloat? chars with
        | some (some value) => some (.float value)
        | some none => some .excess
        | none => (Moment.read? chars).map .moment

def isDate (chars : List Char) : Bool :=
  match Date.read? chars with
  | some (_, []) => true
  | _ => false

/-- Reads a value without quotes. A date and a time with a blank between them are one value. -/
def readScalar (chars : List Char) : Option (Value × List Char) :=
  let word := chars.takeWhile isScalarChar
  match chars.dropWhile isScalarChar with
  | ' ' :: char :: rest =>
      if isDate word ∧ char.isDigit then
        (scalar? (word ++ ' ' :: (char :: rest).takeWhile isScalarChar)).map
          (·, (char :: rest).dropWhile isScalarChar)
      else (scalar? word).map (·, ' ' :: char :: rest)
  | rest => (scalar? word).map (·, rest)

/-- Reads items with commas between them up to a closing mark. A comma may follow the last one. -/
def readItems {α : Type} (item : List Char → Option (α × List Char)) (close : Char) :
    Nat → List Char → Option (List α × List Char)
  | 0, _ => none
  | steps + 1, chars => do
      let chars ← skipTrivia false chars
      match chars with
      | [] => none
      | first :: rest =>
          if first = close then return ([], rest)
          else do
            let (value, chars) ← item (first :: rest)
            let chars ← skipTrivia false chars
            match chars with
            | ',' :: rest => do
                let (values, rest) ← readItems item close steps rest
                return (value :: values, rest)
            | last :: rest => if last = close then return ([value], rest) else none
            | [] => none

/-- Reads a path, an equals sign and a value. What may stand on either side of the equals sign is
skipped by the first argument. -/
def readAssignment (skip : List Char → Option (List Char))
    (value : List Char → Option (Value × List Char)) (chars : List Char) :
    Option (Assignment × List Char) := do
  let ((parents, key), chars) ← readPath maxDepth chars
  match ← skip chars with
  | '=' :: chars => do
      let (value, rest) ← value (← skip chars)
      return (⟨parents, key, value⟩, rest)
  | _ => none

/-- Reads a value that nests at most so deeply, and whose arrays and tables are read in at most so
many steps each. Between braces an assignment may take several lines. -/
def readValue (steps : Nat) : Nat → List Char → Option (Value × List Char)
  | _, '"' :: rest => (readQuoted ('"' :: rest)).map (Prod.map .string id)
  | _, '\'' :: rest => (readQuoted ('\'' :: rest)).map (Prod.map .string id)
  | 0, '[' :: _ => none
  | depth + 1, '[' :: rest => do
      let (items, rest) ← readItems (readValue steps depth) ']' steps rest
      return (.array items, rest)
  | 0, '\x7b' :: _ => none
  | depth + 1, '\x7b' :: rest => do
      let item := readAssignment (skipTrivia false) (readValue steps depth)
      let (body, rest) ← readItems item '\x7d' steps rest
      return (.table (← Table.ofAssignments? body), rest)
  | _, chars => readScalar chars

/-- A line that is not blank. -/
inductive Line where
  | assignment (assignment : Assignment)
  | header (heading : Heading) (parents : List String) (key : String)

/-- Reads a header after its first bracket. -/
def readHeader : List Char → Option (Line × List Char)
  | '[' :: chars => do
      let ((parents, key), chars) ← readPath maxDepth (skipBlanks chars)
      match chars with
      | ']' :: ']' :: rest => return (.header .element parents key, rest)
      | _ => none
  | chars => do
      let ((parents, key), chars) ← readPath maxDepth (skipBlanks chars)
      match chars with
      | ']' :: rest => return (.header .table parents key, rest)
      | _ => none

/-- Reads a header, or an assignment, which has only blanks around its equals sign. -/
def readLine (steps : Nat) : List Char → Option (Line × List Char)
  | '[' :: rest => readHeader rest
  | chars =>
      (readAssignment (some ∘ skipBlanks) (readValue steps maxDepth) chars).map
        (Prod.map .assignment id)

/-- Reads the lines up to the end of the text. -/
def readLines : Nat → List Char → Option (List Line)
  | _, [] => some []
  | 0, _ => none
  | steps + 1, chars =>
      match skipLineEnd false chars with
      | some rest => readLines steps rest
      | none => do
          let (line, chars) ← readLine steps (skipBlanks chars)
          let lines ← readLines steps (← skipLineEnd false chars)
          return line :: lines

namespace Outline

def addLine (line : Line) (outline : Outline) : Outline :=
  match line with
  | .assignment assignment => { outline with body := assignment :: outline.body }
  | .header heading parents key =>
      ⟨[], ⟨heading, parents, key, outline.body⟩ :: outline.sections⟩

def ofLines (lines : List Line) : Outline :=
  lines.foldr addLine ⟨[], []⟩

def read? (chars : List Char) : Option Outline :=
  (readLines (chars.length + 1) chars).map ofLines

end Outline

end Scriptorium.Settings
