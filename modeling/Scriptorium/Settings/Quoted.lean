/-!
# Quoted texts

A text in a settings file stands between quotes, of which there are four kinds. Between single
quotes nothing has a special meaning; between double quotes a backslash starts an escape. Tripled
quotes of either kind may hold line breaks, and a line break right after the opening ones does not
count. Writing picks the first kind that can hold the text without an escape, with a few exceptions
that the cases below spell out; reading accepts all four.

A text without a special character may be a key as it stands.
-/

namespace Scriptorium.Settings

/-- A control character other than tab and line feed. -/
def isControl (char : Char) : Bool :=
  (char.toNat < 0x20 && char ≠ '\t' && char ≠ '\n') || char.toNat = 0x7f

/-- A blank inside a line. -/
def isBlank (char : Char) : Bool :=
  char = ' ' || char = '\t'

/-- A character that a key may have without being quoted. -/
def isBare (char : Char) : Bool :=
  char.isAlphanum || char = '_' || char = '-'

/-! ### Writing -/

/-- The length of the longest run of a character, given the run that ends here. -/
def longestRun (char : Char) (current : Nat) : List Char → Nat
  | [] => current
  | first :: rest =>
      if first = char then longestRun char (current + 1) rest
      else max current (longestRun char 0 rest)

def hexDigit (value : Nat) : Char :=
  if value < 10 then Char.ofNat (48 + value) else Char.ofNat (55 + value)

/-- A character between double quotes, where it is no quote. A line feed stands for itself between
tripled quotes. -/
def escape (tripled : Bool) (char : Char) : List Char :=
  if char = '\x08' then ['\\', 'b']
  else if char = '\t' then ['\\', 't']
  else if char = '\n' then if tripled then ['\n'] else ['\\', 'n']
  else if char = '\x0c' then ['\\', 'f']
  else if char = '\r' then ['\\', 'r']
  else if char = '\\' then ['\\', '\\']
  else if isControl char then
    ['\\', 'u', '0', '0', hexDigit (char.toNat / 16), hexDigit (char.toNat % 16)]
  else [char]

/-- A text between double quotes. Between tripled ones a quote is escaped only if two unescaped ones
stand before it. -/
def escapes (tripled : Bool) (run : Nat) : List Char → List Char
  | [] => []
  | '"' :: rest =>
      if tripled ∧ run < 2 then '"' :: escapes tripled (run + 1) rest
      else '\\' :: '"' :: escapes tripled 0 rest
  | char :: rest => escape tripled char ++ escapes tripled 0 rest

inductive Quotes where
  | basic
  | literal
  | tripledBasic
  | tripledLiteral
deriving DecidableEq, Repr

def Quotes.forText (text : List Char) : Quotes :=
  let control := text.any isControl
  let backslash := text.contains '\\'
  let newline := text.contains '\n'
  if !control && !backslash && !newline && !text.contains '"' then .basic
  else if !control && !newline && !text.contains '\'' then .literal
  else if !control && !backslash && longestRun '"' 0 text ≤ 2 then .tripledBasic
  else if !control && longestRun '\'' 0 text ≤ 2 then .tripledLiteral
  else if newline then .tripledBasic
  else .basic

/-- A text in the given kind of quotes. Tripled quotes are followed by a line break if the text has
one. -/
def Quotes.render (quotes : Quotes) (text : List Char) : List Char :=
  let lead := if text.contains '\n' then ['\n'] else []
  match quotes with
  | .basic => '"' :: escapes false 0 text ++ ['"']
  | .literal => '\'' :: text ++ ['\'']
  | .tripledBasic => ['"', '"', '"'] ++ lead ++ escapes true 0 text ++ ['"', '"', '"']
  | .tripledLiteral => ['\'', '\'', '\''] ++ lead ++ text ++ ['\'', '\'', '\'']

def quote (text : String) : List Char :=
  (Quotes.forText text.toList).render text.toList

/-- A key as it is written, always on one line. -/
def renderKey (key : String) : List Char :=
  let text := key.toList
  let control := text.any fun char => isControl char || char = '\n'
  if text ≠ [] ∧ text.all isBare then text
  else if !control && !text.contains '\\' && !text.contains '"' then Quotes.basic.render text
  else if !control && !text.contains '\'' then Quotes.literal.render text
  else Quotes.basic.render text

/-! ### Reading -/

/-- Puts a character before a text that was read. What is left stays the same. -/
def pushChar (char : Char) (read : Option (List Char × List Char)) :
    Option (List Char × List Char) :=
  read.map fun (text, rest) => (char :: text, rest)

def hexValue? (char : Char) : Option Nat :=
  if char.isDigit then some (char.toNat - 48)
  else if 'a' ≤ char ∧ char ≤ 'f' then some (char.toNat - 87)
  else if 'A' ≤ char ∧ char ≤ 'F' then some (char.toNat - 55)
  else none

/-- The character that a letter after a backslash stands for. -/
def unescape? : Char → Option Char
  | 'b' => some '\x08'
  | 't' => some '\t'
  | 'n' => some '\n'
  | 'f' => some '\x0c'
  | 'r' => some '\r'
  | 'e' => some '\x1b'
  | '"' => some '"'
  | '\\' => some '\\'
  | _ => none

def escapeDigits? : Char → Option Nat
  | 'x' => some 2
  | 'u' => some 4
  | 'U' => some 8
  | _ => none

/-- The character of a code point, which is no surrogate. -/
def charOf? (code : Nat) : Option Char :=
  if code.isValidChar then some (Char.ofNat code) else none

/-- A character that may stand between quotes as it is: no control character, and a line break only
between tripled quotes. -/
def mayStand (tripled : Bool) (char : Char) (rest : List Char) : Bool :=
  if char = '\n' then tripled
  else if char = '\r' then tripled && rest.head? = some '\n'
  else !isControl char

/-- What closing quotes leave, if the characters start with them: further text and the rest. Up to
two quotes after tripled ones belong to the text. -/
def closing? (tripled : Bool) (mark : Char) : List Char → Option (List Char × List Char)
  | [] => none
  | first :: rest =>
      if first ≠ mark then none
      else if !tripled then some ([], rest)
      else
        match rest with
        | second :: third :: rest =>
            if second = mark ∧ third = mark then
              let further := (rest.take 2).takeWhile (· = mark)
              some (further, rest.drop further.length)
            else none
        | _ => none

/-- Where the reading of a text between double quotes stands. -/
inductive Reading where
  /-- In the text itself, or still in the margin after joined lines, which does not count. -/
  | text (inMargin : Bool)
  /-- After a backslash. -/
  | escaped
  /-- Before this many more digits of a code point, whose digits so far have the value. -/
  | digits (left value : Nat)
  /-- After a backslash at the end of a line, which has not ended yet. -/
  | lineEnd

/-- How reading goes on after a character at the end of a line that a backslash joins to the next
one. -/
def joining? (char : Char) (rest : List Char) : Option Reading :=
  if char = '\n' then some (.text true)
  else if isBlank char ∨ (char = '\r' ∧ rest.head? = some '\n') then some .lineEnd
  else none

def readBasic (tripled : Bool) : Reading → List Char → Option (List Char × List Char)
  | _, [] => none
  | .text inMargin, char :: rest =>
      if inMargin ∧ (joining? char rest).isSome then readBasic tripled (.text true) rest
      else
        match closing? tripled '"' (char :: rest) with
        | some closed => some closed
        | none =>
            if char = '\\' then readBasic tripled .escaped rest
            else if mayStand tripled char rest then
              pushChar char (readBasic tripled (.text false) rest)
            else none
  | .escaped, char :: rest =>
      match unescape? char, escapeDigits? char with
      | some meant, _ => pushChar meant (readBasic tripled (.text false) rest)
      | none, some count => readBasic tripled (.digits count 0) rest
      | none, none =>
          if tripled then (joining? char rest).bind fun next => readBasic tripled next rest
          else none
  | .digits left value, char :: rest => do
      let digit ← hexValue? char
      if left ≤ 1 then
        let meant ← charOf? (value * 16 + digit)
        pushChar meant (readBasic tripled (.text false) rest)
      else readBasic tripled (.digits (left - 1) (value * 16 + digit)) rest
  | .lineEnd, char :: rest =>
      (joining? char rest).bind fun next => readBasic tripled next rest

def readLiteral (tripled : Bool) : List Char → Option (List Char × List Char)
  | [] => none
  | char :: rest =>
      match closing? tripled '\'' (char :: rest) with
      | some closed => some closed
      | none =>
          if mayStand tripled char rest then pushChar char (readLiteral tripled rest) else none

/-- What follows a line break at the start, if there is one. -/
def skipBreak : List Char → List Char
  | '\n' :: rest => rest
  | '\r' :: '\n' :: rest => rest
  | chars => chars

/-- Reads a text after its opening quotes. -/
def Quotes.read? : Quotes → List Char → Option (List Char × List Char)
  | .basic, chars => readBasic false (.text false) chars
  | .literal, chars => readLiteral false chars
  | .tripledBasic, chars => readBasic true (.text false) (skipBreak chars)
  | .tripledLiteral, chars => readLiteral true (skipBreak chars)

/-- Tells the kind of quotes that the characters start with, and what follows them. -/
def Quotes.open? : List Char → Option (Quotes × List Char)
  | '"' :: '"' :: '"' :: rest => some (.tripledBasic, rest)
  | '"' :: rest => some (.basic, rest)
  | '\'' :: '\'' :: '\'' :: rest => some (.tripledLiteral, rest)
  | '\'' :: rest => some (.literal, rest)
  | _ => none

def readQuoted (chars : List Char) : Option (String × List Char) := do
  let (quotes, rest) ← Quotes.open? chars
  let (text, rest) ← quotes.read? rest
  return (.ofList text, rest)

/-- Reads a key: a text in quotes on one line, or bare characters. -/
def readKey : List Char → Option (String × List Char)
  | '"' :: rest => (Quotes.basic.read? rest).map (Prod.map .ofList id)
  | '\'' :: rest => (Quotes.literal.read? rest).map (Prod.map .ofList id)
  | chars =>
      match chars.takeWhile isBare with
      | [] => none
      | key => some (.ofList key, chars.dropWhile isBare)

end Scriptorium.Settings
