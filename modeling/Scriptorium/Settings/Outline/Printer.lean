import Scriptorium.Settings.Numeral
import Scriptorium.Settings.Outline
import Scriptorium.Settings.Quoted

/-!
# Printed outlines

An assignment takes a line, except that an array of two or more values puts each of them on a line
of its own. A blank line stands before each header.
-/

namespace Scriptorium.Settings

namespace Value

mutual

/-- A value as it is written after an equals sign. -/
def render : Value → List Char
  | .string text => quote text
  | .integer value => renderInteger value
  | .float value => renderFloat value
  | .excess => ['1', 'e', '9', '9', '9']
  | .boolean true => ['t', 'r', 'u', 'e']
  | .boolean false => ['f', 'a', 'l', 's', 'e']
  | .moment value => value.render
  | .array [] => ['[', ']']
  | .array [item] => '[' :: render item ++ [']']
  | .array items => '[' :: '\n' :: renderItems items ++ [']']
  | .table [] => ['\x7b', '\x7d']
  | .table entries => '\x7b' :: ' ' :: renderEntries entries ++ [' ', '\x7d']

/-- The values of an array, each on a line. -/
def renderItems : List Value → List Char
  | [] => []
  | item :: rest => [' ', ' ', ' ', ' '] ++ render item ++ [',', '\n'] ++ renderItems rest

/-- The entries of a table on a line. -/
def renderEntries : List (String × Value) → List Char
  | [] => []
  | [(key, value)] => renderKey key ++ [' ', '=', ' '] ++ render value
  | (key, value) :: rest =>
      renderKey key ++ [' ', '=', ' '] ++ render value ++ [',', ' '] ++ renderEntries rest

end

end Value

def renderPath : List String → String → List Char
  | [], key => renderKey key
  | parent :: rest, key => renderKey parent ++ '.' :: renderPath rest key

def Assignment.render (assignment : Assignment) : List Char :=
  renderPath assignment.parents assignment.key ++
    [' ', '=', ' '] ++ assignment.value.render ++ ['\n']

/-- A blank line, the header, and the lines after it. -/
def Section.render (part : Section) : List Char :=
  let path := renderPath part.parents part.key
  let header :=
    match part.heading with
    | .table => '[' :: path ++ [']']
    | .element => '[' :: '[' :: path ++ [']', ']']
  '\n' :: header ++ '\n' :: part.body.flatMap Assignment.render

def Outline.render (outline : Outline) : List Char :=
  outline.body.flatMap Assignment.render ++ outline.sections.flatMap Section.render

end Scriptorium.Settings
