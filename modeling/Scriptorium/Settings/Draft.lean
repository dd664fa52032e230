import Scriptorium.Settings.Outline

/-!
# Drafts

Putting an outline together makes tables, and how a table came about decides who may add to it. A
header declares a table. A table that only stands in the path of a header is implied and may still
be declared. A table that stands in the path of a key belongs to the section that made it. Every
other value, a table between braces included, is complete.
-/

namespace Scriptorium.Settings

/-- How a table came about. -/
inductive Origin where
  /-- By a header of its own. -/
  | declared
  /-- In the path of a header. -/
  | implied
  /-- In the path of a key. -/
  | dotted
deriving DecidableEq, Repr, Inhabited

/-- A value that may not be complete yet. -/
inductive Draft where
  | final (value : Value)
  | table (origin : Origin) (entries : List (String × Draft))
  /-- The tables of an array, the last one being open. Those before it are listed backwards. -/
  | tables (earlier : List Draft) (last : List (String × Draft))
deriving Repr, Inhabited

/-- The entries of a table that may not be complete yet. -/
abbrev Drafts := List (String × Draft)

namespace Draft

mutual

/-- The value of a draft when nothing more is to come. -/
def complete : Draft → Value
  | .final value => value
  | .table _ entries => .table (completeEntries entries)
  | .tables earlier last =>
      .array ((completeItems earlier).reverse ++ [.table (completeEntries last)])

def completeItems : List Draft → List Value
  | [] => []
  | draft :: rest => complete draft :: completeItems rest

def completeEntries : List (String × Draft) → List (String × Value)
  | [] => []
  | (key, draft) :: rest => (key, complete draft) :: completeEntries rest

end

end Draft

namespace Drafts

/-- Follows the path of a header from a table, changes the table at its end, and makes the tables
that the path needs. An array of tables is followed into its last one. -/
def inHeader (change : Drafts → Option Drafts) : List String → Drafts → Option Drafts
  | [], drafts => change drafts
  | key :: rest, drafts =>
      match drafts.lookup key with
      | none => do return setKey key (.table .implied (← inHeader change rest [])) drafts
      | some (.table origin entries) => do
          return setKey key (.table origin (← inHeader change rest entries)) drafts
      | some (.tables earlier last) => do
          return setKey key (.tables earlier (← inHeader change rest last)) drafts
      | some (.final _) => none

/-- Follows the parents of a key from a table of the given origin and changes the table at their
end. Tables that a header declared are not followed, and the last table must be one that such a path
has made, unless there are no parents. -/
def inKey (change : Drafts → Option Drafts) (origin : Origin) :
    List String → Drafts → Option Drafts
  | [], drafts => if origin = .dotted then change drafts else none
  | key :: rest, drafts =>
      match drafts.lookup key with
      | none => do return setKey key (.table .dotted (← inKey change .dotted rest [])) drafts
      | some (.table .declared _) => none
      | some (.table origin entries) => do
          return setKey key (.table origin (← inKey change origin rest entries)) drafts
      | some (.tables earlier last) => do
          return setKey key (.tables earlier (← inKey change .declared rest last)) drafts
      | some (.final _) => none

def define (key : String) (value : Value) (drafts : Drafts) : Option Drafts :=
  match drafts.lookup key with
  | none => some (setKey key (.final value) drafts)
  | some _ => none

/-- Adds an assignment to the table of its section. -/
def assign (drafts : Drafts) (assignment : Assignment) : Option Drafts :=
  match assignment.parents with
  | [] => define assignment.key assignment.value drafts
  | parents => inKey (define assignment.key assignment.value) .declared parents drafts

def assignAll (drafts : Drafts) (body : List Assignment) : Option Drafts :=
  body.foldlM assign drafts

/-- Opens the table of a section in the table that its parents lead to, and fills it. -/
def openSection (part : Section) (drafts : Drafts) : Option Drafts :=
  match part.heading, drafts.lookup part.key with
  | .table, none => do
      return setKey part.key (.table .declared (← assignAll [] part.body)) drafts
  | .table, some (.table .implied entries) => do
      return setKey part.key (.table .declared (← assignAll entries part.body)) drafts
  | .element, none => do return setKey part.key (.tables [] (← assignAll [] part.body)) drafts
  | .element, some (.tables earlier last) => do
      return setKey part.key
        (.tables (.table .declared last :: earlier) (← assignAll [] part.body)) drafts
  | _, _ => none

def addSection (drafts : Drafts) (part : Section) : Option Drafts :=
  inHeader (openSection part) part.parents drafts

end Drafts

/-- The table of an outline, unless its parts contradict each other. -/
def Outline.toTable? (outline : Outline) : Option Table := do
  let drafts ← Drafts.assignAll [] outline.body
  let drafts ← outline.sections.foldlM Drafts.addSection drafts
  return Draft.completeEntries drafts

/-- The table of assignments between braces. -/
def Table.ofAssignments? (body : List Assignment) : Option Table :=
  (Drafts.assignAll [] body).map Draft.completeEntries

end Scriptorium.Settings
