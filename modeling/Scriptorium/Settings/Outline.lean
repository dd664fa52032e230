import Scriptorium.Settings.Value

/-!
# Outlines

A settings file is a list of assignments, followed by sections that start with a header. The outline
of a file is that list: it says where each value stands but not yet which table it belongs to.
Writing a table starts by laying it out: first the values that fit a line, then a section for each
table that needs one. Tables and arrays of tables are not kept apart: their sections come together,
in the order of their keys.
-/

namespace Scriptorium.Settings

/-- A value under a path of keys. The parents name the tables between the section and the key. -/
structure Assignment where
  parents : List String
  key : String
  value : Value
deriving Repr, Inhabited

/-- A header opens a table, or appends one to an array of tables. -/
inductive Heading where
  | table
  | element
deriving DecidableEq, Repr, Inhabited

/-- A header with its path, and the assignments after it. -/
structure Section where
  heading : Heading
  parents : List String
  key : String
  body : List Assignment
deriving Repr, Inhabited

/-- The assignments before the first header, and the sections. -/
structure Outline where
  body : List Assignment
  sections : List Section
deriving Repr, Inhabited

namespace Outline

/-- The entries that have no header of their own, as assignments. -/
def plain (entries : List (String × Value)) : List Assignment :=
  (entries.filter fun entry => !entry.2.hasHeader).map fun entry => ⟨[], entry.1, entry.2⟩

/-- A table needs its header if it has values of its own, or no header below it would name it. -/
def needsHeader (entries : List (String × Value)) : Bool :=
  entries.any (fun entry => !entry.2.hasHeader) || entries.all (fun entry => !entry.2.hasHeader)

mutual

/-- The sections of one entry of the table that the parents lead to. -/
def sectionsOf (parents : List String) (key : String) : Value → List Section
  | .table entries =>
      (if needsHeader entries then [⟨.table, parents, key, plain entries⟩] else []) ++
        sectionsIn (parents ++ [key]) entries
  | .array items => if items.all Value.isTable then elementsOf parents key items else []
  | _ => []

def elementsOf (parents : List String) (key : String) : List Value → List Section
  | [] => []
  | .table entries :: rest =>
      ⟨.element, parents, key, plain entries⟩ ::
        (sectionsIn (parents ++ [key]) entries ++ elementsOf parents key rest)
  | _ :: rest => elementsOf parents key rest

def sectionsIn (parents : List String) : List (String × Value) → List Section
  | [] => []
  | (key, value) :: rest => sectionsOf parents key value ++ sectionsIn parents rest

end

def ofTable (table : Table) : Outline :=
  ⟨plain table, sectionsIn [] table⟩

end Outline

end Scriptorium.Settings
