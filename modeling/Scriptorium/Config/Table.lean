import Scriptorium.Config

/-!
# Configurations as tables

The parts of a configuration stand under four keys. Other keys are ignored, but the numbers under
them must still fit a machine word. The compiler's settings hold integers of 64 bits with a sign,
and in them a table whose first key is the mark of a date-time stands for a date-time, whatever its
other keys hold. A decimal that is too large to be a float fits nowhere else.
-/

namespace Scriptorium

open Settings

namespace DuplicatePolicy

def name : DuplicatePolicy → String
  | reject => "reject"
  | overwrite => "overwrite"

def ofName? (name : String) : Option DuplicatePolicy :=
  if name = "reject" then some .reject
  else if name = "overwrite" then some .overwrite
  else none

/-- The policy of a value: a name, or a name as the only key of a table that holds nothing. -/
def ofValue? : Value → Option DuplicatePolicy
  | .string name => ofName? name
  | .table [(name, .table [])] => ofName? name
  | .table [(name, .array [])] => ofName? name
  | _ => none

end DuplicatePolicy

namespace Config

/-- The key that marks a table as a date-time. -/
def momentKey : String := "$__toml_private_datetime"

mutual

/-- The compiler setting of a value, if its numbers are in range. -/
def adopt? : Value → Option Value
  | .integer value =>
      if -(Nat.pow 2 63 : Int) ≤ value ∧ value < Nat.pow 2 63 then some (.integer value) else none
  | .excess => none
  | .array items => (adoptItems? items).map .array
  | .table entries =>
      match entries with
      | (key, value) :: rest =>
          if key = momentKey then
            match value with
            | .string text => (Moment.read? text.toList).map .moment
            | _ => none
          else do return .table ((key, ← adopt? value) :: (← adoptEntries? rest))
      | [] => some (.table [])
  | value => some value

def adoptItems? : List Value → Option (List Value)
  | [] => some []
  | item :: rest => do return (← adopt? item) :: (← adoptItems? rest)

def adoptEntries? : List (String × Value) → Option (List (String × Value))
  | [] => some []
  | (key, value) :: rest => do return (key, ← adopt? value) :: (← adoptEntries? rest)

end

mutual

/-- A value can be ignored when its decimals are floats and its integers fit 128 bits, with or
without a sign. -/
def ignorable : Value → Bool
  | .integer value => -(Nat.pow 2 127 : Int) ≤ value && value < Nat.pow 2 128
  | .excess => false
  | .array items => ignorableItems items
  | .table entries => ignorableEntries entries
  | _ => true

def ignorableItems : List Value → Bool
  | [] => true
  | item :: rest => ignorable item && ignorableItems rest

def ignorableEntries : List (String × Value) → Bool
  | [] => true
  | (_, value) :: rest => ignorable value && ignorableEntries rest

end

/-- A history limit is an unsigned integer of 64 bits. -/
def limitOf? : Value → Option Nat
  | .integer value => if 0 ≤ value ∧ value < wordCount then some value.toNat else none
  | _ => none

def rootOf? : Value → Option String
  | .string text => some text
  | _ => none

/-- Compiler settings are a table. A date-time counts as the table that stands for it. -/
def compilationOf? : Value → Option Settings.Table
  | .table entries => adoptEntries? entries
  | .moment moment => some [(momentKey, .string (.ofList moment.render))]
  | _ => none

def addEntry (config : Config) (entry : String × Value) : Option Config :=
  match entry with
  | (key, value) =>
      if key = "history_limit" then do
        return { config with historyLimit := some (← limitOf? value) }
      else if key = "on_duplicate" then do
        return { config with onDuplicate := ← DuplicatePolicy.ofValue? value }
      else if key = "scripts_root" then do
        return { config with scriptsRoot := some (← rootOf? value) }
      else if key = "compilation" then do
        return { config with compilation := some (← compilationOf? value) }
      else if ignorable value then some config
      else none

/-- The configuration of a table, unless one of its values does not fit. -/
def ofTable? (table : Settings.Table) : Option Config :=
  table.foldlM addEntry .empty

/-- The table of a configuration, in the order of its keys. What is not set is left out. -/
def toTable (config : Config) : Settings.Table :=
  (config.compilation.map fun table => ("compilation", Value.table table)).toList ++
    (config.historyLimit.map fun limit => ("history_limit", Value.integer limit)).toList ++
    [("on_duplicate", Value.string config.onDuplicate.name)] ++
    (config.scriptsRoot.map fun root => ("scripts_root", Value.string root)).toList

end Config

end Scriptorium
