import Scriptorium.Settings.Value
import Scriptorium.Store

/-!
# Configurations

A configuration says how a host keeps histories, what it does with names that are registered twice,
where it finds scripts, and which settings it hands to the compiler.
-/

namespace Scriptorium

/-- The configuration of a host. -/
structure Config where
  /-- How many edit records a script keeps at most; all, if not set. -/
  historyLimit : Option Nat
  onDuplicate : DuplicatePolicy
  scriptsRoot : Option String
  /-- Settings for the compiler, which are handed on untouched. -/
  compilation : Option Settings.Table
deriving Repr

/-- Nothing is set, and duplicates are refused. -/
def Config.empty : Config :=
  ⟨none, .reject, none, none⟩

instance : Inhabited Config := ⟨.empty⟩

end Scriptorium
