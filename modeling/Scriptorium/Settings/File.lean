import Scriptorium.Settings.Outline.Parser
import Scriptorium.Settings.Outline.Printer

/-!
# Settings files

A settings file is a text in the TOML format. Writing lays a table out and prints the outline;
reading parses an outline and puts its table together. A byte order mark at the start of a file is
not part of it.
-/

namespace Scriptorium.Settings

/-- What follows a byte order mark. -/
def skipByteOrderMark : List Char → List Char
  | '\ufeff' :: rest => rest
  | chars => chars

namespace Table

def read? (text : String) : Option Table :=
  (Outline.read? (skipByteOrderMark text.toList)).bind Outline.toTable?

def write (table : Table) : String :=
  String.ofList (Outline.ofTable table).render

end Table

end Scriptorium.Settings
