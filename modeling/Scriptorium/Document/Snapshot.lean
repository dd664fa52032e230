import Scriptorium.Document

/-!
# Snapshots

A snapshot is what a document was at one version. Later edits of the document do not reach it, and
it answers from the history that the document had when it was taken.
-/

namespace Scriptorium

/-- A document as it was at one version. -/
structure Snapshot where
  version : Nat
  text : String
  lines : LineTable
  history : History
deriving DecidableEq, Repr, Inhabited

def Document.snapshot (document : Document) : Snapshot :=
  ⟨document.version, document.text, document.lines, document.history⟩

namespace Snapshot

def size (snapshot : Snapshot) : Nat :=
  Text.size snapshot.text

def slice (snapshot : Snapshot) (span : Span) : Except Error String := do
  Text.check snapshot.text span
  return Text.slice snapshot.text span

def deltaSince (snapshot : Snapshot) (version : Nat) : Except Error Delta :=
  snapshot.history.since snapshot.version version

/-- The change from an older snapshot, which is told from others by its version alone. -/
def deltaFrom (snapshot older : Snapshot) : Except Error Delta :=
  snapshot.deltaSince older.version

end Snapshot

end Scriptorium
