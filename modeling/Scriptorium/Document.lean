import Scriptorium.Change.History
import Scriptorium.Event
import Scriptorium.Lines

/-!
# Documents

A document is the text of one script with its version and the history of its edits. An accepted
edit raises the version by one and leaves a record; replacing the whole text raises the version as
well but ends the history. A refused edit changes nothing.
-/

namespace Scriptorium

/-- One script: its text, how it came about, and whether an editor has it open. -/
structure Document where
  name : String
  text : String
  version : Nat
  history : History
  lines : LineTable
  isOpen : Bool
deriving DecidableEq, Repr, Inhabited

namespace Document

/-- A document at its first version, open, whose history keeps at most `limit` records. -/
def new (name text : String) (limit : Option Nat) : Document where
  name := name
  text := text
  version := 1
  history := .new 1 limit
  lines := .ofText text
  isOpen := true

def size (document : Document) : Nat :=
  Text.size document.text

/-- The part of the text that a span covers, if the span fits. -/
def slice (document : Document) (span : Span) : Except Error String := do
  Text.check document.text span
  return Text.slice document.text span

def setOpen (document : Document) (isOpen : Bool) : Document :=
  { document with isOpen := isOpen }

def succ (document : Document) (text : String) (history : History) : Document :=
  { document with
    text := text
    version := document.version + 1
    history := history
    lines := .ofText text }

def replace (document : Document) (text : String) : Logged Document :=
  let version := document.version + 1
  ⟨document.succ text (document.history.reset version),
    [.replaced document.name version (Text.size text)]⟩

def recordOf (document : Document) (span : Span) (inserted : String) : Record :=
  ⟨Text.size (Text.splice document.text span inserted), ⟨span, Text.size inserted⟩⟩

/-- The document after an edit whose span fits. -/
def spliced (document : Document) (span : Span) (inserted : String) : Document :=
  document.succ (Text.splice document.text span inserted)
    (document.history.push (document.recordOf span inserted))

/-- Replaces the bytes of a span, if the span fits. -/
def edit (document : Document) (span : Span) (inserted : String) :
    Except Error (Logged (Document × Record)) := do
  Text.check document.text span
  return ⟨(document.spliced span inserted, document.recordOf span inserted),
    [.edited document.name (document.version + 1) span (Text.size inserted)]⟩

def deltaSince (document : Document) (version : Nat) : Except Error Delta :=
  document.history.since document.version version

/-! ### Runs -/

/-- What changes the text of a document. -/
inductive Action where
  | edit (span : Span) (inserted : String)
  | replace (text : String)
deriving DecidableEq, Repr, Inhabited

/-- Performs an action. A refused edit leaves the document as it is. -/
def perform (document : Document) : Action → Document
  | .edit span inserted =>
      match document.edit span inserted with
      | .ok result => result.value.1
      | .error _ => document
  | .replace text => (document.replace text).value

def performAll (document : Document) (actions : List Action) : Document :=
  actions.foldl perform document

theorem edit_eq_ok {document : Document} {span : Span} (h : Text.Fits document.text span)
    (inserted : String) :
    document.edit span inserted =
      .ok ⟨(document.spliced span inserted, document.recordOf span inserted),
        [.edited document.name (document.version + 1) span (Text.size inserted)]⟩ := by
  simp [edit, Text.check_eq_ok_iff.2 h, bind, Except.bind, pure, Except.pure]

theorem edit_eq_error {document : Document} {span : Span} (h : ¬ Text.Fits document.text span)
    (inserted : String) :
    document.edit span inserted = .error (.misplaced span document.size) := by
  simp [edit, Text.check, h, bind, Except.bind, size]

theorem exists_edit_iff {document : Document} {span : Span} {inserted : String} :
    (∃ result, document.edit span inserted = .ok result) ↔ Text.Fits document.text span := by
  by_cases h : Text.Fits document.text span
  · simp [edit_eq_ok h, h]
  · simp [edit_eq_error h, h]

theorem edit_eq_error_iff {document : Document} {span : Span} {inserted : String}
    {cause : Error} :
    document.edit span inserted = .error cause ↔
      ¬ Text.Fits document.text span ∧ cause = .misplaced span document.size := by
  by_cases h : Text.Fits document.text span
  · simp [edit_eq_ok h, h]
  · simp [edit_eq_error h, h, eq_comm]

theorem perform_edit (document : Document) (span : Span) (inserted : String) :
    document.perform (.edit span inserted) =
      if Text.Fits document.text span then document.spliced span inserted else document := by
  by_cases h : Text.Fits document.text span
  · simp [perform, edit_eq_ok h, h]
  · simp [perform, edit_eq_error h, h]

@[simp] theorem performAll_nil (document : Document) : document.performAll [] = document := rfl

@[simp] theorem performAll_cons (document : Document) (action : Action) (actions : List Action) :
    document.performAll (action :: actions) = (document.perform action).performAll actions := rfl

theorem performAll_append (document : Document) (first second : List Action) :
    document.performAll (first ++ second) = (document.performAll first).performAll second := by
  simp [performAll]

end Document

end Scriptorium
