import Scriptorium.Span

/-!
# Events

Operations report what they do as events. An event is data: which thing happened, to what. How it
is spelled for a log, with a level, a message and named fields, is derived from it.
-/

namespace Scriptorium

/-- What an operation reports. -/
inductive Event where
  /-- An edit of a batch was dropped because the kept one contains it. -/
  | nestedDropped (dropped kept : Span)
  | overlapFound (first second : Span)
  /-- A script of this name is about to be replaced by a new one. -/
  | overwriting (script : String)
  /-- A script entered the store at its first version. -/
  | registered (script : String) (size : Nat)
  | replaced (script : String) (version size : Nat)
  | edited (script : String) (version : Nat) (span : Span) (inserted : Nat)
  | removed (script : String)
  | changeRequested (script : String) (version : Nat)
  /-- The scripts below a directory were registered. -/
  | loaded (root : String) (count : Nat)
  /-- A new host has registered the scripts of its configured directory. -/
  | preloaded (root : String) (count : Nat)
  | logged (text : String)
deriving DecidableEq, Repr, Inhabited

namespace Event

inductive Level where
  | trace
  | debug
  | info
  | warn
deriving DecidableEq, Repr, Inhabited

/-- A field of an event holds a number or a text. -/
inductive Field where
  | number (value : Nat)
  | text (value : String)
deriving DecidableEq, Repr, Inhabited

/-- Changes of scripts are reported for debugging, and only a conflict is a warning. -/
def level : Event → Level
  | nestedDropped .. | changeRequested .. => .trace
  | overlapFound .. => .warn
  | overwriting .. | registered .. | replaced .. | edited .. | removed .. | loaded .. => .debug
  | preloaded .. | logged .. => .info

def message : Event → String
  | nestedDropped .. => "dropping nested edit"
  | overlapFound .. => "overlapping edits"
  | overwriting .. => "overwriting registered script"
  | registered .. => "registered script"
  | replaced .. => "replaced content"
  | edited .. => "applied edit"
  | removed .. => "removed script"
  | changeRequested .. => "edit range requested"
  | loaded .. => "loaded scripts"
  | preloaded .. => "preloaded scripts"
  | logged text => text

def fields : Event → List (String × Field)
  | nestedDropped dropped kept =>
      [("dropped", .text dropped.describe), ("kept", .text kept.describe)]
  | overlapFound first second =>
      [("first", .text first.describe), ("second", .text second.describe)]
  | overwriting script => [("script", .text script)]
  | registered script size => [("script", .text script), ("len", .number size)]
  | replaced script version size =>
      [("script", .text script), ("version", .number version), ("len", .number size)]
  | edited script version span inserted =>
      [("script", .text script), ("version", .number version), ("start", .number span.start),
        ("end", .number span.stop), ("inserted", .number inserted)]
  | removed script => [("script", .text script)]
  | changeRequested script version => [("script", .text script), ("version", .number version)]
  | loaded root count => [("root", .text root), ("count", .number count)]
  | preloaded root count => [("root", .text root), ("count", .number count)]
  | logged _ => []

/-- Messages of the language service are kept apart from the store's own. -/
def target : Event → Option String
  | logged _ => some "language_service"
  | _ => none

end Event

/-- A value together with the events that led to it, oldest first. -/
structure Logged (α : Type) where
  value : α
  events : List Event
deriving Repr, Inhabited

namespace Logged

variable {α β γ : Type}

def silent (value : α) : Logged α :=
  ⟨value, []⟩

def map (f : α → β) (x : Logged α) : Logged β :=
  ⟨f x.value, x.events⟩

/-- Continues from a value, reporting after what was reported before. -/
def andThen (x : Logged α) (f : α → Logged β) : Logged β :=
  ⟨(f x.value).value, x.events ++ (f x.value).events⟩

instance : Monad Logged where
  pure := silent
  bind := andThen

@[simp] theorem silent_value (a : α) : (silent a).value = a := rfl

@[simp] theorem silent_events (a : α) : (silent a).events = [] := rfl

@[simp] theorem map_value (f : α → β) (x : Logged α) : (x.map f).value = f x.value := rfl

@[simp] theorem map_events (f : α → β) (x : Logged α) : (x.map f).events = x.events := rfl

@[simp] theorem andThen_value (x : Logged α) (f : α → Logged β) :
    (x.andThen f).value = (f x.value).value := rfl

@[simp] theorem andThen_events (x : Logged α) (f : α → Logged β) :
    (x.andThen f).events = x.events ++ (f x.value).events := rfl

end Logged

end Scriptorium
