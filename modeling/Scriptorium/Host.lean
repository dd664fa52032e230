import Scriptorium.Config
import Scriptorium.Document.Snapshot
import Scriptorium.Store

/-!
# Hosts

A host stands between a language service and a store of scripts. The service asks for names,
texts, versions, snapshots and positions, and an editor adds, changes and removes scripts. Each
request names one script. It is answered or refused, and a refused request leaves the host as it is.
-/

namespace Scriptorium

/-- A store together with the configuration it was made from. -/
structure Host where
  store : Store
  config : Config
deriving Inhabited

/-- A question about one script, which changes nothing. -/
inductive Question where
  | contains
  | isOpen
  | text
  | slice (span : Span)
  | size
  | version
  | document
  | lineStarts
  | snapshot
  | deltaSince (version : Nat)
  | offset (line column : Nat)
  | position (offset : Nat)
deriving DecidableEq, Repr, Inhabited

/-- A request that concerns one script. -/
inductive Request where
  | add (name text : String)
  | update (name text : String)
  | edit (name : String) (span : Span) (inserted : String)
  | remove (name : String)
  | setOpen (name : String) (isOpen : Bool)
  | ask (name : String) (question : Question)
deriving DecidableEq, Repr, Inhabited

def Request.name : Request → String
  | add name _ | update name _ | edit name _ _ | remove name | setOpen name _ | ask name _ => name

/-- What a request is answered with. -/
inductive Answer where
  | done
  | version (version : Nat)
  | flag (value : Bool)
  | text (value : String)
  | size (value : Nat)
  | offset (value : Nat)
  | offsets (values : List Nat)
  | position (value : Position)
  | delta (value : Delta)
  | document (value : Document)
  | snapshot (value : Snapshot)
deriving DecidableEq, Repr, Inhabited

/-- The levels of the service's own messages. -/
inductive MessageLevel where
  | information
  | debug
  | warning
  | error
  | fatal
deriving DecidableEq, Repr, Inhabited

/-- What a request leads to: the next host, the answer or the cause of refusal, and the events. -/
structure Outcome where
  host : Host
  answer : Except Error Answer
  events : List Event
deriving Inhabited

namespace Host

def new (config : Config) : Host :=
  ⟨.empty config.historyLimit config.onDuplicate, config⟩

/-- The compiler settings for the service, where none asks it to use its own. -/
def compilationSettings (host : Host) : Option Settings.Table :=
  host.config.compilation

def scriptNames (host : Host) : List String :=
  host.store.names

/-- Messages of every level are worth formatting for the service. -/
def accepts (_host : Host) : MessageLevel → Bool
  | .information | .debug | .warning | .error | .fatal => true

def log (_host : Host) (text : String) : List Event :=
  [.logged text]

def reply (host : Host) (name : String) : Question → Except Error Answer
  | .contains => .ok (.flag (host.store.contains name))
  | .isOpen => do return .flag (← host.store.document name).isOpen
  | .text => do return .text (← host.store.document name).text
  | .slice span => do return .text (← (← host.store.document name).slice span)
  | .size => do return .size (← host.store.document name).size
  | .version => do return .version (← host.store.document name).version
  | .document => do return .document (← host.store.document name)
  | .lineStarts => do return .offsets (← host.store.document name).lines.starts
  | .snapshot => do return .snapshot (← host.store.document name).snapshot
  | .deltaSince version => do return .delta (← (← host.store.document name).deltaSince version)
  | .offset line column => do
      return .offset (← (← host.store.document name).lines.offset line column)
  | .position offset => do
      return .position (← (← host.store.document name).lines.position offset)

/-- The events of a question: only asking for a change is reported, whether it is answered or
not. -/
def reported (name : String) : Question → List Event
  | .deltaSince version => [.changeRequested name version]
  | _ => []

/-- The outcome of an operation on the store, and the old host if the operation was refused. -/
def outcome {α : Type} (host : Host) (answer : α → Answer)
    (result : Except Error (Logged (Store × α))) : Outcome :=
  match result with
  | .ok ⟨(store, value), events⟩ => ⟨{ host with store := store }, .ok (answer value), events⟩
  | .error cause => ⟨host, .error cause, []⟩

def perform (host : Host) : Request → Outcome
  | .add name text =>
      host.outcome (fun _ => .done) ((host.store.register name text).map (·.map (·, ())))
  | .update name text => host.outcome .version (host.store.replace name text)
  | .edit name span inserted => host.outcome .version (host.store.edit name span inserted)
  | .remove name => host.outcome .document (host.store.remove name)
  | .setOpen name isOpen =>
      host.outcome (fun _ => .done)
        ((host.store.setOpen name isOpen).map fun store => .silent (store, ()))
  | .ask name question => ⟨host, host.reply name question, reported name question⟩

/-- Performs requests one after another and lists their outcomes. Where one of them is no answer, a
program that checks its sums ends, and the outcomes up to there are all that it has. -/
def performAll (host : Host) : List Request → List Outcome
  | [] => []
  | request :: rest =>
      let outcome := host.perform request
      outcome :: outcome.host.performAll rest

def after (host : Host) (requests : List Request) : Host :=
  requests.foldl (fun host request => (host.perform request).host) host

@[simp] theorem after_nil (host : Host) : host.after [] = host := rfl

@[simp] theorem after_cons (host : Host) (request : Request) (rest : List Request) :
    host.after (request :: rest) = (host.perform request).host.after rest := rfl

theorem after_append (host : Host) (first second : List Request) :
    host.after (first ++ second) = (host.after first).after second := by
  simp [after]

end Host

end Scriptorium
