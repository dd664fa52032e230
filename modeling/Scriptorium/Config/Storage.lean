import Scriptorium.Config.Table
import Scriptorium.Environment
import Scriptorium.Files
import Scriptorium.Settings.File

/-!
# Stored configurations

A configuration is kept in a settings file. When it is loaded, the root of scripts is expanded by
the environment, and kept as it stands if that fails. When it is saved, it is written as it is.
-/

namespace Scriptorium.Config

/-- Why a configuration could not be loaded. -/
inductive LoadError where
  /-- The path does not lead to a file that holds text. -/
  | unreadable
  /-- The text is no settings file, or a setting has the wrong type. -/
  | malformed
deriving DecidableEq, Repr, Inhabited

def parse? (text : String) : Option Config :=
  (Settings.Table.read? text).bind ofTable?

def render (config : Config) : String :=
  Settings.Table.write config.toTable

/-- Expands the root of scripts by the environment, where that is possible. -/
def expandRoot (environment : Environment) (config : Config) : Config :=
  { config with
    scriptsRoot := config.scriptsRoot.map fun root =>
      match environment.expand? root.toList with
      | some expanded => .ofList expanded
      | none => root }

/-- Loads the configuration at a path. There may be none. -/
def load (environment : Environment) (top : Node) (path : String) :
    Except LoadError (Option Config) :=
  match top.find? path with
  | none => .ok none
  | some (.directory _) => .error .unreadable
  | some (.file content) =>
      match String.fromUTF8? content with
      | none => .error .unreadable
      | some text =>
          match parse? text with
          | none => .error .malformed
          | some config => .ok (some (config.expandRoot environment))

def loadOrDefault (environment : Environment) (top : Node) (path : String) :
    Except LoadError Config := do
  return (← load environment top path).getD .empty

/-- Saves a configuration at a path. The answer is the tree and whether the file was written. -/
def save (config : Config) (top : Node) (path : String) : Node × Bool :=
  top.write path config.render.toUTF8

/-- Where the configuration of the user is kept. -/
def userPath (environment : Environment) : String :=
  joinPath (.ofList (environment.expandHome "~/.config/script-host".toList)) "config.toml"

end Scriptorium.Config
