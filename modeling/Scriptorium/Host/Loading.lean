import Scriptorium.Files.Scripts
import Scriptorium.Host

/-!
# Hosts with scripts from files

A host can register the scripts below a directory at any time, and a new one registers those below
its configured root, if it has one.
-/

namespace Scriptorium.Host

/-- Registers the scripts below a directory. Those before a failing one stay registered. -/
def loadScripts (host : Host) (top : Node) (root : String) (extensions : List String) :
    Logged (Host × Except LoadError (List String)) :=
  (host.store.loadScripts top root extensions).map fun (store, result) =>
    ({ host with store := store }, result)

/-- A host for a configuration, with the scripts of its root. -/
def load (config : Config) (top : Node) (extensions : List String) :
    Logged (Except LoadError Host) :=
  match config.scriptsRoot with
  | none => .silent (.ok (new config))
  | some root =>
      ((new config).loadScripts top root extensions).andThen fun (host, result) =>
        match result with
        | .ok names => ⟨.ok host, [.preloaded root names.length]⟩
        | .error cause => .silent (.error cause)

end Scriptorium.Host
