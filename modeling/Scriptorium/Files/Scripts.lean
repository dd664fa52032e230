import Scriptorium.Files
import Scriptorium.Store

/-!
# Scripts in files

The scripts below a directory are the files whose names have one of the wanted extensions. They are
listed by their path relative to the directory, segment by segment in the order of characters, so
the order does not depend on how directories list their entries. The walk enters a directory only
if its path is short enough to be followed. Loading registers the scripts one after another and
stops at the first that fails; those before it stay registered.
-/

namespace Scriptorium

/-- Why scripts could not be read or loaded. -/
inductive LoadError where
  /-- The path leads nowhere. -/
  | missing (path : String)
  /-- The file is not UTF-8. -/
  | notText
  /-- There is a directory where a file is needed. -/
  | isDirectory
  /-- There is no directory to look for scripts in. -/
  | noRoot
  /-- A script was read, but the store refused it. -/
  | refused (cause : Error)
deriving DecidableEq, Repr, Inhabited

/-- The wording of a cause, unless it is the system that words it. -/
def LoadError.message? : LoadError → Option String
  | missing path => some ("File not found: " ++ path)
  | notText | isDirectory => none
  | noRoot => some "Invalid scripts root: scripts directory not found"
  | refused cause => cause.message?

/-- The extension of a file name: what follows its last dot, unless that is its first character. -/
def extension? (name : String) : Option String :=
  let reversed := name.toList.reverse
  match reversed.dropWhile (· ≠ '.') with
  | [] | [_] => none
  | _ => some (String.ofList (reversed.takeWhile (· ≠ '.')).reverse)

/-- Relative paths are ordered by their first segments, then by the next ones. -/
def segmentsLe : List String → List String → Bool
  | [], _ => true
  | _ :: _, [] => false
  | a :: as, b :: bs => a < b || (a == b && segmentsLe as bs)

namespace Node

mutual

/-- The files at or below a node that is reached by a path, as segments from there. A directory
whose path is too long to be followed passes for a file. -/
def files (path : String) : Node → List (List String)
  | .file _ => [[]]
  | .directory entries =>
      if maxPathSize < path.utf8ByteSize then [[]] else filesIn path entries

/-- The files at or below the entries of a directory that is reached by a path. -/
def filesIn (path : String) : List (String × Node) → List (List String)
  | [] => []
  | (name, node) :: rest =>
      (files (joinPath path name) node).map (name :: ·) ++ filesIn path rest

end

/-- A file is wanted when its name has a wanted extension. -/
def wants (extensions : List String) (path : List String) : Bool :=
  match path.getLast?.bind extension? with
  | some ext => extensions.contains ext
  | none => false

def checkRoot (top : Node) (root : String) : Except LoadError Node :=
  match top.find? root with
  | some (.directory entries) => .ok (.directory entries)
  | _ => .error .noRoot

/-- The wanted files below a directory, by relative path and in order. -/
def scan (top : Node) (root : String) (extensions : List String) :
    Except LoadError (List String) := do
  let directory ← top.checkRoot root
  let found := ((directory.files root).filter (wants extensions)).mergeSort segmentsLe
  return found.map ("/".intercalate ·)

/-- The path of a file below a directory. Empty segments are dropped. -/
def scriptPath (root relative : String) : String :=
  ((segments relative).filter (· ≠ "")).foldl (fun path segment => path ++ "/" ++ segment) root

def readText (top : Node) (path : String) : Except LoadError String :=
  match top.find? path with
  | none => .error (.missing path)
  | some (.directory _) => .error .isDirectory
  | some (.file content) =>
      match String.fromUTF8? content with
      | some text => .ok text
      | none => .error .notText

def readScript (top : Node) (root relative : String) : Except LoadError String :=
  top.readText (scriptPath root relative)

end Node

namespace Store

/-- Reads scripts and registers them in turn, up to the first that fails. The answer is the names
registered, or why one failed. -/
def registerFiles (store : Store) (top : Node) (root : String) :
    List String → Logged (Store × Except LoadError (List String))
  | [] => .silent (store, .ok [])
  | name :: rest =>
      match top.readScript root name with
      | .error cause => .silent (store, .error cause)
      | .ok text =>
          match store.register name text with
          | .error cause => .silent (store, .error (.refused cause))
          | .ok registered =>
              registered.andThen fun next =>
                (next.registerFiles top root rest).map fun (last, result) =>
                  (last, result.map (name :: ·))

/-- Registers every wanted script below a directory under its relative path. -/
def loadScripts (store : Store) (top : Node) (root : String) (extensions : List String) :
    Logged (Store × Except LoadError (List String)) :=
  match top.scan root extensions with
  | .error cause => .silent (store, .error cause)
  | .ok names =>
      (store.registerFiles top root names).andThen fun (next, result) =>
        match result with
        | .ok registered => ⟨(next, .ok registered), [.loaded root registered.length]⟩
        | .error cause => .silent (next, .error cause)

end Store

end Scriptorium
