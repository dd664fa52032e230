/-!
# Files

The files that a host can reach are a tree: a directory lists its entries by name, in whatever
order, and a file holds bytes. A path is a text whose segments are separated by slashes. It leads
down the tree by name, stays for an empty segment or a single dot, and goes up for two dots, which
at the top stays there. Each step needs a directory to step from. A path that is too long leads
nowhere, and only some segments can become the name of a new file or directory.
-/

namespace Scriptorium

/-- A file or a directory. -/
inductive Node where
  | file (content : ByteArray)
  | directory (entries : List (String × Node))
deriving Inhabited

/-- The size in bytes of the longest path that is followed. -/
abbrev maxPathSize : Nat := 4095

/-- The size in bytes of the longest name. -/
abbrev maxNameSize : Nat := 255

/-- The segments of a path, which slashes separate. There is always at least one. -/
def segmentsOf : List Char → List (List Char)
  | [] => [[]]
  | char :: rest =>
      if char = '/' then [] :: segmentsOf rest
      else
        match segmentsOf rest with
        | [] => [[char]]
        | segment :: others => (char :: segment) :: others

def segments (path : String) : List String :=
  (segmentsOf path.toList).map String.ofList

/-- The segments of the directory that a path stands in. Empty segments and dots at the end of the
path do not count. -/
def parentSegments (path : String) : List String :=
  ((segments path).reverse.dropWhile fun segment => segment = "" ∨ segment = ".").tail.reverse

/-- A segment can be the name of a new file or directory when it leads there by name, is not too
long and holds no null character. -/
def isName (segment : String) : Bool :=
  segment ≠ "" ∧ segment ≠ "." ∧ segment ≠ ".." ∧ segment.utf8ByteSize ≤ maxNameSize ∧
    '\x00' ∉ segment.toList

def joinPath (base relative : String) : String :=
  if relative.toList.head? = some '/' then relative
  else if base.toList.getLast? = some '/' then base ++ relative
  else base ++ "/" ++ relative

/-- The entries after one of them was set, in its place if the name has one. -/
def setEntry {α : Type} (name : String) (value : α) : List (String × α) → List (String × α)
  | [] => [(name, value)]
  | (other, old) :: rest =>
      if other = name then (name, value) :: rest else (other, old) :: setEntry name value rest

theorem lookup_cons_eq_ite {α : Type} (name other : String) (value : α)
    (entries : List (String × α)) :
    ((name, value) :: entries).lookup other =
      if other = name then some value else entries.lookup other := by
  rw [List.lookup_cons]
  by_cases h : other = name
  · simp [h]
  · rw [beq_eq_false_iff_ne.2 h, if_neg h]

/-- Setting an entry changes what its own name leads to and nothing else. -/
theorem lookup_setEntry {α : Type} (name other : String) (value : α)
    (entries : List (String × α)) :
    (setEntry name value entries).lookup other =
      if other = name then some value else entries.lookup other := by
  induction entries with
  | nil => rw [setEntry, lookup_cons_eq_ite]
  | cons entry rest ih =>
      obtain ⟨first, old⟩ := entry
      rw [setEntry]
      split
      · next hsame =>
          subst hsame
          rw [lookup_cons_eq_ite, lookup_cons_eq_ite]
          by_cases h : other = first <;> simp [h]
      · next hne =>
          rw [lookup_cons_eq_ite, lookup_cons_eq_ite, ih]
          by_cases h : other = first
          · simp [h, hne]
          · simp [h]

namespace Node

def isDirectory : Node → Bool
  | .directory _ => true
  | .file _ => false

/-- The entries of a directory, and none for a file. -/
def entries : Node → List (String × Node)
  | .directory entries => entries
  | .file _ => []

def descend (node : Node) : List String → Option Node
  | [] => some node
  | name :: rest => (node.entries.lookup name).bind fun child => child.descend rest

/-- The tree in which the node that names lead down to is another one. Directories on the way are
made as they are needed. -/
def set (node : Node) (new : Node) : List String → Node
  | [] => new
  | name :: rest =>
      let child := (node.entries.lookup name).getD (.directory [])
      .directory (setEntry name (child.set new rest) node.entries)

/-- Where one segment leads from a directory, as names from the top. -/
def step (top : Node) (place : List String) (segment : String) : Option (List String) :=
  match top.descend place with
  | some (.directory entries) =>
      if segment = "" ∨ segment = "." then some place
      else if segment = ".." then some place.dropLast
      else if (entries.lookup segment).isSome then some (place ++ [segment])
      else none
  | _ => none

/-- Where a path leads, as names from the top. The empty path leads nowhere, and neither does one
that is too long. -/
def locate (top : Node) (path : String) : Option (List String) :=
  if path = "" ∨ maxPathSize < path.utf8ByteSize then none
  else (segments path).foldlM top.step []

def find? (top : Node) (path : String) : Option Node :=
  (top.locate path).bind top.descend

/-- Steps into a directory, which is made if the name is free. -/
def enter (top : Node) (place : List String) (segment : String) : Option (Node × List String) :=
  match top.step place segment with
  | some next => some (top, next)
  | none =>
      match top.descend place with
      | some (.directory _) =>
          if isName segment then
            some (top.set (.directory []) (place ++ [segment]), place ++ [segment])
          else none
      | _ => none

/-- Makes the directories of a list of segments. The answer is the tree and where they lead. -/
def enterAll (top : Node) (path : List String) : Option (Node × List String) :=
  path.foldlM (fun (top, place) segment => top.enter place segment) (top, [])

/-- Makes the directories of a path. Nothing is made if a file is in the way. -/
def makeDirectories (top : Node) (path : String) : Option Node :=
  if maxPathSize < path.utf8ByteSize then none
  else do
    let (made, place) ← top.enterAll (segments path)
    let node ← made.descend place
    if node.isDirectory then return made else none

/-- Puts a file into a directory. It takes the place of another file but not that of a directory. -/
def putFile (top : Node) (place : List String) (name : String) (content : ByteArray) :
    Option Node :=
  if isName name then
    match top.descend place with
    | some (.directory entries) =>
        match entries.lookup name with
        | some (.directory _) => none
        | _ => some (top.set (.file content) (place ++ [name]))
    | _ => none
  else none

/-- Writes a file and says whether that succeeded. The directories above it are made first, and they
stay if there is no room for the file. -/
def write (top : Node) (path : String) (content : ByteArray) : Node × Bool :=
  if maxPathSize < path.utf8ByteSize then (top, false)
  else
    match top.enterAll (parentSegments path) with
    | none => (top, false)
    | some (made, place) =>
        match (segments path).getLast?.bind (made.putFile place · content) with
        | some written => (written, true)
        | none => (made, false)

end Node

end Scriptorium
