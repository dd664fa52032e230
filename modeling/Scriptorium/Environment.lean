import Scriptorium.Environment.Alphanumeric

/-!
# Environments

A path may refer to the environment. A dollar sign starts the name of a variable, bare or between
braces, where a default may follow the name; two dollar signs stand for one. A tilde at the start,
alone or before a slash, stands for the home directory. What a variable holds is inserted as it is.
-/

namespace Scriptorium

structure Environment where
  bindings : List (String × String)
deriving Repr, Inhabited

namespace Environment

/-- A binding as one text: the name, an equals sign and the value. -/
def bindingText (binding : String × String) : List Char :=
  binding.1.toList ++ '=' :: binding.2.toList

/-- The value of a variable: what follows its name and an equals sign in the text of a binding. A
name may itself hold equals signs, and then its end is sought in a value. The empty name has no
value. -/
def value? (environment : Environment) (name : String) : Option String :=
  if name = "" then none
  else
    environment.bindings.findSome? fun binding =>
      ((name.toList ++ ['=']).isPrefixOf? (bindingText binding)).map String.ofList

/-- The home directory, unless its variable is unset or empty. A system may then know it from its
record of the user, which is no part of an environment, and here there is none. -/
def home? (environment : Environment) : Option String :=
  (environment.value? "HOME").filter (· ≠ "")

def isNameChar (char : Char) : Bool :=
  isAlphanumeric char || char = '_'

/-- Splits what stands between braces into a name and a default. What starts with the mark of a
default is a name as a whole. -/
def splitDefault : List Char → List Char × Option (List Char)
  | ':' :: '-' :: rest => (':' :: '-' :: rest, none)
  | chars => go chars
where
  go : List Char → List Char × Option (List Char)
    | [] => ([], none)
    | ':' :: '-' :: rest => ([], some rest)
    | char :: rest => let (name, default) := go rest; (char :: name, default)

/-- What a reference between braces stands for. It fails for a variable that is not set and has no
default. -/
def resolve (environment : Environment) (body : List Char) : Option (List Char) :=
  let (name, default) := splitDefault body
  match environment.value? (.ofList name) with
  | some value => some value.toList
  | none => default

def expandFrom (environment : Environment) : Nat → List Char → Option (List Char)
  | 0, chars => some chars
  | steps + 1, chars =>
      let front := chars.takeWhile (· ≠ '$')
      match chars.dropWhile (· ≠ '$') with
      | [] => some front
      | _ :: '$' :: rest => do return front ++ '$' :: (← expandFrom environment steps rest)
      | _ :: '\x7b' :: rest =>
          if rest.contains '\x7d' then do
            let value ← environment.resolve (rest.takeWhile (· ≠ '\x7d'))
            let after ← expandFrom environment steps (rest.dropWhile (· ≠ '\x7d')).tail
            return front ++ value ++ after
          else do return front ++ '$' :: '\x7b' :: (← expandFrom environment steps rest)
      | _ :: rest =>
          match rest.takeWhile isNameChar with
          | [] => do return front ++ '$' :: (← expandFrom environment steps rest)
          | name => do
              let value ← environment.value? (.ofList name)
              let after ← expandFrom environment steps (rest.dropWhile isNameChar)
              return front ++ value.toList ++ after

/-- Replaces every reference to a variable, and fails if one is not set. -/
def expandVariables (environment : Environment) (text : List Char) : Option (List Char) :=
  environment.expandFrom text.length text

/-- Replaces a tilde at the start by the home directory. -/
def expandHome (environment : Environment) (text : List Char) : List Char :=
  match text, environment.home? with
  | ['~'], some home => home.toList
  | '~' :: '/' :: rest, some home => home.toList ++ '/' :: rest
  | text, _ => text

/-- Replaces variables and then the tilde, unless the tilde came out of a variable. -/
def expand? (environment : Environment) (text : List Char) : Option (List Char) := do
  let expanded ← environment.expandVariables text
  if expanded.head? = some '~' ∧ text.head? ≠ some '~' then return expanded
  else return environment.expandHome expanded

end Environment

end Scriptorium
