import Scriptorium.Document

/-!
# Stores

A store tracks documents by name, in the order in which their names were first registered. A name
that is registered again keeps its place, and a name that is removed loses it. Every operation
either succeeds or is refused, and a refusal carries no store: the caller keeps the old one.
-/

namespace Scriptorium

/-- What to do when a tracked name is registered again. -/
inductive DuplicatePolicy where
  | reject
  | overwrite
deriving DecidableEq, Repr, Inhabited

/-- The tracked documents and how new ones are made. -/
structure Store where
  documents : List Document
  limit : Option Nat
  policy : DuplicatePolicy
deriving DecidableEq, Repr, Inhabited

namespace Store

def empty (limit : Option Nat) (policy : DuplicatePolicy) : Store :=
  ⟨[], limit, policy⟩

def names (store : Store) : List String :=
  store.documents.map Document.name

def find? (store : Store) (name : String) : Option Document :=
  store.documents.find? fun document => document.name = name

def contains (store : Store) (name : String) : Bool :=
  (store.find? name).isSome

def document (store : Store) (name : String) : Except Error Document :=
  match store.find? name with
  | some document => .ok document
  | none => .error (.untracked name)

/-- Puts a document in the place of the one of its name. -/
def update (store : Store) (document : Document) : Store :=
  { store with
    documents := store.documents.map fun other =>
      if other.name = document.name then document else other }

/-- Puts a document in the place of the one of its name, or at the end if there is none. -/
def put (store : Store) (document : Document) : Store :=
  if store.contains document.name then store.update document
  else { store with documents := store.documents ++ [document] }

/-- Takes the document of a name out. The others keep their order. -/
def erase (store : Store) (name : String) : Store :=
  { store with documents := store.documents.filter fun document => document.name ≠ name }

/-! ### What the changes do to a look-up

A document is found under its own name, so a change of one document leaves the look-up of every
other name as it was. The order of names changes only where a new name comes in or a name leaves. -/

theorem name_of_find? {store : Store} {name : String} {document : Document}
    (h : store.find? name = some document) : document.name = name := by
  simpa using List.find?_some h

theorem contains_iff_mem_names {store : Store} {name : String} :
    store.contains name = true ↔ name ∈ store.names := by
  simp [contains, find?, names]

@[simp] theorem names_update (store : Store) (document : Document) :
    (store.update document).names = store.names := by
  rw [names, names, update, List.map_map]
  refine List.map_congr_left fun other _ => ?_
  by_cases h : other.name = document.name <;> simp [h]

theorem find?_update_of_ne {store : Store} {document : Document} {name : String}
    (h : name ≠ document.name) : (store.update document).find? name = store.find? name := by
  simp only [find?, update]
  induction store.documents with
  | nil => rfl
  | cons other rest ih =>
      by_cases hsame : other.name = document.name
      · simp [hsame, h.symm, ih]
      · by_cases hname : other.name = name <;> simp [hsame, hname, h, ih]

theorem find?_update_self {store : Store} {document : Document}
    (h : store.contains document.name = true) :
    (store.update document).find? document.name = some document := by
  rw [contains_iff_mem_names, names] at h
  simp only [find?, update]
  revert h
  induction store.documents with
  | nil => simp
  | cons other rest ih =>
      intro h
      by_cases hsame : other.name = document.name
      · simp [hsame]
      · have hrest : document.name ∈ rest.map Document.name := by
          simpa [Ne.symm hsame] using h
        rw [List.map_cons, if_neg hsame, List.find?_cons_of_neg (by simpa using hsame)]
        exact ih hrest

@[simp] theorem names_erase (store : Store) (name : String) :
    (store.erase name).names = store.names.filter (· ≠ name) := by
  simp [names, erase, List.filter_map, Function.comp_def]

@[simp] theorem find?_erase_self (store : Store) (name : String) :
    (store.erase name).find? name = none := by
  simp [find?, erase]

theorem find?_erase_of_ne {store : Store} {name other : String} (h : other ≠ name) :
    (store.erase name).find? other = store.find? other := by
  simp only [find?, erase, List.find?_filter]
  congr 1
  funext document
  by_cases hother : document.name = other <;> simp [hother, h]

theorem names_put (store : Store) (document : Document) :
    (store.put document).names =
      if store.contains document.name then store.names else store.names ++ [document.name] := by
  rw [put]
  split
  · exact names_update store document
  · simp [names]

theorem find?_put_self (store : Store) (document : Document) :
    (store.put document).find? document.name = some document := by
  rw [put]
  split
  · next h => exact find?_update_self h
  · next h =>
      have hnone : store.find? document.name = none := by
        simpa [contains] using h
      rw [find?] at hnone ⊢
      simp [hnone]

theorem find?_put_of_ne {store : Store} {document : Document} {name : String}
    (h : name ≠ document.name) : (store.put document).find? name = store.find? name := by
  rw [put]
  split
  · exact find?_update_of_ne h
  · simp [find?, Ne.symm h]

/-! ### Requests -/

/-- Starts to track a name, at the first version of the given text. -/
def register (store : Store) (name text : String) : Except Error (Logged Store) :=
  let next := store.put (.new name text store.limit)
  let registered := Event.registered name (Text.size text)
  match store.contains name, store.policy with
  | true, .reject => .error (.alreadyTracked name)
  | true, .overwrite => .ok ⟨next, [.overwriting name, registered]⟩
  | false, _ => .ok ⟨next, [registered]⟩

/-- Replaces the whole text of a tracked name. The answer is the new version. -/
def replace (store : Store) (name text : String) : Except Error (Logged (Store × Nat)) := do
  let document ← store.document name
  return (document.replace text).map fun next => (store.update next, next.version)

/-- Replaces a span of the text of a tracked name. The answer is the new version. -/
def edit (store : Store) (name : String) (span : Span) (inserted : String) :
    Except Error (Logged (Store × Nat)) := do
  let document ← store.document name
  let edited ← document.edit span inserted
  return edited.map fun result => (store.update result.1, result.1.version)

def setOpen (store : Store) (name : String) (isOpen : Bool) : Except Error Store := do
  let document ← store.document name
  return store.update (document.setOpen isOpen)

/-- Stops to track a name. The answer is the document it had. -/
def remove (store : Store) (name : String) : Except Error (Logged (Store × Document)) := do
  let document ← store.document name
  return ⟨(store.erase name, document), [.removed name]⟩

end Store

end Scriptorium
