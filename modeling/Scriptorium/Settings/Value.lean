import Scriptorium.Settings.Binary64
import Scriptorium.Settings.Moment

/-!
# Setting values

Settings are tables: values under keys, each key once, listed in the order of their characters.
-/

namespace Scriptorium.Settings

inductive Value where
  | string (text : String)
  | integer (value : Int)
  | float (value : Binary64)
  /-- A decimal that is too large to be a float. A file may hold one where nobody asks for it. -/
  | excess
  | boolean (value : Bool)
  | moment (value : Moment)
  | array (items : List Value)
  | table (entries : List (String × Value))
deriving Repr, Inhabited

abbrev Table := List (String × Value)

/-- The entries after one of them was set, keeping the order of keys. -/
def setKey {α : Type} (key : String) (value : α) : List (String × α) → List (String × α)
  | [] => [(key, value)]
  | (other, old) :: rest =>
      if key < other then (key, value) :: (other, old) :: rest
      else if key = other then (key, value) :: rest
      else (other, old) :: setKey key value rest

/-- Keys are in strict order, so none occurs twice. -/
def KeysSorted {α : Type} (entries : List (String × α)) : Prop :=
  entries.Pairwise fun a b => a.1 < b.1

theorem mem_setKey {α : Type} {key : String} {value : α} {entries : List (String × α)}
    {entry : String × α} (h : entry ∈ setKey key value entries) :
    entry = (key, value) ∨ entry ∈ entries := by
  induction entries with
  | nil => simpa [setKey] using h
  | cons first rest ih =>
      simp only [setKey] at h
      split at h
      · simpa using h
      · split at h
        · exact (List.mem_cons.1 h).imp id (List.mem_cons_of_mem _)
        · rcases List.mem_cons.1 h with rfl | h
          · exact .inr (List.mem_cons_self ..)
          · exact (ih h).imp id (List.mem_cons_of_mem _)

theorem KeysSorted.setKey {α : Type} {entries : List (String × α)} (h : KeysSorted entries)
    (key : String) (value : α) : KeysSorted (setKey key value entries) := by
  induction entries with
  | nil => exact List.pairwise_singleton ..
  | cons first rest ih =>
      obtain ⟨hfirst, hrest⟩ := List.pairwise_cons.1 h
      simp only [Settings.setKey]
      split
      · next hlt =>
          refine List.pairwise_cons.2 ⟨fun entry hentry => ?_, h⟩
          rcases List.mem_cons.1 hentry with rfl | hentry
          · exact hlt
          · exact String.lt_trans hlt (hfirst entry hentry)
      · next hge =>
          split
          · next heq =>
              exact List.pairwise_cons.2 ⟨fun entry hentry => heq ▸ hfirst entry hentry, hrest⟩
          · next hne =>
              refine List.pairwise_cons.2 ⟨fun entry hentry => ?_, ih hrest⟩
              rcases mem_setKey hentry with rfl | hentry
              · exact String.not_le.1 fun hle =>
                  hne (String.le_antisymm hle (String.not_lt.1 hge))
              · exact hfirst entry hentry

namespace Value

def isTable : Value → Bool
  | .table _ => true
  | _ => false

/-- A value has headers of its own in a file when it is a table, or an array of tables with at
least one element. -/
def hasHeader : Value → Bool
  | .table _ => true
  | .array [] => false
  | .array items => items.all isTable
  | _ => false

mutual

/-- Decides whether two values are the same. -/
def beq : Value → Value → Bool
  | .string a, .string b => a == b
  | .integer a, .integer b => a == b
  | .float a, .float b => a == b
  | .excess, .excess => true
  | .boolean a, .boolean b => a == b
  | .moment a, .moment b => a == b
  | .array a, .array b => beqItems a b
  | .table a, .table b => beqEntries a b
  | _, _ => false

def beqItems : List Value → List Value → Bool
  | [], [] => true
  | a :: as, b :: bs => beq a b && beqItems as bs
  | _, _ => false

def beqEntries : List (String × Value) → List (String × Value) → Bool
  | [], [] => true
  | (k, a) :: as, (l, b) :: bs => k == l && beq a b && beqEntries as bs
  | _, _ => false

end

end Value

end Scriptorium.Settings
