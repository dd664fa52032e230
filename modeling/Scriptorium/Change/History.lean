import Scriptorium.Change

/-!
# Histories

A history keeps the records of the latest edits, oldest first. It knows the version before its
oldest record, so the record at index `i` leads from version `base + i` to the next one. With a
limit, the oldest records leave and the base moves up.
-/

namespace Scriptorium

/-- The records of the edits since version `base`, at most `limit` of them. -/
structure History where
  records : List Record
  base : Nat
  limit : Option Nat
deriving DecidableEq, Repr, Inhabited

namespace History

def new (version : Nat) (limit : Option Nat) : History :=
  ⟨[], version, limit⟩

/-- How many records are over the limit. -/
def excess (history : History) : Nat :=
  match history.limit with
  | none => 0
  | some limit => history.records.length - limit

/-- Drops the oldest records over the limit. -/
def trim (history : History) : History :=
  { history with
    records := history.records.drop history.excess
    base := history.base + history.excess }

def push (history : History) (record : Record) : History :=
  trim { history with records := history.records ++ [record] }

/-- Forgets every record and starts again at a version. -/
def reset (history : History) (version : Nat) : History :=
  { history with records := [], base := version }

/-- The change from a version to the current one, as far as the records reach back. -/
def between (history : History) (old current : Nat) : Except Error Delta :=
  if old = current then .ok .unchanged
  else if old < history.base then .ok .unknown
  else if history.records.length < old - history.base then .error .beyondRecords
  else do
    match ← Change.collapse (history.records.drop (old - history.base)) with
    | some change => return .changed change
    | none => return .unknown

/-- The change since a version that the script has reached. -/
def since (history : History) (current old : Nat) : Except Error Delta :=
  if current < old then .error (.futureVersion old current) else history.between old current

@[simp] theorem new_records (version : Nat) (limit : Option Nat) :
    (new version limit).records = [] := rfl

@[simp] theorem new_base (version : Nat) (limit : Option Nat) :
    (new version limit).base = version := rfl

@[simp] theorem reset_records (history : History) (version : Nat) :
    (history.reset version).records = [] := rfl

@[simp] theorem reset_base (history : History) (version : Nat) :
    (history.reset version).base = version := rfl

/-- The base moves by as much as the number of records falls short of growing by one. -/
theorem push_base_add_length (history : History) (record : Record) :
    (history.push record).base + (history.push record).records.length =
      history.base + history.records.length + 1 := by
  simp only [push, trim, excess, List.length_drop, List.length_append, List.length_singleton]
  cases history.limit <;> simp <;> omega

end History

end Scriptorium
