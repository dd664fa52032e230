import Scriptorium.Event
import Scriptorium.Text

/-!
# Batches of edits

The edits of a batch are proposed against one common base text and come in any order. To settle a
batch is to list it by start and to keep what does not collide: an edit inside an already kept one
is dropped, and an edit that overlaps it otherwise is a conflict. Edits with equal starts stay in
the order in which they were proposed.
-/

namespace Scriptorium

/-- Replace the bytes of a span by a text. -/
structure Edit where
  span : Span
  text : String
deriving DecidableEq, Repr, Inhabited

namespace Edit

def insert (offset : Nat) (text : String) : Edit :=
  ⟨.point offset, text⟩

/-- An edit is inverted when its span ends before it starts. -/
def isInverted (edit : Edit) : Bool :=
  edit.span.stop < edit.span.start

/-- By how much an edit makes a text longer, negative when it makes it shorter. -/
def growth (edit : Edit) : Int :=
  Text.size edit.text - edit.span.length

end Edit

namespace Batch

/-- The edits listed by start, equal starts in their given order. -/
def sorted (edits : List Edit) : List Edit :=
  edits.mergeSort fun a b => a.span.start ≤ b.span.start

theorem sorted_perm (edits : List Edit) : (sorted edits).Perm edits :=
  List.mergeSort_perm ..

theorem pairwise_sorted (edits : List Edit) :
    (sorted edits).Pairwise fun a b => a.span.start ≤ b.span.start := by
  refine List.Pairwise.imp (fun h => by simpa using h) (List.pairwise_mergeSort ?_ ?_ edits)
  · intro a b c hab hbc
    simp only [decide_eq_true_eq] at hab hbc ⊢
    exact Nat.le_trans hab hbc
  · intro a b
    simpa using Nat.le_total a.span.start b.span.start

/-- A list that is already in order stays as it is. -/
theorem sorted_eq_self {edits : List Edit}
    (h : edits.Pairwise fun a b => a.span.start ≤ b.span.start) : sorted edits = edits :=
  List.mergeSort_of_pairwise (h.imp fun hab => by simpa using hab)

/-- Settles edits that are listed by start, after `kept` was the last one kept. -/
def settleAfter (kept : Edit) : List Edit → Logged (Except Error (List Edit))
  | [] => .silent (.ok [])
  | edit :: rest =>
      if kept.span.stop ≤ edit.span.start then
        (settleAfter edit rest).map fun result => result.map (edit :: ·)
      else if kept.span.Contains edit.span then
        let settled := settleAfter kept rest
        ⟨settled.value, .nestedDropped edit.span kept.span :: settled.events⟩
      else
        ⟨.error (.conflict kept.span edit.span), [.overlapFound kept.span edit.span]⟩

def settleSorted : List Edit → Logged (Except Error (List Edit))
  | [] => .silent (.ok [])
  | edit :: rest => (settleAfter edit rest).map fun result => result.map (edit :: ·)

/-- Settles a batch. An inverted edit is refused before anything else, and the first one is
named. -/
def settle (edits : List Edit) : Logged (Except Error (List Edit)) :=
  match edits.find? Edit.isInverted with
  | some edit => .silent (.error (.inverted edit.span))
  | none => settleSorted (sorted edits)

def check (base : String) : List Edit → Except Error Unit
  | [] => .ok ()
  | edit :: rest => do
      Text.check base edit.span
      check base rest

/-- Replaces from the last edit to the first, so that no replacement moves a span that is still to
come. -/
def splices (base : String) (edits : List Edit) : String :=
  edits.foldr (fun edit text => Text.splice text edit.span edit.text) base

def apply (base : String) (edits : List Edit) : Logged (Except Error String) :=
  (settle edits).map fun result => do
    let settled ← result
    check base settled
    return splices base settled

/-- The edits that undo settled edits, given how far the text before the first one has grown. -/
def inverses (base : String) (shift : Int) : List Edit → Except Error (List Edit)
  | [] => .ok []
  | edit :: rest => do
      Text.check base edit.span
      let start := (edit.span.start + shift).toNat
      let undone : Edit := ⟨⟨start, start + Text.size edit.text⟩, Text.slice base edit.span⟩
      let others ← inverses base (shift + edit.growth) rest
      return undone :: others

/-- The batch that takes the result of a batch back to the base text. -/
def invert (base : String) (edits : List Edit) : Logged (Except Error (List Edit)) :=
  (settle edits).map fun result => result.bind (inverses base 0)

end Batch

end Scriptorium
