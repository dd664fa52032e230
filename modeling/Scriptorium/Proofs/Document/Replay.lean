import Scriptorium.Proofs.Document.Run

/-!
# Replaying a history

The records that a document keeps can be carried out again. Starting from the text of the version at
which the history begins, with the texts that were inserted, every record fits the text it meets,
every length is the recorded one, and the last text is the one that the document has.
-/

namespace Scriptorium

/-- Carries recorded edits out again with the texts that were inserted. Nothing comes out if a span
does not fit the text it meets or if a length is not the recorded one. -/
def replay (text : String) : List (Record × String) → Option String
  | [] => some text
  | (record, inserted) :: rest =>
      let next := Text.splice text record.change.span inserted
      if Text.Fits text record.change.span ∧ Text.size inserted = record.change.inserted ∧
          Text.size next = record.resultingSize then
        replay next rest
      else
        none

theorem Splice.Leads.replay_eq {old new : String} {splices : List Splice}
    (h : Leads old splices new) :
    replay old ((splices.map record).zip (splices.map inserted)) = some new := by
  rw [List.zip_map']
  induction splices generalizing old with
  | nil =>
      obtain rfl : old = new := h
      rfl
  | cons splice rest ih =>
      obtain ⟨rfl, hfits, hrest⟩ := h
      rw [List.map_cons, replay, if_pos ⟨hfits, rfl, rfl⟩]
      exact ih hrest

namespace Document

/-- The fields of a document stay in step through every run, and the records that it keeps lead from
the text of the version at which its history begins to the text that it has. -/
theorem replay_history (name text : String) (limit : Option Nat) (actions : List Action) :
    let first := new name text limit
    let last := first.performAll actions
    last.version = last.history.base + last.history.records.length ∧
      (∀ most, limit = some most → last.history.records.length ≤ most) ∧
      last.lines = .ofText last.text ∧
      last.text.toByteArray.IsValidUTF8 ∧
      (∃ before after, actions = before ++ after ∧
        (first.performAll before).version = last.history.base) ∧
      ∀ before after, actions = before ++ after →
        (first.performAll before).version = last.history.base →
        let inserted := ((first.performAll before).accepted after).map Splice.inserted
        inserted.length = last.history.records.length ∧
          replay (first.performAll before).text (last.history.records.zip inserted) =
            some last.text := by
  intro first last
  have hfirst : first.Sound := sound_new name text limit
  have hlast : last.Sound := hfirst.performAll actions
  have hlimit : last.history.limit = limit := limit_performAll first actions
  have hbase : first.version ≤ last.history.base := (since_performAll hfirst actions).base_le
  have hversion := hlast.version_eq
  have hle : last.history.base ≤ last.version := by omega
  refine ⟨hversion, fun most hmost => hlast.length_le most (hlimit.trans hmost), hlast.lines_eq,
    last.text.isValidUTF8, exists_version_eq actions hbase hle, ?_⟩
  intro before after hsplit hat
  have hbefore : (first.performAll before).Sound := hfirst.performAll before
  have hsince := since_performAll hbefore after
  rw [← performAll_append, ← hsplit] at hsince
  have hreach : last.history.base ≤ (first.performAll before).version := Nat.le_of_eq hat.symm
  have hrecords := hsince.records_eq hreach
  rw [hat, Nat.sub_self, List.drop_zero] at hrecords
  constructor
  · rw [hrecords, List.length_map, List.length_map]
  · rw [hrecords]
    exact (hsince.leads hreach).replay_eq

end Document

end Scriptorium
