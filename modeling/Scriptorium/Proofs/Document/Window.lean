import Mathlib.Data.List.DropRight
import Scriptorium.Proofs.Document.Delta

/-!
# The window of a limited history

A limit on the history shows nowhere but in how far back the answers reach. The document with the
limit is at every moment the one without it, seen through a window on the latest records: what an
action does commutes with taking the window. Inside the window both documents give the same answers.
-/

namespace Scriptorium

namespace History

/-- The latest `limit` records of a history. -/
def limited (history : History) (limit : Nat) : History :=
  { history with limit := some limit }.trim

variable {history : History} {limit : Nat}

theorem limited_records (history : History) (limit : Nat) :
    (history.limited limit).records = history.records.drop (history.records.length - limit) :=
  rfl

theorem limited_base (history : History) (limit : Nat) :
    (history.limited limit).base = history.base + (history.records.length - limit) :=
  rfl

theorem push_of_unlimited (h : history.limit = none) (record : Record) :
    history.push record = { history with records := history.records ++ [record] } := by
  simp [push, trim, excess, h]

/-- What leaves the window in two steps is what leaves it in one. -/
theorem push_limited (h : history.limit = none) (limit : Nat) (record : Record) :
    (history.limited limit).push record = (history.push record).limited limit := by
  have hpush : (history.push record).limited limit =
      ⟨(history.records ++ [record]).drop (history.records.length + 1 - limit),
        history.base + (history.records.length + 1 - limit), some limit⟩ := by
    simp [push_of_unlimited h, limited, trim, excess]
  let gone := history.records.length - limit
  let more := history.records.length - gone + 1 - limit
  have hgone : gone + more = history.records.length + 1 - limit := by omega
  rw [hpush]
  have hlimited : (history.limited limit).push record =
      ⟨(history.records.drop gone ++ [record]).drop more, history.base + gone + more,
        some limit⟩ := by
    simp [push, limited, trim, excess, gone, more]
  rw [hlimited, ← List.drop_append_of_le_length (Nat.sub_le _ _), List.drop_drop, hgone,
    Nat.add_assoc, hgone]

theorem reset_limited (history : History) (limit version : Nat) :
    (history.limited limit).reset version = (history.reset version).limited limit := by
  simp [reset, limited, trim, excess]

/-- The window hides nothing that it reaches back to. -/
theorem between_limited {old : Nat}
    (hreach : history.base + (history.records.length - limit) ≤ old) (current : Nat) :
    (history.limited limit).between old current = history.between old current := by
  have hskip : history.records.length - limit +
      (old - (history.base + (history.records.length - limit))) = old - history.base := by
    omega
  have hlength : (history.records.length - (history.records.length - limit) <
      old - (history.base + (history.records.length - limit))) ↔
        history.records.length < old - history.base := by
    omega
  have hbase : ¬ old < history.base + (history.records.length - limit) := by omega
  have hbase' : ¬ old < history.base := by omega
  simp only [between, limited_records, limited_base, List.length_drop, List.drop_drop, hskip,
    hlength, hbase, hbase']

end History

namespace Document

/-- An action of a kind that the history keeps a record of. -/
def Action.isEdit : Action → Bool
  | .edit .. => true
  | .replace .. => false

/-- What an action answers: the record of an edit, nothing for a replacement. -/
def answer (document : Document) : Action → Except Error (Option Record)
  | .edit span inserted => (document.edit span inserted).map fun result => some result.value.2
  | .replace _ => .ok none

/-- The answers of a run, in order. -/
def answers (document : Document) : List Action → List (Except Error (Option Record))
  | [] => []
  | action :: rest => document.answer action :: (document.perform action).answers rest

/-- A document of another name whose history keeps only its latest records. -/
def windowed (document : Document) (name : String) (limit : Nat) : Document :=
  { document with name := name, history := document.history.limited limit }

variable {document : Document}

/-! ### The window commutes with a step -/

@[simp] theorem windowed_text (document : Document) (name : String) (limit : Nat) :
    (document.windowed name limit).text = document.text := rfl

theorem perform_windowed (h : document.history.limit = none) (name : String) (limit : Nat)
    (action : Action) :
    (document.windowed name limit).perform action =
      (document.perform action).windowed name limit := by
  cases action with
  | edit span inserted =>
      rw [perform_edit, perform_edit, windowed_text]
      by_cases hfits : Text.Fits document.text span
      · rw [if_pos hfits, if_pos hfits]
        have hpush := History.push_limited h limit (document.recordOf span inserted)
        simp only [spliced, succ, windowed, Document.mk.injEq, true_and, and_true]
        exact hpush
      · rw [if_neg hfits, if_neg hfits]
  | replace text =>
      have hreset := History.reset_limited document.history limit (document.version + 1)
      simp only [perform, replace, succ, windowed, Document.mk.injEq, true_and, and_true]
      exact hreset

theorem answer_windowed (document : Document) (name : String) (limit : Nat) (action : Action) :
    (document.windowed name limit).answer action = document.answer action := by
  cases action with
  | edit span inserted =>
      by_cases hfits : Text.Fits document.text span
      · have hfits' : Text.Fits (document.windowed name limit).text span := hfits
        rw [answer, answer, edit_eq_ok hfits, edit_eq_ok hfits']
        rfl
      · have hfits' : ¬ Text.Fits (document.windowed name limit).text span := hfits
        rw [answer, answer, edit_eq_error hfits, edit_eq_error hfits']
        rfl
  | replace text => rfl

theorem unlimited_perform (h : document.history.limit = none) (action : Action) :
    (document.perform action).history.limit = none :=
  (document.step_perform action).limit_eq.trans h

theorem performAll_windowed (h : document.history.limit = none) (name : String) (limit : Nat)
    (actions : List Action) :
    (document.windowed name limit).performAll actions =
        (document.performAll actions).windowed name limit ∧
      (document.windowed name limit).answers actions = document.answers actions := by
  induction actions generalizing document with
  | nil => exact ⟨rfl, rfl⟩
  | cons action rest ih =>
      obtain ⟨hlast, hanswers⟩ := ih (unlimited_perform h action)
      constructor
      · rw [performAll_cons, performAll_cons, perform_windowed h, hlast]
      · rw [answers, answers, answer_windowed, perform_windowed h, hanswers]

theorem new_windowed (name name' text : String) (limit : Nat) :
    (new name text none).windowed name' limit = new name' text (some limit) := by
  simp [new, windowed, History.new, History.limited, History.trim, History.excess]

/-- What a document seen through a window answers, told by the document itself. -/
theorem deltaSince_windowed (document : Document) (name : String) (limit version : Nat) :
    (document.windowed name limit).deltaSince version =
      if document.version < version then .error (.futureVersion version document.version)
      else if version = document.version then .ok .unchanged
      else if version < document.history.base + (document.history.records.length - limit) then
        .ok .unknown
      else document.deltaSince version := by
  have hdelta : (document.windowed name limit).deltaSince version =
      (document.history.limited limit).since document.version version := rfl
  rw [hdelta, History.since, deltaSince, History.since]
  by_cases hfuture : document.version < version
  · rw [if_pos hfuture, if_pos hfuture]
  rw [if_neg hfuture, if_neg hfuture, if_neg hfuture]
  by_cases hself : version = document.version
  · rw [if_pos hself, History.between, if_pos hself]
  rw [if_neg hself]
  by_cases hlost : version < document.history.base + (document.history.records.length - limit)
  · rw [if_pos hlost, History.between, if_neg hself, History.limited_base, if_pos hlost]
  · rw [if_neg hlost, History.between_limited (Nat.le_of_not_lt hlost)]

/-! ### The document without a limit

Its history begins at the last replacement, or with the document, and keeps every record since. -/

/-- The document of a run when its text was last replaced as a whole, or at the start. -/
def opening (document : Document) (actions : List Action) : Document :=
  document.performAll (actions.rdropWhile Action.isEdit)

/-- The edits accepted in a run since the text was last replaced as a whole. -/
def recent (document : Document) (actions : List Action) : List Splice :=
  (document.opening actions).accepted (actions.rtakeWhile Action.isEdit)

theorem history_performAll_of_edits (h : document.history.limit = none) {actions : List Action}
    (hedits : ∀ action ∈ actions, action.isEdit = true) :
    (document.performAll actions).history =
      ⟨document.history.records ++ (document.accepted actions).map Splice.record,
        document.history.base, none⟩ := by
  induction actions generalizing document with
  | nil => simp [accepted, ← h]
  | cons action rest ih =>
      rw [List.forall_mem_cons] at hedits
      have hstep := document.step_perform action
      rw [performAll_cons, ih (unlimited_perform h action) hedits.2, accepted, List.map_append]
      generalize document.perform action = next at hstep ⊢
      generalize document.acceptedBy action = taken at hstep ⊢
      cases hstep with
      | @accepted span inserted fits =>
          have hpush := History.push_of_unlimited h (document.recordOf span inserted)
          simp only [spliced, succ, hpush, List.append_assoc]
          rfl
      | refused => simp
      | replaced text => simp [Action.isEdit] at hedits

theorem records_opening (name text : String) (limit : Option Nat) (actions : List Action) :
    ((new name text limit).opening actions).history.records = [] := by
  rw [opening]
  rcases List.eq_nil_or_concat (actions.rdropWhile Action.isEdit) with hnil | ⟨front, last, hlast⟩
  · rw [hnil]
    rfl
  · have hne : actions.rdropWhile Action.isEdit ≠ [] := by simp [hlast]
    have hreplace := List.rdropWhile_last_not Action.isEdit actions hne
    simp only [hlast, List.concat_eq_append, List.getLast_append_singleton] at hreplace
    rw [hlast, List.concat_eq_append, performAll_concat]
    cases last with
    | edit span inserted => simp [Action.isEdit] at hreplace
    | replace text => rfl

theorem performAll_opening (document : Document) (actions : List Action) :
    (document.opening actions).performAll (actions.rtakeWhile Action.isEdit) =
      document.performAll actions := by
  rw [opening, ← performAll_append, List.rdropWhile_append_rtakeWhile]

/-- A history without a limit, told from the run alone. -/
theorem history_unlimited (name text : String) (actions : List Action) :
    ((new name text none).performAll actions).history =
      ⟨((new name text none).recent actions).map Splice.record,
        ((new name text none).opening actions).version, none⟩ := by
  have hlimit : ((new name text none).opening actions).history.limit = none :=
    limit_performAll _ _
  have hsound : ((new name text none).opening actions).Sound :=
    (sound_new name text none).performAll _
  have hrecords := records_opening name text none actions
  have hversion := hsound.version_eq
  rw [hrecords, List.length_nil, Nat.add_zero] at hversion
  rw [← performAll_opening, history_performAll_of_edits hlimit fun action haction =>
    List.mem_rtakeWhile_imp haction, hrecords, ← hversion]
  rfl

/-- From every version since the last replacement, a history without a limit gives a change. -/
theorem exists_deltaSince_unlimited (name text : String) (actions : List Action) {version : Nat}
    (hfirst : ((new name text none).opening actions).version ≤ version)
    (hlast : version < ((new name text none).performAll actions).version) :
    ∃ change, ((new name text none).performAll actions).deltaSince version =
      .ok (.changed change) := by
  have hopening : ((new name text none).opening actions).Sound :=
    (sound_new name text none).performAll _
  have hrun := performAll_opening (new name text none) actions
  have hlast' := Nat.le_of_lt hlast
  rw [← hrun] at hlast'
  obtain ⟨before, after, hsplit, hversion⟩ := exists_version_eq _ hfirst hlast'
  have hbefore := hopening.performAll before
  have hsince := since_performAll hbefore after
  rw [← performAll_append, ← hsplit, hrun] at hsince
  have hbase : ((new name text none).performAll actions).history.base =
      ((new name text none).opening actions).version := by
    rw [history_unlimited]
  have hlt := hlast
  have hreach := hfirst
  rw [← hversion] at hlt
  rw [← hbase, ← hversion] at hreach
  obtain ⟨-, change, -, -, hdelta⟩ := hsince.deltaSince_eq
    ((sound_new name text none).performAll actions) hlt hreach
  rw [hversion] at hdelta
  exact ⟨_, hdelta⟩

/-- A document with a limited history is at every moment the one without a limit, except that it
keeps only the latest records: as many of those since the last replacement as the limit allows. Its
answer for a version says so where the version lies before the window, and is otherwise that of the
document without a limit. No answer asks for records beyond the last one kept. -/
theorem limited_run (name name' text : String) (limit : Nat) (actions : List Action) :
    let full := (new name text none).performAll actions
    let part := (new name' text (some limit)).performAll actions
    let first := ((new name text none).opening actions).version
    let edits := (new name text none).recent actions
    part.text = full.text ∧ part.version = full.version ∧ part.lines = full.lines ∧
      (new name' text (some limit)).answers actions = (new name text none).answers actions ∧
      full.history.records = edits.map Splice.record ∧
      part.history.records =
        full.history.records.drop (edits.length - min limit edits.length) ∧
      part.history.records.length = min limit edits.length ∧
      ∀ version,
        part.deltaSince version =
          (if full.version < version then .error (.futureVersion version full.version)
          else if version = full.version then .ok .unchanged
          else if version < max first (full.version - limit) then .ok .unknown
          else full.deltaSince version) ∧
        (max first (full.version - limit) ≤ version → version < full.version →
          ∃ change, full.deltaSince version = .ok (.changed change)) ∧
        (part.history.base ≤ version → version < part.version →
          version - part.history.base < part.history.records.length) ∧
        (full.history.base ≤ version → version < full.version →
          version - full.history.base < full.history.records.length) := by
  intro full part first edits
  have hfull : full.Sound := (sound_new name text none).performAll actions
  have hsound : part.Sound := (sound_new name' text (some limit)).performAll actions
  have hunlimited : (new name text none).history.limit = none := rfl
  have hrun := performAll_windowed hunlimited name' limit actions
  rw [new_windowed] at hrun
  obtain ⟨hpart, hanswers⟩ : part = full.windowed name' limit ∧ _ := hrun
  have hhistory : full.history = ⟨edits.map Splice.record, first, none⟩ :=
    history_unlimited name text actions
  have hrecords : full.history.records = edits.map Splice.record := by rw [hhistory]
  have hbase : full.history.base = first := by rw [hhistory]
  have hlength : full.history.records.length = edits.length := by rw [hrecords, List.length_map]
  have hversion : full.version = first + edits.length := by
    rw [← hbase, ← hlength]
    exact hfull.version_eq
  have hgone : edits.length - limit = edits.length - min limit edits.length := by omega
  have hpartRecords : part.history.records =
      full.history.records.drop (edits.length - min limit edits.length) := by
    rw [hpart, ← hgone, ← hlength]
    rfl
  refine ⟨by rw [hpart]; rfl, by rw [hpart]; rfl, by rw [hpart]; rfl, hanswers, hrecords,
    hpartRecords, ?_, fun version => ⟨?_, ?_, hsound.sub_base_lt, hfull.sub_base_lt⟩⟩
  · rw [hpartRecords, List.length_drop, hlength]
    omega
  · have hwindow : max first (full.version - limit) =
        full.history.base + (full.history.records.length - limit) := by
      omega
    rw [hwindow, hpart]
    exact deltaSince_windowed full name' limit version
  · intro hreach hlast
    have hfirst := Nat.le_trans (Nat.le_max_left first (full.version - limit)) hreach
    exact exists_deltaSince_unlimited name text actions hfirst hlast

end Document

end Scriptorium
