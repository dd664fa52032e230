import Mathlib.Data.List.Induction
import Mathlib.Data.List.Infix
import Scriptorium.Document
import Scriptorium.Proofs.Splice

/-!
# Runs of a document

A run performs actions on a document: edits, accepted or refused, and replacements of the whole
text. What a single action can do is said once, as three cases. From them comes what every run
keeps, and what the history of its last document says of any earlier one: as long as the base has
not passed a version, the records from that version on are those of the edits accepted since, and
these edits lead from the text of that version to the last text.
-/

namespace Scriptorium.Document

/-- The edit that an action gets accepted, if it does. -/
def acceptedBy (document : Document) : Action → List Splice
  | .edit span inserted =>
      if Text.Fits document.text span then [⟨document.text, span, inserted⟩] else []
  | .replace _ => []

/-- The accepted edits of a run, oldest first. -/
def accepted (document : Document) : List Action → List Splice
  | [] => []
  | action :: rest => document.acceptedBy action ++ (document.perform action).accepted rest

/-- All that an action can do to a document, with the edit that it gets accepted. -/
inductive Step (document : Document) : Action → Document → List Splice → Prop where
  | accepted {span : Span} {inserted : String} (fits : Text.Fits document.text span) :
      Step document (.edit span inserted) (document.spliced span inserted)
        [⟨document.text, span, inserted⟩]
  | refused {span : Span} {inserted : String} (misfits : ¬ Text.Fits document.text span) :
      Step document (.edit span inserted) document []
  | replaced (text : String) :
      Step document (.replace text)
        (document.succ text (document.history.reset (document.version + 1))) []

theorem step_perform (document : Document) (action : Action) :
    Step document action (document.perform action) (document.acceptedBy action) := by
  cases action with
  | edit span inserted =>
      rw [perform_edit, acceptedBy]
      split
      · next h => exact .accepted h
      · next h => exact .refused h
  | replace text => exact .replaced text

theorem performAll_concat (document : Document) (actions : List Action) (action : Action) :
    document.performAll (actions ++ [action]) = (document.performAll actions).perform action := by
  simp [performAll_append]

theorem accepted_append (document : Document) (first second : List Action) :
    document.accepted (first ++ second) =
      document.accepted first ++ (document.performAll first).accepted second := by
  induction first generalizing document with
  | nil => rfl
  | cons action rest ih => rw [List.cons_append, accepted, ih, accepted, List.append_assoc]; rfl

theorem accepted_concat (document : Document) (actions : List Action) (action : Action) :
    document.accepted (actions ++ [action]) =
      document.accepted actions ++ (document.performAll actions).acceptedBy action := by
  rw [accepted_append, accepted, accepted, List.append_nil]

/-- Every accepted edit met a text that the document had on the way. -/
theorem exists_old_eq {document : Document} {actions : List Action} {splice : Splice}
    (h : splice ∈ document.accepted actions) :
    ∃ past ∈ actions.inits, splice.old = (document.performAll past).text := by
  induction actions generalizing document with
  | nil => cases h
  | cons action rest ih =>
      rw [List.inits_cons, List.exists_mem_cons_iff]
      rcases List.mem_append.1 h with hhere | hlater
      · left
        cases action with
        | edit span inserted =>
            by_cases hfits : Text.Fits document.text span
            · rw [acceptedBy, if_pos hfits, List.mem_singleton] at hhere
              rw [hhere]
              rfl
            · rw [acceptedBy, if_neg hfits] at hhere
              cases hhere
        | replace text => cases hhere
      · right
        obtain ⟨past, hpast, hold⟩ := ih hlater
        exact ⟨action :: past, List.mem_map_of_mem hpast, hold⟩

/-! ### What every run keeps -/

/-- How the parts of a document belong together, whatever was done to it. -/
structure Sound (document : Document) : Prop where
  version_eq : document.version = document.history.base + document.history.records.length
  length_le : ∀ limit, document.history.limit = some limit →
    document.history.records.length ≤ limit
  lines_eq : document.lines = .ofText document.text

variable {document next : Document} {action : Action} {taken : List Splice}

/-- From the base on, every version but the last one has its record. -/
theorem Sound.sub_base_lt (h : document.Sound) {version : Nat}
    (hbase : document.history.base ≤ version) (hlt : version < document.version) :
    version - document.history.base < document.history.records.length := by
  have := h.version_eq
  omega

theorem sound_new (name text : String) (limit : Option Nat) : (new name text limit).Sound :=
  ⟨rfl, fun _ _ => Nat.zero_le _, rfl⟩

theorem length_push_le (history : History) (record : Record) {limit : Nat}
    (h : history.limit = some limit) : (history.push record).records.length ≤ limit := by
  simp only [History.push, History.trim, History.excess, h, List.length_drop, List.length_append,
    List.length_singleton]
  omega

theorem Sound.step (h : document.Sound) (hstep : Step document action next taken) :
    next.Sound := by
  cases hstep with
  | accepted fits =>
      refine ⟨?_, fun limit hlimit => length_push_le _ _ hlimit, rfl⟩
      rw [spliced, succ, History.push_base_add_length, h.version_eq]
  | refused => exact h
  | replaced text => exact ⟨rfl, fun _ _ => Nat.zero_le _, rfl⟩

theorem Sound.performAll (h : document.Sound) (actions : List Action) :
    (document.performAll actions).Sound := by
  induction actions generalizing document with
  | nil => exact h
  | cons action rest ih => exact ih (h.step (document.step_perform action))

theorem Step.limit_eq (h : Step document action next taken) :
    next.history.limit = document.history.limit := by
  cases h <;> rfl

theorem limit_performAll (document : Document) (actions : List Action) :
    (document.performAll actions).history.limit = document.history.limit := by
  induction actions generalizing document with
  | nil => rfl
  | cons action rest ih =>
      rw [performAll_cons, ih, (document.step_perform action).limit_eq]

theorem Step.version_le (h : Step document action next taken) :
    document.version ≤ next.version ∧ next.version ≤ document.version + 1 := by
  cases h with
  | accepted fits => exact ⟨Nat.le_succ _, Nat.le_refl _⟩
  | refused => exact ⟨Nat.le_refl _, Nat.le_succ _⟩
  | replaced text => exact ⟨Nat.le_succ _, Nat.le_refl _⟩

/-- A run skips no version on its way. -/
theorem exists_version_eq {version : Nat} (actions : List Action)
    (hfirst : document.version ≤ version)
    (hlast : version ≤ (document.performAll actions).version) :
    ∃ before after, actions = before ++ after ∧
      (document.performAll before).version = version := by
  induction actions generalizing document with
  | nil => exact ⟨[], [], rfl, Nat.le_antisymm hfirst hlast⟩
  | cons action rest ih =>
      by_cases hhere : document.version = version
      · exact ⟨[], action :: rest, rfl, hhere⟩
      · have hstep := (document.step_perform action).version_le
        have hfirst' : (document.perform action).version ≤ version := by omega
        obtain ⟨before, after, hsplit, hversion⟩ := ih hfirst' hlast
        exact ⟨action :: before, after, by rw [hsplit, List.cons_append], hversion⟩

/-! ### What the history says of an earlier version

The records after an earlier version are followed through the run. An accepted edit adds its record
behind them, and what leaves the history leaves it in front. A replacement moves the base past every
version reached so far, after which nothing is said of the earlier one any more. -/

/-- The edits `taken` lie between two documents of one run. -/
structure Since (earlier : Document) (taken : List Splice) (later : Document) : Prop where
  version_le : earlier.version ≤ later.version
  base_le : earlier.history.base ≤ later.history.base
  records_eq : later.history.base ≤ earlier.version →
    later.history.records.drop (earlier.version - later.history.base) = taken.map Splice.record
  leads : later.history.base ≤ earlier.version → Splice.Leads earlier.text taken later.text

variable {earlier later : Document} {more : List Splice}

theorem Since.refl (h : document.Sound) : Since document [] document := by
  refine ⟨Nat.le_refl _, Nat.le_refl _, fun _ => ?_, fun _ => rfl⟩
  rw [List.map_nil, List.drop_eq_nil_iff]
  have := h.version_eq
  omega

theorem Since.step (h : Since earlier taken later) (hlater : later.Sound)
    (hstep : Step later action next more) : Since earlier (taken ++ more) next := by
  have hversion := hlater.version_eq
  have hle := h.version_le
  cases hstep with
  | @accepted span inserted fits =>
      let splice : Splice := ⟨later.text, span, inserted⟩
      obtain ⟨gone, hrecords, hbase⟩ : ∃ gone,
          (later.spliced span inserted).history.records =
            (later.history.records ++ [splice.record]).drop gone ∧
          (later.spliced span inserted).history.base = later.history.base + gone :=
        ⟨_, rfl, rfl⟩
      refine ⟨Nat.le_succ_of_le hle, ?_, fun hreach => ?_, fun hreach => ?_⟩
      · exact Nat.le_trans h.base_le (by omega)
      · have hreach' : later.history.base ≤ earlier.version := by omega
        have hskip : gone + (earlier.version - (later.history.base + gone)) =
            earlier.version - later.history.base := by
          omega
        rw [hrecords, hbase, List.drop_drop, hskip, List.drop_append_of_le_length (by omega),
          h.records_eq hreach', List.map_append]
        rfl
      · have hsingle : Splice.Leads later.text [splice] splice.new := .singleton fits
        exact (h.leads (by omega)).append hsingle
  | refused => simpa using h
  | replaced text =>
      have hbase : (later.succ text (later.history.reset (later.version + 1))).history.base =
          later.version + 1 := rfl
      refine ⟨Nat.le_succ_of_le hle, ?_, fun hreach => ?_, fun hreach => ?_⟩
      · have := h.base_le
        omega
      · omega
      · omega

theorem since_performAll (h : document.Sound) (actions : List Action) :
    Since document (document.accepted actions) (document.performAll actions) := by
  induction actions using List.reverseRecOn with
  | nil => exact .refl h
  | append_singleton actions action ih =>
      rw [accepted_concat, performAll_concat]
      exact ih.step (h.performAll actions) (step_perform _ action)

theorem Since.version_eq (h : Since earlier taken later) (hlater : later.Sound)
    (hreach : later.history.base ≤ earlier.version) :
    later.version = earlier.version + taken.length := by
  have hlength := congrArg List.length (h.records_eq hreach)
  have hversion := hlater.version_eq
  have hle := h.version_le
  rw [List.length_drop, List.length_map] at hlength
  omega

end Scriptorium.Document
