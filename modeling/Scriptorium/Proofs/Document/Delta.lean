import Scriptorium.Document.Snapshot
import Scriptorium.Proofs.Change.Collapse
import Scriptorium.Proofs.Document.Run

/-!
# What changed since a version

A document answers for an earlier version in one of three ways. Nothing changed if the version is
its own. Nothing is known if the version lies before the base of its history. Otherwise the change
that it gives covers the edits accepted since then, and it is exact.
-/

namespace Scriptorium.Document

variable {earlier later : Document} {taken : List Splice}

theorem deltaSince_self (document : Document) :
    document.deltaSince document.version = .ok .unchanged := by
  simp [deltaSince, History.since, History.between]

theorem deltaSince_of_lt_base {document : Document} {version : Nat}
    (hlt : version < document.version) (hbase : version < document.history.base) :
    document.deltaSince version = .ok .unknown := by
  rw [deltaSince, History.since, if_neg (by omega), History.between, if_neg (by omega),
    if_pos hbase]

theorem Since.text_eq (h : Since earlier taken later) (hlater : later.Sound)
    (hversion : earlier.version = later.version) : earlier.text = later.text := by
  have hreach : later.history.base ≤ earlier.version := by
    have := hlater.version_eq
    omega
  have hlength := h.version_eq hlater hreach
  have hnil : taken = [] := List.length_eq_zero_iff.1 (by omega)
  have hleads := h.leads hreach
  rw [hnil] at hleads
  exact hleads

/-- From a version that the history reaches back to, all edits since then are collapsed. -/
theorem Since.deltaSince_eq (h : Since earlier taken later) (hlater : later.Sound)
    (hlt : earlier.version < later.version) (hreach : later.history.base ≤ earlier.version) :
    ∃ last change, Change.Exact change earlier.text later.text taken ∧
      Change.Collapsible (taken.map Splice.record) last change.span.start
        (earlier.size - change.span.stop) ∧
      later.deltaSince earlier.version =
        .ok (.changed ⟨⟨change.span.start, wordOfInt change.span.stop⟩, change.inserted⟩) := by
  have hlength := h.version_eq hlater hreach
  have hsound := hlater.version_eq
  have hne : taken ≠ [] := by
    rintro rfl
    simp at hlength
    omega
  obtain ⟨last, change, hexact, hcollapsible, hcollapse⟩ := (h.leads hreach).collapse_eq hne
  refine ⟨last, change, hexact, hcollapsible, ?_⟩
  rw [deltaSince, History.since, if_neg (by omega), History.between, if_neg (by omega),
    if_neg (by omega), if_neg (by omega), h.records_eq hreach, hcollapse]
  rfl

/-- How a document of a run answers for an earlier one, and that it does answer. -/
theorem Since.exists_deltaSince (h : Since earlier taken later) (hlater : later.Sound)
    (hsize : earlier.size < wordCount) :
    ∃ delta, later.deltaSince earlier.version = .ok delta ∧
      (delta = .unchanged → earlier.version = later.version ∧ earlier.text = later.text) ∧
      (delta = .unknown → earlier.version < later.history.base) ∧
      ∀ change, delta = .changed change →
        later.history.base ≤ earlier.version ∧
        change.Exact earlier.text later.text taken ∧
        ∃ last, Change.Collapsible (taken.map Splice.record) last change.span.start
          (earlier.size - change.span.stop) := by
  rcases Nat.lt_or_eq_of_le h.version_le with hlt | heq
  · by_cases hreach : later.history.base ≤ earlier.version
    · obtain ⟨last, change, hexact, hcollapsible, hdelta⟩ := h.deltaSince_eq hlater hlt hreach
      have hword : wordOfInt change.span.stop = change.span.stop :=
        wordOfInt_natCast (Nat.lt_of_le_of_lt hexact.fits_old.2.1 hsize)
      rw [hword] at hdelta
      refine ⟨.changed change, hdelta, nofun, nofun, ?_⟩
      intro other hother
      cases hother
      exact ⟨hreach, hexact, last, hcollapsible⟩
    · have hlost : earlier.version < later.history.base := Nat.lt_of_not_le hreach
      exact ⟨.unknown, deltaSince_of_lt_base hlt hlost, nofun, fun _ => hlost, nofun⟩
  · exact ⟨.unchanged, heq ▸ deltaSince_self later, fun _ => ⟨heq, h.text_eq hlater heq⟩, nofun,
      nofun⟩

theorem Since.exact_of_changed (h : Since earlier taken later) (hlater : later.Sound)
    (hsize : earlier.size < wordCount) {change : Change}
    (hchange : later.deltaSince earlier.version = .ok (.changed change)) :
    change.Exact earlier.text later.text taken := by
  obtain ⟨delta, hdelta, -, -, hchanged⟩ := h.exists_deltaSince hlater hsize
  rw [hchange] at hdelta
  cases hdelta
  exact (hchanged change rfl).2.1

/-- Any two snapshots of one document, the second not taken before the first: the answer for the
first one never fails, says that nothing changed only if nothing did, says that nothing is known
only if the history has moved on, and is otherwise an exact change. Offsets are words of 64 bits, so
no text that is held has as many bytes as there are words. -/
theorem deltaFrom_exact (name text : String) (limit : Option Nat) (before after : List Action)
    (hsize : ((new name text limit).performAll before).size < wordCount) :
    let a := (new name text limit).performAll before
    let b := a.performAll after
    let edits := a.accepted after
    ∃ delta, b.snapshot.deltaFrom a.snapshot = .ok delta ∧
      (delta = .unchanged → a.version = b.version ∧ a.text = b.text) ∧
      (delta = .unknown → a.version < b.history.base) ∧
      ∀ change, delta = .changed change →
        change.Exact a.text b.text edits ∧
        Splice.Leads a.text edits b.text ∧
        b.version = a.version + edits.length ∧
        ∃ last, Change.Collapsible (b.history.records.drop (a.version - b.history.base)) last
          change.span.start (a.size - change.span.stop) := by
  intro a b edits
  have ha : a.Sound := (sound_new name text limit).performAll before
  have hb : b.Sound := ha.performAll after
  have h : Since a edits b := since_performAll ha after
  obtain ⟨delta, hdelta, hunchanged, hunknown, hchanged⟩ := h.exists_deltaSince hb hsize
  refine ⟨delta, hdelta, hunchanged, hunknown, fun change hchange => ?_⟩
  obtain ⟨hreach, hexact, last, hcollapsible⟩ := hchanged change hchange
  refine ⟨hexact, h.leads hreach, h.version_eq hb hreach, last, ?_⟩
  rw [h.records_eq hreach]
  exact hcollapsible

/-- Two edits are collapsed; the one between them, in the middle of a character, was refused. -/
theorem deltaFrom_exact_multibyte :
    let a := (new "f" "añb" (some 2)).performAll [.edit ⟨0, 1⟩ "ö"]
    let b := a.performAll [.edit ⟨2, 4⟩ "", .edit ⟨1, 2⟩ "x", .edit ⟨3, 3⟩ "é"]
    a.size < wordCount ∧ b.snapshot.deltaFrom a.snapshot = .ok (.changed ⟨⟨2, 5⟩, 3⟩) ∧
      Change.Exact ⟨⟨2, 5⟩, 3⟩ "öñb" "öbé" [⟨"öñb", ⟨2, 4⟩, ""⟩, ⟨"öb", ⟨3, 3⟩, "é"⟩] := by
  intro a b
  have hsize : a.size < wordCount := by decide
  obtain ⟨delta, hdelta, -, -, hchanged⟩ := deltaFrom_exact "f" "añb" (some 2) [.edit ⟨0, 1⟩ "ö"]
    [.edit ⟨2, 4⟩ "", .edit ⟨1, 2⟩ "x", .edit ⟨3, 3⟩ "é"] hsize
  have hanswer : b.snapshot.deltaFrom a.snapshot = .ok (.changed ⟨⟨2, 5⟩, 3⟩) := by decide
  rw [hanswer] at hdelta
  cases hdelta
  exact ⟨hsize, hanswer, (hchanged _ rfl).1⟩

end Scriptorium.Document
