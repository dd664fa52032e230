import Scriptorium.Proofs.Change.Condense
import Scriptorium.Proofs.Document.Delta

/-!
# Changes between three versions

The change from a first version to a second one and the change from there to a third, each taken for
the record of one edit, collapse to the change from the first to the third. This is the case of two
blocks. The records that a document keeps can be cut into blocks anywhere.
-/

namespace Scriptorium

theorem Splice.Leads.exists_of_infix {old new : String} {splices : List Splice}
    {records : List Record} (h : Leads old splices new)
    (hrecords : records <:+: splices.map record) :
    ∃ old' part new', part <:+: splices ∧ part.map record = records ∧ Leads old' part new' := by
  obtain ⟨before, behind, hsplit⟩ := hrecords
  obtain ⟨rest, right, rfl, hrest, -⟩ := List.map_eq_append_iff.1 hsplit.symm
  obtain ⟨left, part, rfl, -, hpart⟩ := List.map_eq_append_iff.1 hrest
  obtain ⟨new', hrest', -⟩ := h.exists_of_append
  obtain ⟨old', -, hleads⟩ := hrest'.exists_of_append
  exact ⟨old', part, new', ⟨left, right, rfl⟩, hpart, hleads⟩

namespace Document

variable {earlier middle later : Document} {taken more : List Splice}

/-- What a document says of the changes since two earlier ones, and what the later of these said of
the earlier one. -/
theorem Since.collapse_changes (h : Since earlier taken middle) (h' : Since middle more later)
    (hwhole : Since earlier (taken ++ more) later) (hmiddle : middle.Sound) (hlater : later.Sound)
    (hsize : earlier.size < wordCount) (hsize' : middle.size < wordCount) {first second : Change}
    (hfirst : middle.deltaSince earlier.version = .ok (.changed first))
    (hsecond : later.deltaSince middle.version = .ok (.changed second))
    (hknown : later.deltaSince earlier.version ≠ .ok .unknown) :
    ∃ whole, Change.collapse [⟨middle.size, first⟩, ⟨later.size, second⟩] = .ok (some whole) ∧
      later.deltaSince earlier.version = .ok (.changed whole) := by
  have hexact := h.exact_of_changed hmiddle hsize hfirst
  have hexact' := h'.exact_of_changed hlater hsize' hsecond
  obtain ⟨delta, hdelta, hunchanged, -, hchanged⟩ := hwhole.exists_deltaSince hlater hsize
  cases delta with
  | unknown => exact absurd hdelta hknown
  | unchanged =>
      have hversion := (hunchanged rfl).1
      have hle := h.version_le
      have hle' := h'.version_le
      have hself : middle.version = earlier.version := by omega
      rw [← hself, deltaSince_self] at hfirst
      cases hfirst
  | changed whole =>
      obtain ⟨-, hexactWhole, -⟩ := hchanged whole rfl
      exact ⟨whole, hexact.collapse_pair hexact' hexactWhole hsize, hdelta⟩

theorem base_le_of_changed {document : Document} {version : Nat} {change : Change}
    (h : document.deltaSince version = .ok (.changed change)) :
    document.history.base ≤ version ∧ version ≤ document.version := by
  by_cases hfuture : document.version < version
  · rw [deltaSince, History.since, if_pos hfuture] at h
    cases h
  by_cases hlost : version < document.history.base
  · by_cases hself : version = document.version
    · rw [hself, deltaSince_self] at h
      cases h
    · rw [deltaSince_of_lt_base (by omega) hlost] at h
      cases h
  · exact ⟨Nat.le_of_not_lt hlost, Nat.le_of_not_lt hfuture⟩

/-- The records of a document are those of the edits accepted since the version at which they begin,
which the document had at some time. -/
theorem exists_leads_records (name text : String) (limit : Option Nat) (actions : List Action) :
    let first := new name text limit
    let last := first.performAll actions
    ∃ past rest, actions = past ++ rest ∧
      last.history.records = ((first.performAll past).accepted rest).map Splice.record ∧
      Splice.Leads (first.performAll past).text ((first.performAll past).accepted rest)
        last.text := by
  intro first last
  have hfirst : first.Sound := sound_new name text limit
  have hbase : first.version ≤ last.history.base := (since_performAll hfirst actions).base_le
  have hle : last.history.base ≤ last.version := by
    rw [(hfirst.performAll actions).version_eq]
    exact Nat.le_add_right _ _
  obtain ⟨past, rest, hsplit, hat⟩ := exists_version_eq actions hbase hle
  have hsince := since_performAll (hfirst.performAll past) rest
  rw [← performAll_append, ← hsplit] at hsince
  have hreach : last.history.base ≤ (first.performAll past).version := Nat.le_of_eq hat.symm
  have hrecords := hsince.records_eq hreach
  rw [hat, Nat.sub_self, List.drop_zero] at hrecords
  exact ⟨past, rest, hsplit, hrecords, hsince.leads hreach⟩

/-- Changes compose, and the records of a document may be collapsed in stages. Offsets are words, so
the texts on the way are taken to be no longer than a word can count. -/
theorem deltas_compose (name text : String) (limit : Option Nat) (before after : List Action)
    (hsize : ∀ past ∈ (before ++ after).inits,
      ((new name text limit).performAll past).size < wordCount) :
    let v := (new name text limit).performAll before
    let w := v.performAll after
    (∀ old first second, v.snapshot.deltaSince old = .ok (.changed first) →
      w.snapshot.deltaSince v.snapshot.version = .ok (.changed second) →
      w.snapshot.deltaSince old ≠ .ok .unknown →
      ∃ whole, Change.collapse [⟨v.snapshot.size, first⟩, ⟨w.snapshot.size, second⟩] =
          .ok (some whole) ∧
        w.snapshot.deltaSince old = .ok (.changed whole)) ∧
    ∀ blocks : List (List Record), (∀ block ∈ blocks, block ≠ []) →
      blocks.flatten <:+: w.history.records →
      ∃ condensed,
        List.Forall₂ (fun block record => Change.condense block = .ok (some record))
          blocks condensed ∧
        Change.collapse condensed = Change.collapse blocks.flatten ∧
        (blocks ≠ [] → ∃ change, Change.collapse blocks.flatten = .ok (some change)) := by
  intro v w
  have hnew : (new name text limit).Sound := sound_new name text limit
  have hv : v.Sound := hnew.performAll before
  have hw : w.Sound := hv.performAll after
  constructor
  · intro old first second hfirst hsecond hknown
    -- a change is only known since a version that this run has passed through
    obtain ⟨hbase, hle⟩ := base_le_of_changed hfirst
    have hold : (new name text limit).version ≤ old :=
      Nat.le_trans (since_performAll hnew before).base_le hbase
    obtain ⟨past, between, hsplit, rfl⟩ := exists_version_eq before hold hle
    let u := (new name text limit).performAll past
    have hu : u.Sound := hnew.performAll past
    have hv_eq : v = u.performAll between := by
      rw [← performAll_append, ← hsplit]
    have huv : Since u (u.accepted between) v := hv_eq ▸ since_performAll hu between
    have hvw : Since v (v.accepted after) w := since_performAll hv after
    have huw : Since u (u.accepted between ++ v.accepted after) w := by
      have hwhole := since_performAll hu (between ++ after)
      rwa [accepted_append, performAll_append, ← hv_eq] at hwhole
    have hsize_u : u.size < wordCount := by
      apply hsize
      rw [hsplit, List.append_assoc, List.mem_inits]
      exact List.prefix_append _ _
    have hsize_v : v.size < wordCount := by
      apply hsize
      rw [List.mem_inits]
      exact List.prefix_append _ _
    exact huv.collapse_changes hvw huw hv hw hsize_u hsize_v hfirst hsecond hknown
  · intro blocks hne hblocks
    obtain ⟨past, rest, hsplit, hrecords, hleads⟩ :=
      exists_leads_records name text limit (before ++ after)
    rw [performAll_append] at hrecords hleads
    rw [hrecords] at hblocks
    obtain ⟨old, part, new, hpart, hcut, hleads⟩ := hleads.exists_of_infix hblocks
    refine hleads.collapse_condensed ?_ hne hcut
    intro splice hsplice
    obtain ⟨way, hway, hold⟩ := exists_old_eq (hpart.subset hsplice)
    rw [hold, ← performAll_append]
    apply hsize
    rw [List.mem_inits] at hway ⊢
    rw [hsplit, List.prefix_append_right_inj]
    exact hway

/-- The second change covers two edits. Between them one was refused, in the middle of a character,
and the first of the four versions is not known any more. -/
theorem deltas_compose_multibyte :
    let first := new "f" "añb" (some 3)
    let before : List Action := [.edit ⟨4, 4⟩ "!", .edit ⟨0, 1⟩ "ö"]
    let after : List Action := [.edit ⟨2, 4⟩ "", .edit ⟨1, 2⟩ "x", .edit ⟨3, 4⟩ "é"]
    let v := first.performAll before
    let w := v.performAll after
    let blocks : List (List Record) :=
      [[⟨6, ⟨⟨0, 1⟩, 2⟩⟩, ⟨4, ⟨⟨2, 4⟩, 0⟩⟩], [⟨5, ⟨⟨3, 4⟩, 2⟩⟩]]
    (∀ past ∈ (before ++ after).inits, (first.performAll past).size < wordCount) ∧
      v.snapshot.deltaSince 2 = .ok (.changed ⟨⟨0, 1⟩, 2⟩) ∧
      w.snapshot.deltaSince v.snapshot.version = .ok (.changed ⟨⟨2, 6⟩, 3⟩) ∧
      w.snapshot.deltaSince 1 = .ok .unknown ∧
      (∃ whole, Change.collapse [⟨v.snapshot.size, ⟨⟨0, 1⟩, 2⟩⟩, ⟨w.snapshot.size, ⟨⟨2, 6⟩, 3⟩⟩] =
          .ok (some whole) ∧
        w.snapshot.deltaSince 2 = .ok (.changed whole)) ∧
      blocks.flatten <:+: w.history.records ∧
      ∃ condensed,
        List.Forall₂ (fun block record => Change.condense block = .ok (some record))
          blocks condensed ∧
        Change.collapse condensed = Change.collapse blocks.flatten := by
  intro first before after v w blocks
  have hsize : ∀ past ∈ (before ++ after).inits, (first.performAll past).size < wordCount := by
    decide
  have hv : v.snapshot.deltaSince 2 = .ok (.changed ⟨⟨0, 1⟩, 2⟩) := by decide
  have hw : w.snapshot.deltaSince v.snapshot.version = .ok (.changed ⟨⟨2, 6⟩, 3⟩) := by decide
  have hlost : w.snapshot.deltaSince 1 = .ok .unknown := by decide
  have hknown : w.snapshot.deltaSince 2 ≠ .ok .unknown := by decide
  obtain ⟨hpair, hblocks⟩ := deltas_compose "f" "añb" (some 3) before after hsize
  have hwhole := hpair 2 ⟨⟨0, 1⟩, 2⟩ ⟨⟨2, 6⟩, 3⟩ hv hw hknown
  obtain ⟨condensed, hall, hcollapse, -⟩ := hblocks blocks (by decide) (by decide)
  exact ⟨hsize, hv, hw, hlost, hwhole, by decide, condensed, hall, hcollapse⟩

end Document

end Scriptorium
