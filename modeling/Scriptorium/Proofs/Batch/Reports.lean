import Mathlib.Data.List.Forall2
import Scriptorium.Proofs.Batch.Nesting

/-!
# What is reported about dropped edits

Whoever proposes a batch can learn from the log what became of each edit. An edit that is not kept
is nested, and its report names it together with the one because of which it was dropped. That is
the last edit kept at the time, and since nothing that was kept is taken back, it is among those the
batch is settled to. A conflict ends the log with a warning. Up to there the log is that of the
edits before the conflict, settled on their own.
-/

namespace Scriptorium.Batch

variable {edits list before rest settled dropped : List Edit} {edit kept : Edit} {cause : Error}
  {events : List Event}

/-! ### The edits that are dropped -/

/-- The edits of a list that are nested, where others stand before the list. -/
def nestedAfter (before : List Edit) : List Edit → List Edit
  | [] => []
  | edit :: rest =>
      if Nested before edit then edit :: nestedAfter (before ++ [edit]) rest
      else nestedAfter (before ++ [edit]) rest

/-- The edits of a list that one before them covers. -/
def nested (edits : List Edit) : List Edit :=
  nestedAfter [] edits

theorem nestedAfter_sublist (before list : List Edit) :
    (nestedAfter before list).Sublist list := by
  induction list generalizing before with
  | nil => exact .slnil
  | cons edit rest ih =>
      rw [nestedAfter]
      split
      · exact (ih _).cons_cons edit
      · exact (ih _).cons edit

/-- Each edit of a list is either nested or not. -/
theorem unnestedAfter_append_nestedAfter_perm (before list : List Edit) :
    (unnestedAfter before list ++ nestedAfter before list).Perm list := by
  induction list generalizing before with
  | nil => exact .nil
  | cons edit rest ih =>
      rw [unnestedAfter, nestedAfter]
      split
      · exact List.perm_middle.trans ((ih _).cons edit)
      · exact (ih _).cons edit

/-! ### Reports -/

/-- An event reports that an edit was dropped: it names the span of the edit and that of a kept one
which contains it and reaches beyond its start. -/
def ReportsDropped (settled : List Edit) (edit : Edit) (event : Event) : Prop :=
  ∃ kept ∈ settled, kept.span.Contains edit.span ∧ edit.span.start < kept.span.stop ∧
    event = .nestedDropped edit.span kept.span

theorem ReportsDropped.cons {event : Event} (h : ReportsDropped settled edit event) (kept : Edit) :
    ReportsDropped (kept :: settled) edit event := by
  obtain ⟨other, hother, hreport⟩ := h
  exact ⟨other, List.mem_cons_of_mem _ hother, hreport⟩

theorem level_of_reports (h : List.Forall₂ (ReportsDropped settled) dropped events) :
    ∀ event ∈ events, event.level = .trace := by
  induction h with
  | nil => exact List.forall_mem_nil _
  | cons hfirst _ ih =>
      obtain ⟨kept, -, -, -, rfl⟩ := hfirst
      exact List.forall_mem_cons.2 ⟨rfl, ih⟩

/-- Events account for a list of edits of which some were kept: these are the ones that are not
nested, and for each of the others, in the order of the list, there is one event that reports it. -/
structure Accounted (list settled : List Edit) (events : List Event) : Prop where
  settled_eq : settled = unnested list
  reports : List.Forall₂ (ReportsDropped settled) (nested list) events
  settled_sublist : settled.Sublist list
  nested_sublist : (nested list).Sublist list
  perm : (settled ++ nested list).Perm list
  length_add : events.length + settled.length = list.length
  level_eq : ∀ event ∈ events, event.level = .trace

theorem accounted_of_reports
    (h : List.Forall₂ (ReportsDropped (unnested list)) (nested list) events) :
    Accounted list (unnested list) events where
  settled_eq := rfl
  reports := h
  settled_sublist := unnestedAfter_sublist [] list
  nested_sublist := nestedAfter_sublist [] list
  perm := unnestedAfter_append_nestedAfter_perm [] list
  length_add := by
    rw [← h.length_eq, Nat.add_comm, ← List.length_append]
    exact (unnestedAfter_append_nestedAfter_perm [] list).length_eq
  level_eq := level_of_reports h

/-! ### What one edit of the list adds -/

theorem settleAfter_keep (h : kept.span.stop ≤ edit.span.start) (rest : List Edit) :
    settleAfter kept (edit :: rest) =
      (settleAfter edit rest).map fun result => result.map (edit :: ·) := by
  rw [settleAfter, if_pos h]

theorem settleAfter_drop (h : edit.span.start < kept.span.stop)
    (hcontains : kept.span.Contains edit.span) (rest : List Edit) :
    settleAfter kept (edit :: rest) =
      ⟨(settleAfter kept rest).value,
        .nestedDropped edit.span kept.span :: (settleAfter kept rest).events⟩ := by
  rw [settleAfter, if_neg (Nat.not_le_of_lt h), if_pos hcontains]

theorem settleAfter_conflict (h : edit.span.start < kept.span.stop)
    (hnot : ¬ kept.span.Contains edit.span) (rest : List Edit) :
    settleAfter kept (edit :: rest) =
      ⟨.error (.conflict kept.span edit.span), [.overlapFound kept.span edit.span]⟩ := by
  rw [settleAfter, if_neg (Nat.not_le_of_lt h), if_neg hnot]

theorem reports_settleAfter (hkept : LastKept before kept)
    (hsorted : (kept :: rest).Pairwise fun a b => a.span.start ≤ b.span.start)
    (hupright : ∀ edit ∈ rest, edit.span.start ≤ edit.span.stop)
    (h : (settleAfter kept rest).value = .ok settled) :
    List.Forall₂ (ReportsDropped (kept :: settled)) (nestedAfter before rest)
      (settleAfter kept rest).events := by
  induction rest generalizing before kept settled with
  | nil => exact .nil
  | cons edit rest ih =>
      obtain ⟨-, hrest⟩ := List.pairwise_cons.1 hsorted
      obtain ⟨hedit, hothers⟩ := List.forall_mem_cons.1 hupright
      rw [nestedAfter]
      by_cases hbehind : kept.span.stop ≤ edit.span.start
      · rw [settleAfter_keep hbehind] at h ⊢
        obtain ⟨others, hsettled, rfl⟩ := exists_of_map_cons_eq_ok h
        have hnot : ¬ Nested before edit := by
          rw [hkept.nested_iff]
          omega
        have hreports := ih (hkept.keep hbehind hedit).1 hrest hothers hsettled
        rw [if_neg hnot]
        exact hreports.imp fun _ _ hreport => hreport.cons kept
      · have hreaches : edit.span.start < kept.span.stop := Nat.lt_of_not_le hbehind
        by_cases hcontains : kept.span.Contains edit.span
        · rw [settleAfter_drop hreaches hcontains] at h ⊢
          have hnested : Nested before edit := hkept.nested_iff.2 ⟨hreaches, hcontains.2⟩
          have hsorted' := hsorted.sublist ((List.sublist_cons_self edit rest).cons_cons kept)
          rw [if_pos hnested]
          refine .cons ⟨kept, List.mem_cons_self, hcontains, hreaches, rfl⟩ ?_
          exact ih (hkept.drop hnested).1 hsorted' hothers h
        · rw [settleAfter_conflict hreaches hcontains] at h
          cases h

theorem accounted_settleSorted (hsorted : list.Pairwise fun a b => a.span.start ≤ b.span.start)
    (hupright : ∀ edit ∈ list, edit.span.start ≤ edit.span.stop)
    (h : (settleSorted list).value = .ok settled) :
    Accounted list settled (settleSorted list).events := by
  obtain rfl : settled = unnested list := by
    cases h ▸ ruling_settleSorted hsorted hupright with
    | settled hfree => rfl
  apply accounted_of_reports
  cases list with
  | nil => exact .nil
  | cons edit rest =>
      obtain ⟨others, hothers, hsettled⟩ := exists_of_map_cons_eq_ok h
      have hrest := (List.forall_mem_cons.1 hupright).2
      have hfirst : nested (edit :: rest) = nestedAfter [edit] rest := by
        simp [nested, nestedAfter, Nested]
      rw [hfirst, hsettled]
      exact reports_settleAfter (lastKept_singleton edit) hsorted hrest hothers

/-! ### Up to a conflict -/

/-- Settling goes on from the last edit kept, and so does the log. -/
theorem events_settleAfter_append {front : List Edit} {last : Edit}
    (h : (settleAfter kept front).value = .ok settled)
    (hlast : (kept :: settled).getLast? = some last) (rest : List Edit) :
    (settleAfter kept (front ++ rest)).events =
      (settleAfter kept front).events ++ (settleAfter last rest).events := by
  induction front generalizing kept settled with
  | nil =>
      cases h
      cases hlast
      rfl
  | cons edit front ih =>
      rw [List.cons_append]
      by_cases hbehind : kept.span.stop ≤ edit.span.start
      · rw [settleAfter_keep hbehind] at h ⊢
        rw [settleAfter_keep hbehind]
        obtain ⟨others, hsettled, rfl⟩ := exists_of_map_cons_eq_ok h
        rw [List.getLast?_cons_cons] at hlast
        exact ih hsettled hlast
      · have hreaches : edit.span.start < kept.span.stop := Nat.lt_of_not_le hbehind
        by_cases hcontains : kept.span.Contains edit.span
        · rw [settleAfter_drop hreaches hcontains] at h ⊢
          rw [settleAfter_drop hreaches hcontains]
          exact congrArg (_ :: ·) (ih h hlast)
        · rw [settleAfter_conflict hreaches hcontains] at h
          cases h

theorem events_settleSorted_append {front : List Edit} {last : Edit}
    (h : (settleSorted front).value = .ok settled) (hlast : settled.getLast? = some last)
    (rest : List Edit) :
    (settleSorted (front ++ rest)).events =
      (settleSorted front).events ++ (settleAfter last rest).events := by
  cases front with
  | nil =>
      cases h
      cases hlast
  | cons edit front =>
      obtain ⟨others, hothers, rfl⟩ := exists_of_map_cons_eq_ok h
      exact events_settleAfter_append hothers hlast rest

/-- Where a list collides, the edits before the collision are settled, and nothing is reported after
it. -/
theorem exists_accounted_of_conflict {first second : Span}
    (hsorted : list.Pairwise fun a b => a.span.start ≤ b.span.start)
    (hupright : ∀ edit ∈ list, edit.span.start ≤ edit.span.stop)
    (h : (settleSorted list).value = .error (.conflict first second)) :
    ∃ before kept edit behind settled, list = before ++ edit :: behind ∧
      (settleSorted before).value = .ok settled ∧ settled.getLast? = some kept ∧
      first = kept.span ∧ second = edit.span ∧
      Accounted before settled (settleSorted before).events ∧
      (settleSorted list).events =
        (settleSorted before).events ++ [.overlapFound first second] := by
  have hruling := ruling_settleSorted hsorted hupright
  rw [h] at hruling
  cases hruling with
  | @conflict before behind kept edit hsplit hfree hkept hstart hcross =>
      subst hsplit
      have hbefore := (List.pairwise_append.1 hsorted).1
      have hupright' := (List.forall_mem_append.1 hupright).1
      have hvalue := (ruling_settleSorted hbefore hupright').eq_ok hfree
      have haccounted := accounted_settleSorted hbefore hupright' hvalue
      obtain ⟨hreaches, hstop⟩ := (hkept.crosses_iff hstart).1 hcross
      have hnot : ¬ kept.span.Contains edit.span := fun hcontains =>
        Nat.not_le_of_lt hstop hcontains.2
      refine ⟨before, kept, edit, behind, _, rfl, hvalue, hkept.getLast_eq, rfl, rfl, haccounted,
        ?_⟩
      rw [events_settleSorted_append hvalue hkept.getLast_eq, settleAfter_conflict hreaches hnot]

/-- **No edit of a batch is dropped silently.** If a batch is settled, its log has one event for
each edit that is not kept, in the order of the list by start, and nothing else. If two edits
collide, the log ends with a warning that names them, and up to there it accounts in the same way
for the edits listed before the second of them. About an inverted edit nothing is reported. -/
theorem settle_accounted (edits : List Edit) :
    (∀ settled, (settle edits).value = .ok settled →
      Accounted (sorted edits) settled (settle edits).events ∧
        (settle edits).events.length = edits.length - settled.length) ∧
    (∀ first second, (settle edits).value = .error (.conflict first second) →
      ∃ before kept edit behind settled, sorted edits = before ++ edit :: behind ∧
        (settle before).value = .ok settled ∧ settled.getLast? = some kept ∧
        first = kept.span ∧ second = edit.span ∧
        Accounted before settled (settle before).events ∧
        (settle edits).events = (settle before).events ++ [.overlapFound first second] ∧
        (settle edits).events.filter (·.level = .warn) = [.overlapFound first second]) ∧
    (∀ span, (settle edits).value = .error (.inverted span) → (settle edits).events = []) ∧
    (∀ cause, (settle edits).value = .error cause →
      (∃ first second, cause = .conflict first second) ∨ ∃ span, cause = .inverted span) := by
  cases hinverted : edits.find? Edit.isInverted with
  | some edit =>
      have hsettle : settle edits = .silent (.error (.inverted edit.span)) := by
        rw [settle, hinverted]
      rw [hsettle]
      refine ⟨?_, ?_, fun _ _ => rfl, ?_⟩
      · intro settled h
        cases h
      · intro first second h
        cases h
      · intro cause h
        exact .inr ⟨edit.span, (Except.error.inj h).symm⟩
  | none =>
      have hupright := find?_isInverted_eq_none_iff.1 hinverted
      have hlisted : ∀ edit ∈ sorted edits, edit.span.start ≤ edit.span.stop := by
        intro edit hedit
        exact hupright edit ((sorted_perm edits).mem_iff.1 hedit)
      have hsorted := pairwise_sorted edits
      have hruling := ruling_settleSorted hsorted hlisted
      rw [settle_of_upright hupright]
      refine ⟨?_, ?_, ?_, ?_⟩
      · intro settled h
        have haccounted := accounted_settleSorted hsorted hlisted h
        have hlength := haccounted.length_add
        rw [(sorted_perm edits).length_eq] at hlength
        exact ⟨haccounted, by omega⟩
      · intro first second h
        obtain ⟨before, kept, edit, behind, settled, hsplit, hvalue, hlast, hfirst, hsecond,
          haccounted, hevents⟩ := exists_accounted_of_conflict hsorted hlisted h
        rw [hsplit] at hsorted hlisted
        -- the edits before the collision are in order, so they are a batch that is its own list
        have hbefore : settle before = settleSorted before := by
          rw [settle_of_upright (List.forall_mem_append.1 hlisted).1,
            sorted_eq_self (List.pairwise_append.1 hsorted).1]
        rw [← hbefore] at hvalue haccounted hevents
        refine ⟨before, kept, edit, behind, settled, hsplit, hvalue, hlast, hfirst, hsecond,
          haccounted, hevents, ?_⟩
        have htrace : (settle before).events.filter (·.level = .warn) = [] := by
          rw [List.filter_eq_nil_iff]
          intro event hevent
          rw [haccounted.level_eq event hevent]
          decide
        rw [hevents, List.filter_append, htrace]
        rfl
      · intro span h
        rw [h] at hruling
        cases hruling
      · intro cause h
        rw [h] at hruling
        cases hruling with
        | conflict => exact .inl ⟨_, _, rfl⟩

/-- An edit proposed twice is dropped once, and so is an insertion at the start of a replacement
that is listed first. Two edits inside a third one are dropped before the one that reaches out of it
is found. -/
theorem settle_accounted_overlap :
    let repeated : List Edit := [⟨⟨4, 6⟩, "b"⟩, ⟨⟨1, 3⟩, "a"⟩, ⟨⟨1, 3⟩, "a"⟩, .insert 4 "c"]
    let crossing : List Edit := [⟨⟨0, 9⟩, "a"⟩, ⟨⟨1, 4⟩, "b"⟩, ⟨⟨2, 6⟩, "c"⟩, ⟨⟨8, 12⟩, "d"⟩]
    let inverted : List Edit := [⟨⟨0, 4⟩, "a"⟩, ⟨⟨1, 2⟩, "b"⟩, ⟨⟨3, 2⟩, "c"⟩]
    (settle repeated).value = .ok [⟨⟨1, 3⟩, "a"⟩, ⟨⟨4, 6⟩, "b"⟩] ∧
      nested (sorted repeated) = [⟨⟨1, 3⟩, "a"⟩, .insert 4 "c"] ∧
      Accounted (sorted repeated) [⟨⟨1, 3⟩, "a"⟩, ⟨⟨4, 6⟩, "b"⟩] (settle repeated).events ∧
      (settle repeated).events =
        [.nestedDropped ⟨1, 3⟩ ⟨1, 3⟩, .nestedDropped ⟨4, 4⟩ ⟨4, 6⟩] ∧
      (settle crossing).value = .error (.conflict ⟨0, 9⟩ ⟨8, 12⟩) ∧
      (settle crossing).events =
        [.nestedDropped ⟨1, 4⟩ ⟨0, 9⟩, .nestedDropped ⟨2, 6⟩ ⟨0, 9⟩,
          .overlapFound ⟨0, 9⟩ ⟨8, 12⟩] ∧
      (∃ before settled, Accounted before settled (settle before).events ∧
        (settle crossing).events = (settle before).events ++ [.overlapFound ⟨0, 9⟩ ⟨8, 12⟩]) ∧
      (settle inverted).value = .error (.inverted ⟨3, 2⟩) ∧ (settle inverted).events = [] := by
  intro repeated crossing inverted
  have hlisted : sorted repeated =
      [⟨⟨1, 3⟩, "a"⟩, ⟨⟨1, 3⟩, "a"⟩, ⟨⟨4, 6⟩, "b"⟩, .insert 4 "c"] := by
    simp [repeated, sorted, List.mergeSort, List.MergeSort.Internal.splitInTwo, Edit.insert]
  have hlisted' : sorted crossing = crossing := sorted_eq_self (by decide)
  have hrepeated : settle repeated =
      ⟨.ok [⟨⟨1, 3⟩, "a"⟩, ⟨⟨4, 6⟩, "b"⟩],
        [.nestedDropped ⟨1, 3⟩ ⟨1, 3⟩, .nestedDropped ⟨4, 4⟩ ⟨4, 6⟩]⟩ := by
    rw [settle_of_upright (by decide), hlisted]
    rfl
  have hcrossing : settle crossing =
      ⟨.error (.conflict ⟨0, 9⟩ ⟨8, 12⟩),
        [.nestedDropped ⟨1, 4⟩ ⟨0, 9⟩, .nestedDropped ⟨2, 6⟩ ⟨0, 9⟩,
          .overlapFound ⟨0, 9⟩ ⟨8, 12⟩]⟩ := by
    rw [settle_of_upright (by decide), hlisted']
    rfl
  have hnested : nested (sorted repeated) = [⟨⟨1, 3⟩, "a"⟩, .insert 4 "c"] := by
    rw [hlisted]
    decide
  have haccounted := ((settle_accounted repeated).1 _ (congrArg Logged.value hrepeated)).1
  obtain ⟨before, -, -, -, settled, -, -, -, -, -, hbefore, hevents, -⟩ :=
    (settle_accounted crossing).2.1 _ _ (congrArg Logged.value hcrossing)
  have hinverted : (settle inverted).value = .error (.inverted ⟨3, 2⟩) := rfl
  have hsilent := (settle_accounted inverted).2.2.1 _ hinverted
  exact ⟨congrArg Logged.value hrepeated, hnested, haccounted, congrArg Logged.events hrepeated,
    congrArg Logged.value hcrossing, congrArg Logged.events hcrossing,
    ⟨before, settled, hbefore, hevents⟩, hinverted, hsilent⟩

end Scriptorium.Batch
