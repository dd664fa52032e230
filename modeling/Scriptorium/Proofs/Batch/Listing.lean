import Scriptorium.Proofs.Batch.Nesting

/-!
# How a batch is listed

A batch is settled from its list by start, and edits with one start stand there as they were
proposed. So the order of a batch counts only among edits with one start, apart from the search for
an inverted edit, which comes first and goes by the order proposed. A settled batch stands in the
order that settling gives it and has nothing to drop, so to settle it again changes nothing.
-/

namespace Scriptorium.Batch

variable {edits others list : List Edit} {edit other : Edit}

/-! ### Settling twice -/

/-- **A batch is settled to itself just if it is settled**: no edit is inverted, and each starts
where or after every edit before it ends. What a batch is settled to is such a batch, and stands for
the first one whatever is done with it. -/
theorem settle_idempotent (edits : List Edit) :
    ((settle edits).value = .ok edits ↔
      (∀ edit ∈ edits, edit.span.start ≤ edit.span.stop) ∧
        edits.Pairwise fun a b => a.span.stop ≤ b.span.start) ∧
    ∀ settled, (settle edits).value = .ok settled →
      settle settled = .silent (.ok settled) ∧
        ∀ base, (apply base edits).value = (apply base settled).value ∧
          (invert base edits).value = (invert base settled).value := by
  constructor
  · constructor
    · intro h
      have hsettled := settled_of_settle h
      exact ⟨hsettled.upright, hsettled.apart⟩
    · rintro ⟨hupright, hapart⟩
      rw [settle_of_settled ⟨hupright, hapart⟩]
      rfl
  · intro settled h
    have hagain := settle_of_settled (settled_of_settle h)
    have hvalue := congrArg Logged.value hagain
    refine ⟨hagain, fun base => ⟨?_, ?_⟩⟩
    · rw [value_apply_of_settle h, value_apply_of_settle hvalue]
    · rw [value_invert_of_settle h, value_invert_of_settle hvalue]

/-- Two insertions and a replacement with one start are kept as they stand, and what is settled to
them once is settled to them again. -/
theorem settle_idempotent_tied :
    let given : List Edit :=
      [⟨⟨4, 6⟩, "c"⟩, .insert 1 "x", .insert 1 "y", ⟨⟨1, 4⟩, "z"⟩, .insert 3 "w"]
    let settled : List Edit := [.insert 1 "x", .insert 1 "y", ⟨⟨1, 4⟩, "z"⟩, ⟨⟨4, 6⟩, "c"⟩]
    (settle given).value = .ok settled ∧ (settle settled).value = .ok settled ∧
      settle settled = .silent (.ok settled) ∧
      ∀ base, (apply base given).value = (apply base settled).value ∧
        (invert base given).value = (invert base settled).value := by
  intro given settled
  have hsorted : sorted given =
      [.insert 1 "x", .insert 1 "y", ⟨⟨1, 4⟩, "z"⟩, .insert 3 "w", ⟨⟨4, 6⟩, "c"⟩] := by
    simp [given, sorted, List.mergeSort, List.MergeSort.Internal.splitInTwo, Edit.insert]
  have hgiven : (settle given).value = .ok settled := by
    rw [settle_of_upright (by decide), hsorted]
    rfl
  have hsettled := (settle_idempotent settled).1.2 ⟨by decide, by decide⟩
  exact ⟨hgiven, hsettled, (settle_idempotent given).2 settled hgiven⟩

/-! ### The order in which edits are proposed -/

/-- Two lists propose the same edits, and those with one start in the same order. -/
structure Reordered (edits others : List Edit) : Prop where
  perm : edits.Perm others
  tied_eq : ∀ start,
    edits.filter (·.span.start = start) = others.filter (·.span.start = start)

theorem mem_iff_of_tied_eq
    (h : ∀ start, list.filter (·.span.start = start) = others.filter (·.span.start = start)) :
    edit ∈ list ↔ edit ∈ others := by
  have hmem := congrArg (edit ∈ ·) (h edit.span.start)
  simpa using hmem

theorem head_start_le (h : (edit :: list).Pairwise fun a b => a.span.start ≤ b.span.start)
    (hother : other ∈ edit :: list) : edit.span.start ≤ other.span.start := by
  rcases List.mem_cons.1 hother with rfl | hother
  · exact Nat.le_refl _
  · exact (List.pairwise_cons.1 h).1 other hother

/-- A list by start is determined by what it lists at each start. -/
theorem eq_of_tied_eq (hlist : list.Pairwise fun a b => a.span.start ≤ b.span.start)
    (hothers : others.Pairwise fun a b => a.span.start ≤ b.span.start)
    (htied : ∀ start, list.filter (·.span.start = start) = others.filter (·.span.start = start)) :
    list = others := by
  induction list generalizing others with
  | nil =>
      symm
      rw [List.eq_nil_iff_forall_not_mem]
      intro edit hedit
      exact List.not_mem_nil ((mem_iff_of_tied_eq htied).2 hedit)
  | cons edit rest ih =>
      have hedit := (mem_iff_of_tied_eq htied).1 List.mem_cons_self
      cases others with
      | nil => exact absurd hedit List.not_mem_nil
      | cons other behind =>
          have hother := (mem_iff_of_tied_eq htied).2 List.mem_cons_self
          -- each of the two first edits is in the other list too, so they have one start
          have hstart := Nat.le_antisymm (head_start_le hothers hedit) (head_start_le hlist hother)
          have hhead := htied edit.span.start
          rw [List.filter_cons_of_pos (by simp), List.filter_cons_of_pos (by simp [hstart])]
            at hhead
          obtain ⟨rfl, -⟩ := List.cons.inj hhead
          rw [ih hlist.of_cons hothers.of_cons fun start => ?_]
          have hboth := htied start
          rw [List.filter_cons, List.filter_cons] at hboth
          split at hboth
          · exact (List.cons.inj hboth).2
          · exact hboth

theorem Reordered.sorted_eq (h : Reordered edits others) : sorted edits = sorted others := by
  apply eq_of_tied_eq (pairwise_sorted edits) (pairwise_sorted others)
  intro start
  rw [filter_sorted, filter_sorted, h.tied_eq]

/-- A batch is refused for one of its inverted edits, whatever is asked of it. -/
structure RefusedFor (edits : List Edit) (edit : Edit) : Prop where
  mem : edit ∈ edits
  inverted : edit.span.stop < edit.span.start
  settle_eq : settle edits = .silent (.error (.inverted edit.span))
  apply_eq : ∀ base, apply base edits = .silent (.error (.inverted edit.span))
  invert_eq : ∀ base, invert base edits = .silent (.error (.inverted edit.span))

theorem exists_refusedFor (h : ∃ edit ∈ edits, edit.span.stop < edit.span.start) :
    ∃ edit, RefusedFor edits edit := by
  cases hfind : edits.find? Edit.isInverted with
  | none =>
      obtain ⟨edit, hedit, hinverted⟩ := h
      have := find?_isInverted_eq_none_iff.1 hfind edit hedit
      omega
  | some edit =>
      have hsettle : settle edits = .silent (.error (.inverted edit.span)) := by
        rw [settle, hfind]
      refine ⟨edit, List.mem_of_find?_eq_some hfind, ?_, hsettle, fun base => ?_, fun base => ?_⟩
      · simpa [Edit.isInverted] using List.find?_some hfind
      · rw [apply, hsettle]
        rfl
      · rw [invert, hsettle]
        rfl

/-- **The order of a batch matters only among edits with one start.** Two lists of the same edits
that agree on it are settled, applied and inverted alike, with the same text, the same inverse, the
same cause of refusal and the same events. If an edit is inverted, both are refused for one that is,
but it need not be the same one. -/
theorem answers_of_reordered (h : Reordered edits others) :
    ((∀ edit ∈ edits, edit.span.start ≤ edit.span.stop) →
      settle edits = settle others ∧
        ∀ base, apply base edits = apply base others ∧ invert base edits = invert base others) ∧
    ((∃ edit ∈ edits, edit.span.stop < edit.span.start) →
      (∃ edit, RefusedFor edits edit) ∧ ∃ edit, RefusedFor others edit) := by
  constructor
  · intro hupright
    have hupright' : ∀ edit ∈ others, edit.span.start ≤ edit.span.stop := by
      intro edit hedit
      exact hupright edit (h.perm.mem_iff.2 hedit)
    have hsettle : settle edits = settle others := by
      rw [settle_of_upright hupright, settle_of_upright hupright', h.sorted_eq]
    refine ⟨hsettle, fun base => ⟨?_, ?_⟩⟩
    · rw [apply, apply, hsettle]
    · rw [invert, invert, hsettle]
  · rintro ⟨edit, hedit, hinverted⟩
    exact ⟨exists_refusedFor ⟨edit, hedit, hinverted⟩,
      exists_refusedFor ⟨edit, h.perm.mem_iff.1 hedit, hinverted⟩⟩

/-- An insertion and a replacement with one start keep their order while another edit moves past
them. Two inverted edits are named by whichever is proposed first. -/
theorem answers_of_reordered_tied :
    let edits : List Edit := [⟨⟨4, 6⟩, "c"⟩, .insert 1 "x", ⟨⟨1, 4⟩, "z"⟩]
    let others : List Edit := [.insert 1 "x", ⟨⟨4, 6⟩, "c"⟩, ⟨⟨1, 4⟩, "z"⟩]
    let inverted : List Edit := [⟨⟨3, 2⟩, "a"⟩, ⟨⟨9, 4⟩, "b"⟩]
    Reordered edits others ∧ settle edits = settle others ∧
      (apply "abcdef" edits).value = .ok "axzc" ∧ apply "abcdef" edits = apply "abcdef" others ∧
      invert "abcdef" edits = invert "abcdef" others ∧
      (∃ edit, RefusedFor inverted edit) ∧ (∃ edit, RefusedFor inverted.reverse edit) ∧
      (settle inverted).value = .error (.inverted ⟨3, 2⟩) ∧
      (settle inverted.reverse).value = .error (.inverted ⟨9, 4⟩) := by
  intro edits others inverted
  have hreordered : Reordered edits others := by
    refine ⟨by decide, fun start => ?_⟩
    simp only [edits, others, Edit.insert, Span.point, List.filter_cons]
    by_cases hfour : 4 = start
    · simp [← hfour]
    · simp [hfour]
  have hreversed : Reordered inverted inverted.reverse := by
    refine ⟨by decide, fun start => ?_⟩
    simp only [inverted, List.reverse_cons, List.reverse_nil, List.nil_append,
      List.singleton_append, List.filter_cons]
    by_cases hthree : 3 = start
    · simp [← hthree]
    · simp [hthree]
  have hsorted : sorted edits = [.insert 1 "x", ⟨⟨1, 4⟩, "z"⟩, ⟨⟨4, 6⟩, "c"⟩] := by
    simp [edits, sorted, List.mergeSort, List.MergeSort.Internal.splitInTwo, Edit.insert]
  have hsettled : (settle edits).value = .ok [.insert 1 "x", ⟨⟨1, 4⟩, "z"⟩, ⟨⟨4, 6⟩, "c"⟩] := by
    rw [settle_of_upright (by decide), hsorted]
    rfl
  have happly : (apply "abcdef" edits).value = .ok "axzc" := by
    rw [value_apply_of_settle hsettled]
    rfl
  obtain ⟨hsettle, hanswers⟩ := (answers_of_reordered hreordered).1 (by decide)
  obtain ⟨hrefused, hrefused'⟩ := (answers_of_reordered hreversed).2 (by decide)
  exact ⟨hreordered, hsettle, happly, (hanswers _).1, (hanswers _).2, hrefused, hrefused', rfl, rfl⟩

end Scriptorium.Batch
