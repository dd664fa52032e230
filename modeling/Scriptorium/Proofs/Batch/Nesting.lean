import Scriptorium.Proofs.Batch.Settled

/-!
# Which edits are dropped and which collide

Whether an edit is dropped or collides is a matter of all edits listed before it. It is nested if
any of them, kept or not, covers it, and it collides if it reaches out of one of them that is not
nested itself. To settle a batch looks only at the last edit kept. That is enough because this edit
ends last of all so far, and all others that were kept end before it starts.
-/

namespace Scriptorium.Batch

variable {edits list before front behind rest : List Edit} {edit kept other : Edit}

/-! ### The stable order -/

/-- Edits with one start stay in the order in which they were proposed. -/
theorem filter_sorted (edits : List Edit) (start : Nat) :
    (sorted edits).filter (·.span.start = start) = edits.filter (·.span.start = start) := by
  have htied : (edits.filter (·.span.start = start)).Pairwise fun a b =>
      decide (a.span.start ≤ b.span.start) = true := by
    refine List.pairwise_of_forall_mem_list fun a ha b hb => ?_
    have ha_start := (List.mem_filter.1 ha).2
    have hb_start := (List.mem_filter.1 hb).2
    simp only [decide_eq_true_eq] at ha_start hb_start ⊢
    omega
  have hsublist : (edits.filter (·.span.start = start)).Sublist (sorted edits) := by
    apply List.sublist_mergeSort _ _ htied List.filter_sublist
    · intro a b c hab hbc
      simp only [decide_eq_true_eq] at hab hbc ⊢
      exact Nat.le_trans hab hbc
    · intro a b
      simpa using Nat.le_total a.span.start b.span.start
  have hfilter := hsublist.filter (·.span.start = start)
  simp only [List.filter_filter, Bool.and_self] at hfilter
  exact (hfilter.eq_of_length ((sorted_perm edits).filter _).length_eq.symm).symm

/-! ### Nested edits -/

/-- One of the edits before an edit reaches beyond its start and at least to its end. -/
def Nested (before : List Edit) (edit : Edit) : Prop :=
  ∃ other ∈ before, edit.span.start < other.span.stop ∧ edit.span.stop ≤ other.span.stop

instance (before : List Edit) (edit : Edit) : Decidable (Nested before edit) :=
  inferInstanceAs (Decidable (∃ other ∈ before, _))

/-- The edits of a list that are not nested, where others stand before the list. -/
def unnestedAfter (before : List Edit) : List Edit → List Edit
  | [] => []
  | edit :: rest =>
      if Nested before edit then unnestedAfter (before ++ [edit]) rest
      else edit :: unnestedAfter (before ++ [edit]) rest

/-- The edits of a list that no edit before them covers, kept or not. -/
def unnested (edits : List Edit) : List Edit :=
  unnestedAfter [] edits

/-- An edit reaches out of one before it that is not nested. -/
def Crosses (before : List Edit) (edit : Edit) : Prop :=
  ∃ front other between, before = front ++ other :: between ∧ ¬ Nested front other ∧
    edit.span.start < other.span.stop ∧ other.span.stop < edit.span.stop

/-- No edit of a list crosses those before it. -/
def CrossFree (list : List Edit) : Prop :=
  ∀ before edit behind, list = before ++ edit :: behind → ¬ Crosses before edit

theorem unnestedAfter_append (before first second : List Edit) :
    unnestedAfter before (first ++ second) =
      unnestedAfter before first ++ unnestedAfter (before ++ first) second := by
  induction first generalizing before with
  | nil => simp [unnestedAfter]
  | cons edit rest ih =>
      rw [List.cons_append, unnestedAfter, unnestedAfter, ih, List.append_assoc,
        List.singleton_append]
      split
      · rfl
      · rw [List.cons_append]

theorem unnested_concat (before : List Edit) (edit : Edit) :
    unnested (before ++ [edit]) =
      if Nested before edit then unnested before else unnested before ++ [edit] := by
  rw [unnested, unnestedAfter_append, List.nil_append, unnestedAfter, unnestedAfter]
  split
  · rw [List.append_nil, unnested]
  · rw [unnested]

theorem unnested_singleton (edit : Edit) : unnested [edit] = [edit] := by
  simp [unnested, unnestedAfter, Nested]

theorem unnestedAfter_sublist (before list : List Edit) :
    (unnestedAfter before list).Sublist list := by
  induction list generalizing before with
  | nil => exact .slnil
  | cons edit rest ih =>
      rw [unnestedAfter]
      split
      · exact (ih _).cons edit
      · exact (ih _).cons_cons edit

theorem mem_unnestedAfter_iff :
    edit ∈ unnestedAfter before list ↔
      ∃ front behind, list = front ++ edit :: behind ∧ ¬ Nested (before ++ front) edit := by
  induction list generalizing before with
  | nil => simp [unnestedAfter]
  | cons first rest ih =>
      have hstep : (∃ front behind, first :: rest = front ++ edit :: behind ∧
            ¬ Nested (before ++ front) edit) ↔
          (edit = first ∧ ¬ Nested before first) ∨
            edit ∈ unnestedAfter (before ++ [first]) rest := by
        rw [ih]
        constructor
        · rintro ⟨front, behind, hsplit, hnot⟩
          cases front with
          | nil =>
              obtain ⟨rfl, rfl⟩ := List.cons.inj hsplit
              rw [List.append_nil] at hnot
              exact .inl ⟨rfl, hnot⟩
          | cons head front =>
              obtain ⟨rfl, rfl⟩ := List.cons.inj hsplit
              exact .inr ⟨front, behind, rfl, by rwa [List.append_assoc]⟩
        · rintro (⟨rfl, hnot⟩ | ⟨front, behind, rfl, hnot⟩)
          · exact ⟨[], rest, rfl, by rwa [List.append_nil]⟩
          · exact ⟨first :: front, behind, rfl, by rwa [List.append_assoc] at hnot⟩
      rw [hstep, unnestedAfter]
      split
      · next hnested => simp [hnested]
      · next hnested => simp [hnested]

theorem mem_unnested_iff :
    edit ∈ unnested list ↔ ∃ front behind, list = front ++ edit :: behind ∧ ¬ Nested front edit :=
  mem_unnestedAfter_iff

theorem crosses_iff :
    Crosses before edit ↔
      ∃ other ∈ unnested before,
        edit.span.start < other.span.stop ∧ other.span.stop < edit.span.stop := by
  simp only [mem_unnested_iff]
  constructor
  · rintro ⟨front, other, between, hsplit, hnot, hcross⟩
    exact ⟨other, ⟨front, between, hsplit, hnot⟩, hcross⟩
  · rintro ⟨other, ⟨front, between, hsplit, hnot⟩, hcross⟩
    exact ⟨front, other, between, hsplit, hnot, hcross⟩

theorem crossFree_nil : CrossFree [] := by
  intro before edit behind hsplit
  simp at hsplit

theorem CrossFree.concat (h : CrossFree before) (hedit : ¬ Crosses before edit) :
    CrossFree (before ++ [edit]) := by
  intro front other behind hsplit
  rcases List.eq_nil_or_concat behind with rfl | ⟨inner, last, rfl⟩
  · obtain ⟨rfl, hlast⟩ := List.append_inj' hsplit rfl
    rwa [← (List.cons.inj hlast).1]
  · rw [List.concat_eq_append, ← List.cons_append, ← List.append_assoc] at hsplit
    exact h front other inner (List.append_inj' hsplit rfl).1

/-! ### The last edit kept -/

/-- An edit is the last one kept among those listed so far. It ends where or after they all end, and
starts where or after the others that were kept end. -/
structure LastKept (before : List Edit) (kept : Edit) : Prop where
  getLast_eq : (unnested before).getLast? = some kept
  stop_le : ∀ other ∈ before, other.span.stop ≤ kept.span.stop
  le_start : ∀ other ∈ unnested before, other = kept ∨ other.span.stop ≤ kept.span.start

theorem lastKept_singleton (edit : Edit) : LastKept [edit] edit := by
  refine ⟨?_, ?_, ?_⟩
  · rw [unnested_singleton]
    rfl
  · intro other hother
    obtain rfl := List.mem_singleton.1 hother
    exact Nat.le_refl _
  · intro other hother
    rw [unnested_singleton] at hother
    exact .inl (List.mem_singleton.1 hother)

namespace LastKept

theorem mem_unnested (h : LastKept before kept) : kept ∈ unnested before :=
  List.mem_of_getLast? h.getLast_eq

theorem mem (h : LastKept before kept) : kept ∈ before :=
  (unnestedAfter_sublist [] before).subset h.mem_unnested

theorem nested_iff (h : LastKept before kept) :
    Nested before edit ↔
      edit.span.start < kept.span.stop ∧ edit.span.stop ≤ kept.span.stop := by
  constructor
  · rintro ⟨other, hother, hstart, hstop⟩
    have := h.stop_le other hother
    omega
  · intro hcovers
    exact ⟨kept, h.mem, hcovers⟩

theorem crosses_iff (h : LastKept before kept) (hstart : kept.span.start ≤ edit.span.start) :
    Crosses before edit ↔
      edit.span.start < kept.span.stop ∧ kept.span.stop < edit.span.stop := by
  rw [Batch.crosses_iff]
  constructor
  · rintro ⟨other, hother, hcross⟩
    rcases h.le_start other hother with rfl | hbefore
    · exact hcross
    · omega
  · intro hcross
    exact ⟨kept, h.mem_unnested, hcross⟩

theorem keep (h : LastKept before kept) (hbehind : kept.span.stop ≤ edit.span.start)
    (hupright : edit.span.start ≤ edit.span.stop) :
    LastKept (before ++ [edit]) edit ∧ unnested (before ++ [edit]) = unnested before ++ [edit] := by
  have hnested : ¬ Nested before edit := by
    rw [h.nested_iff]
    omega
  have hunnested : unnested (before ++ [edit]) = unnested before ++ [edit] := by
    rw [unnested_concat, if_neg hnested]
  refine ⟨⟨?_, ?_, ?_⟩, hunnested⟩
  · rw [hunnested, List.getLast?_concat]
  · intro other hother
    rcases List.mem_append.1 hother with hother | hother
    · have := h.stop_le other hother
      omega
    · obtain rfl := List.mem_singleton.1 hother
      exact Nat.le_refl _
  · intro other hother
    rw [hunnested] at hother
    rcases List.mem_append.1 hother with hother | hother
    · have := h.stop_le other ((unnestedAfter_sublist [] before).subset hother)
      exact .inr (by omega)
    · exact .inl (List.mem_singleton.1 hother)

theorem drop (h : LastKept before kept) (hnested : Nested before edit) :
    LastKept (before ++ [edit]) kept ∧ unnested (before ++ [edit]) = unnested before := by
  have hunnested : unnested (before ++ [edit]) = unnested before := by
    rw [unnested_concat, if_pos hnested]
  refine ⟨⟨?_, ?_, ?_⟩, hunnested⟩
  · rw [hunnested, h.getLast_eq]
  · intro other hother
    rcases List.mem_append.1 hother with hother | hother
    · exact h.stop_le other hother
    · rw [List.mem_singleton.1 hother]
      exact (h.nested_iff.1 hnested).2
  · rw [hunnested]
    exact h.le_start

end LastKept

/-! ### What a batch is settled to -/

/-- What a list of edits is settled to: the edits that are not nested, or the first edit that
crosses and the last one kept before it. -/
inductive Ruling (list : List Edit) : Except Error (List Edit) → Prop where
  | settled (hfree : CrossFree list) : Ruling list (.ok (unnested list))
  | conflict {before behind : List Edit} {kept edit : Edit}
      (hsplit : list = before ++ edit :: behind)
      (hfree : CrossFree before) (hkept : LastKept before kept)
      (hstart : kept.span.start ≤ edit.span.start) (hcross : Crosses before edit) :
      Ruling list (.error (.conflict kept.span edit.span))

theorem map_append_map_cons (result : Except Error (List Edit)) (front : List Edit) (edit : Edit) :
    (result.map (edit :: ·)).map (front ++ ·) = result.map (front ++ [edit] ++ ·) := by
  cases result with
  | error cause => rfl
  | ok others => simp [Except.map]

theorem ruling_settleAfter (hkept : LastKept before kept) (hfree : CrossFree before)
    (hsorted : (kept :: rest).Pairwise fun a b => a.span.start ≤ b.span.start)
    (hupright : ∀ edit ∈ rest, edit.span.start ≤ edit.span.stop) :
    Ruling (before ++ rest) ((settleAfter kept rest).value.map (unnested before ++ ·)) := by
  -- one edit after another moves from the rest to those before, which have a last one kept
  induction rest generalizing before kept with
  | nil =>
      rw [List.append_nil, settleAfter, Logged.silent_value, Except.map, List.append_nil]
      exact .settled hfree
  | cons edit rest ih =>
      obtain ⟨hfirst, hrest⟩ := List.pairwise_cons.1 hsorted
      obtain ⟨hedit, hothers⟩ := List.forall_mem_cons.1 hupright
      have hstart := hfirst edit List.mem_cons_self
      rw [value_settleAfter_cons]
      split
      · next hbehind =>
          have hnot : ¬ Crosses before edit := by
            rw [hkept.crosses_iff hstart]
            omega
          obtain ⟨hkept', hunnested⟩ := hkept.keep hbehind hedit
          have hruling := ih hkept' (hfree.concat hnot) hrest hothers
          rwa [hunnested, List.append_assoc, List.singleton_append,
            ← map_append_map_cons] at hruling
      · next hbefore =>
          split
          · next hcontains =>
              have hnested : Nested before edit := hkept.nested_iff.2 ⟨by omega, hcontains.2⟩
              have hnot : ¬ Crosses before edit := by
                rw [hkept.crosses_iff hstart]
                have := hcontains.2
                omega
              obtain ⟨hkept', hunnested⟩ := hkept.drop hnested
              have hsorted' := hsorted.sublist ((List.sublist_cons_self edit rest).cons_cons kept)
              have hruling := ih hkept' (hfree.concat hnot) hsorted' hothers
              rwa [hunnested, List.append_assoc, List.singleton_append] at hruling
          · next hnot =>
              have hstop : kept.span.stop < edit.span.stop := by
                apply Nat.lt_of_not_le
                intro hle
                exact hnot ⟨hstart, hle⟩
              have hcross := (hkept.crosses_iff hstart).2 ⟨Nat.lt_of_not_le hbefore, hstop⟩
              exact .conflict rfl hfree hkept hstart hcross

theorem ruling_settleSorted (hsorted : list.Pairwise fun a b => a.span.start ≤ b.span.start)
    (hupright : ∀ edit ∈ list, edit.span.start ≤ edit.span.stop) :
    Ruling list (settleSorted list).value := by
  cases list with
  | nil => exact .settled crossFree_nil
  | cons edit rest =>
      have hnot : ¬ Crosses [] edit := by
        rintro ⟨front, other, between, hsplit, -⟩
        simp at hsplit
      have hkept := lastKept_singleton edit
      have hrest := (List.forall_mem_cons.1 hupright).2
      have hruling := ruling_settleAfter hkept (crossFree_nil.concat hnot) hsorted hrest
      rwa [unnested_singleton] at hruling

/-- The ruling of a batch in which no edit is inverted is that of its list by start. -/
theorem ruling_settle (hupright : ∀ edit ∈ edits, edit.span.start ≤ edit.span.stop) :
    Ruling (sorted edits) (settle edits).value := by
  rw [settle_of_upright hupright]
  apply ruling_settleSorted (pairwise_sorted edits)
  intro edit hedit
  exact hupright edit ((sorted_perm edits).mem_iff.1 hedit)

theorem Ruling.eq_ok {result : Except Error (List Edit)} (h : Ruling list result)
    (hfree : CrossFree list) : result = .ok (unnested list) := by
  cases h with
  | settled hfree' => rfl
  | conflict hsplit hfree' hkept hstart hcross => exact absurd hcross (hfree _ _ _ hsplit)

/-- A batch with an inverted edit is refused for the first of them. Otherwise it is listed by start,
edits with one start in their given order. If an edit of the list reaches out of one before it that
is not nested, the first such edit collides with the last one kept, and if there is none, what is
kept is all edits that are not nested, each of them behind all that are kept before it. -/
theorem settle_exact (edits : List Edit) :
    ((sorted edits).Pairwise fun a b => a.span.start ≤ b.span.start) ∧
    (∀ start, (sorted edits).filter (·.span.start = start) =
      edits.filter (·.span.start = start)) ∧
    (∀ before edit behind, edits = before ++ edit :: behind →
      (∀ other ∈ before, other.span.start ≤ other.span.stop) →
      edit.span.stop < edit.span.start → (settle edits).value = .error (.inverted edit.span)) ∧
    ((∀ edit ∈ edits, edit.span.start ≤ edit.span.stop) →
      ((∃ first second, (settle edits).value = .error (.conflict first second)) ↔
        ∃ before edit behind, sorted edits = before ++ edit :: behind ∧ Crosses before edit) ∧
      (∀ first second, (settle edits).value = .error (.conflict first second) →
        ∃ before kept edit behind, sorted edits = before ++ edit :: behind ∧
          CrossFree before ∧ Crosses before edit ∧
          (settle before).value = .ok (unnested before) ∧
          (unnested before).getLast? = some kept ∧
          kept ∈ edits ∧ edit ∈ edits ∧ first = kept.span ∧ second = edit.span ∧
          first.start ≤ second.start ∧ second.start < first.stop ∧ first.stop < second.stop) ∧
      (CrossFree (sorted edits) →
        (settle edits).value = .ok (unnested (sorted edits)) ∧
          (unnested (sorted edits)).Sublist (sorted edits) ∧
          (unnested (sorted edits)).Pairwise fun a b => a.span.stop ≤ b.span.start)) := by
  refine ⟨pairwise_sorted edits, filter_sorted edits, ?_, fun hupright => ⟨⟨?_, ?_⟩, ?_, ?_⟩⟩
  · rintro before edit behind rfl hbefore hinverted
    have hnone := find?_isInverted_eq_none_iff.2 hbefore
    have hfind : (before ++ edit :: behind).find? Edit.isInverted = some edit := by
      rw [List.find?_append, hnone, Option.none_or, List.find?_cons_of_pos]
      simpa [Edit.isInverted] using hinverted
    rw [settle, hfind]
    rfl
  · rintro ⟨first, second, hresult⟩
    cases hresult ▸ ruling_settle hupright with
    | conflict hsplit hfree hkept hstart hcross => exact ⟨_, _, _, hsplit, hcross⟩
  · rintro ⟨before, edit, behind, hsplit, hcross⟩
    have hruling := ruling_settle hupright
    generalize (settle edits).value = result at hruling
    cases hruling with
    | settled hfree => exact absurd hcross (hfree _ _ _ hsplit)
    | conflict hsplit' hfree hkept hstart hcross' => exact ⟨_, _, rfl⟩
  · intro first second hresult
    cases hresult ▸ ruling_settle hupright with
    | @conflict before behind kept edit hsplit hfree hkept hstart hcross =>
      have hmem : ∀ other ∈ before, other ∈ edits := by
        intro other hother
        rw [← (sorted_perm edits).mem_iff, hsplit]
        exact List.mem_append_left _ hother
      have hedit : edit ∈ edits := by
        rw [← (sorted_perm edits).mem_iff, hsplit]
        exact List.mem_append_right _ List.mem_cons_self
      -- the edits before the collision are a batch of their own, which is settled
      have hsorted : sorted before = before := by
        apply sorted_eq_self
        have := pairwise_sorted edits
        rw [hsplit] at this
        exact (List.pairwise_append.1 this).1
      have hsettle := (ruling_settle fun other hother => hupright other (hmem other hother)).eq_ok
        (hsorted.symm ▸ hfree)
      rw [hsorted] at hsettle
      obtain ⟨hstop, hstop'⟩ := (hkept.crosses_iff hstart).1 hcross
      exact ⟨before, kept, edit, behind, hsplit, hfree, hcross, hsettle, hkept.getLast_eq,
        hmem kept hkept.mem, hedit, rfl, rfl, hstart, hstop, hstop'⟩
  · intro hfree
    have hsettle := (ruling_settle hupright).eq_ok hfree
    exact ⟨hsettle, unnestedAfter_sublist [] _, (settled_of_settle hsettle).apart⟩

/-- Two edits inside a third one overlap, but only the one that reaches out of the third collides. An
insertion in front of a replacement is kept, and one behind it is nested. -/
theorem settle_exact_overlap :
    let crossing : List Edit := [⟨⟨0, 9⟩, "a"⟩, ⟨⟨1, 4⟩, "b"⟩, ⟨⟨2, 6⟩, "c"⟩, ⟨⟨8, 12⟩, "d"⟩]
    let tied : List Edit := [.insert 1 "a", ⟨⟨1, 3⟩, "b"⟩, .insert 1 "c"]
    let inverted : List Edit := [⟨⟨0, 1⟩, "a"⟩, ⟨⟨3, 2⟩, "b"⟩, ⟨⟨9, 4⟩, "c"⟩]
    (settle crossing).value = .error (.conflict ⟨0, 9⟩ ⟨8, 12⟩) ∧
      (∃ before edit behind, sorted crossing = before ++ edit :: behind ∧ Crosses before edit) ∧
      unnested (sorted tied) = [.insert 1 "a", ⟨⟨1, 3⟩, "b"⟩] ∧
      (settle tied).value = .ok (unnested (sorted tied)) ∧
      (settle inverted).value = .error (.inverted ⟨3, 2⟩) := by
  intro crossing tied inverted
  have hlisted : sorted crossing = crossing := sorted_eq_self (by decide)
  have hlisted' : sorted tied = tied := sorted_eq_self (by decide)
  have hcrossing : (settle crossing).value = .error (.conflict ⟨0, 9⟩ ⟨8, 12⟩) := by
    change (settleSorted (sorted crossing)).value = _
    rw [hlisted]
    rfl
  have htied : (settle tied).value = .ok [.insert 1 "a", ⟨⟨1, 3⟩, "b"⟩] := by
    change (settleSorted (sorted tied)).value = _
    rw [hlisted']
    rfl
  obtain ⟨-, -, -, hupright⟩ := settle_exact crossing
  obtain ⟨hconflict, -, -⟩ := hupright (by decide)
  obtain ⟨-, -, -, hupright'⟩ := settle_exact tied
  obtain ⟨hconflict', -, hsettled⟩ := hupright' (by decide)
  have hfree : CrossFree (sorted tied) := by
    intro before edit behind hsplit hcross
    obtain ⟨first, second, hresult⟩ := hconflict'.2 ⟨before, edit, behind, hsplit, hcross⟩
    rw [htied] at hresult
    cases hresult
  have hkept : unnested (sorted tied) = [.insert 1 "a", ⟨⟨1, 3⟩, "b"⟩] := by
    rw [hlisted']
    decide
  have hfirst := (settle_exact inverted).2.2.1 [⟨⟨0, 1⟩, "a"⟩] ⟨⟨3, 2⟩, "b"⟩ _ rfl (by decide)
    (by decide)
  exact ⟨hcrossing, hconflict.1 ⟨_, _, hcrossing⟩, hkept, (hsettled hfree).1, hfirst⟩

end Scriptorium.Batch
