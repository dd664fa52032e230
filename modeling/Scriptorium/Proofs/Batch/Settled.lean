import Scriptorium.Batch

/-!
# Settled batches

To settle a batch gives edits that stand in order and leave each other alone. Edits that already do
are settled to themselves, and nothing is reported about them.
-/

namespace Scriptorium.Batch

/-- No edit is inverted, and each starts where or after every edit before it ends. -/
structure Settled (edits : List Edit) : Prop where
  upright : ∀ edit ∈ edits, edit.span.start ≤ edit.span.stop
  apart : edits.Pairwise fun a b => a.span.stop ≤ b.span.start

variable {edits settled rest : List Edit} {kept edit : Edit}

theorem settled_nil : Settled [] :=
  ⟨by simp, .nil⟩

theorem settled_cons : Settled (edit :: rest) ↔
    edit.span.start ≤ edit.span.stop ∧
      (∀ other ∈ rest, edit.span.stop ≤ other.span.start) ∧ Settled rest := by
  constructor
  · intro h
    have hupright := List.forall_mem_cons.1 h.upright
    have hapart := List.pairwise_cons.1 h.apart
    exact ⟨hupright.1, hapart.1, hupright.2, hapart.2⟩
  · rintro ⟨hedit, hbehind, hrest⟩
    exact ⟨List.forall_mem_cons.2 ⟨hedit, hrest.upright⟩,
      List.pairwise_cons.2 ⟨hbehind, hrest.apart⟩⟩

/-- By how much the first edits of a batch move what stands behind them. -/
def shift : List Edit → Nat → Int
  | [], _ => 0
  | _ :: _, 0 => 0
  | edit :: rest, i + 1 => edit.growth + shift rest i

/-- What the edits before a place take away lies before that place, so they cannot move it in front
of where the first of them starts. -/
theorem Settled.le_start_add_shift (h : Settled edits) {low i : Nat}
    (hlow : ∀ edit ∈ edits, low ≤ edit.span.start) (hedit : edits[i]? = some edit) :
    (low : Int) ≤ edit.span.start + shift edits i := by
  induction edits generalizing low i with
  | nil => simp at hedit
  | cons first rest ih =>
      obtain ⟨hupright, hbehind, hrest⟩ := settled_cons.1 h
      have hfirst := hlow first List.mem_cons_self
      cases i with
      | zero =>
          obtain rfl : first = edit := Option.some.inj hedit
          simpa [shift] using hfirst
      | succ i =>
          have hgrowth : -(first.span.stop - first.span.start : Int) ≤ first.growth := by
            simp only [Edit.growth, Span.length]
            omega
          have hstart := ih hrest hbehind hedit
          rw [shift]
          omega

/-! ### A settled batch is kept -/

theorem settleAfter_of_settled (h : Settled edits)
    (hkept : ∀ edit ∈ edits, kept.span.stop ≤ edit.span.start) :
    settleAfter kept edits = .silent (.ok edits) := by
  induction edits generalizing kept with
  | nil => rfl
  | cons edit rest ih =>
      obtain ⟨-, hbehind, hrest⟩ := settled_cons.1 h
      rw [settleAfter, if_pos (hkept edit List.mem_cons_self), ih hrest hbehind]
      rfl

theorem settleSorted_of_settled (h : Settled edits) :
    settleSorted edits = .silent (.ok edits) := by
  cases edits with
  | nil => rfl
  | cons edit rest =>
      obtain ⟨-, hbehind, hrest⟩ := settled_cons.1 h
      rw [settleSorted, settleAfter_of_settled hrest hbehind]
      rfl

theorem find?_isInverted_eq_none_iff :
    edits.find? Edit.isInverted = none ↔ ∀ edit ∈ edits, edit.span.start ≤ edit.span.stop := by
  simp [Edit.isInverted]

theorem settle_of_upright (h : ∀ edit ∈ edits, edit.span.start ≤ edit.span.stop) :
    settle edits = settleSorted (sorted edits) := by
  rw [settle, find?_isInverted_eq_none_iff.2 h]

theorem settle_of_settled (h : Settled edits) : settle edits = .silent (.ok edits) := by
  -- a start is at most the end of its own span, and so at most every later start
  have hsorted : edits.Pairwise fun a b => a.span.start ≤ b.span.start := by
    refine h.apart.imp_of_mem fun ha _ hab => ?_
    exact Nat.le_trans (h.upright _ ha) hab
  rw [settle_of_upright h.upright, sorted_eq_self hsorted, settleSorted_of_settled h]

/-! ### What comes out is settled -/

theorem value_settleAfter_cons (kept edit : Edit) (rest : List Edit) :
    (settleAfter kept (edit :: rest)).value =
      if kept.span.stop ≤ edit.span.start then
        (settleAfter edit rest).value.map (edit :: ·)
      else if kept.span.Contains edit.span then
        (settleAfter kept rest).value
      else
        .error (.conflict kept.span edit.span) := by
  rw [settleAfter]
  split
  · rfl
  · split <;> rfl

theorem exists_of_map_cons_eq_ok {result : Except Error (List Edit)}
    (h : result.map (edit :: ·) = .ok settled) :
    ∃ others, result = .ok others ∧ settled = edit :: others := by
  cases result with
  | error cause => simp [Except.map] at h
  | ok others =>
      simp only [Except.map, Except.ok.injEq] at h
      exact ⟨others, rfl, h.symm⟩

theorem settled_of_settleAfter (hupright : ∀ edit ∈ edits, edit.span.start ≤ edit.span.stop)
    (h : (settleAfter kept edits).value = .ok settled) :
    Settled settled ∧ ∀ edit ∈ settled, kept.span.stop ≤ edit.span.start := by
  induction edits generalizing kept settled with
  | nil =>
      obtain rfl : [] = settled := by simpa [settleAfter] using h
      exact ⟨settled_nil, by simp⟩
  | cons edit rest ih =>
      obtain ⟨hedit, hrest⟩ := List.forall_mem_cons.1 hupright
      rw [value_settleAfter_cons] at h
      split at h
      · next hbehind =>
          obtain ⟨others, hothers, rfl⟩ := exists_of_map_cons_eq_ok h
          obtain ⟨hsettled, hapart⟩ := ih hrest hothers
          refine ⟨settled_cons.2 ⟨hedit, hapart, hsettled⟩, ?_⟩
          intro other hother
          rcases List.mem_cons.1 hother with rfl | hother
          · exact hbehind
          · have := hapart other hother
            omega
      · split at h
        · exact ih hrest h
        · cases h

theorem settled_of_settle (h : (settle edits).value = .ok settled) : Settled settled := by
  rw [settle] at h
  split at h
  · cases h
  · next hfind =>
      have hupright : ∀ edit ∈ sorted edits, edit.span.start ≤ edit.span.stop := by
        intro edit hedit
        exact find?_isInverted_eq_none_iff.1 hfind edit ((sorted_perm edits).mem_iff.1 hedit)
      cases hlist : sorted edits with
      | nil =>
          rw [hlist] at h
          obtain rfl : [] = settled := by simpa [settleSorted] using h
          exact settled_nil
      | cons edit rest =>
          rw [hlist] at h hupright
          obtain ⟨hedit, hrest⟩ := List.forall_mem_cons.1 hupright
          obtain ⟨others, hothers, rfl⟩ := exists_of_map_cons_eq_ok h
          obtain ⟨hsettled, hapart⟩ := settled_of_settleAfter hrest hothers
          exact settled_cons.2 ⟨hedit, hapart, hsettled⟩

/-! ### What is done with a settled batch -/

theorem value_apply_of_settle {base : String} (h : (settle edits).value = .ok settled) :
    (apply base edits).value = (check base settled).map fun _ => splices base settled := by
  rw [apply, Logged.map_value, h]
  change (check base settled >>= fun _ => .ok (splices base settled)) = _
  cases check base settled <;> rfl

theorem value_invert_of_settle {base : String} (h : (settle edits).value = .ok settled) :
    (invert base edits).value = inverses base 0 settled := by
  rw [invert, Logged.map_value, h]
  rfl

theorem check_batch_eq_ok_iff {base : String} :
    check base edits = .ok () ↔ ∀ edit ∈ edits, Text.Fits base edit.span := by
  induction edits with
  | nil => simp [check]
  | cons edit rest ih =>
      rw [List.forall_mem_cons, ← ih, check]
      by_cases hfits : Text.Fits base edit.span
      · rw [Text.check_eq_ok_iff.2 hfits]
        simp [hfits, bind, Except.bind]
      · simp [hfits, Text.check, bind, Except.bind]

/-- Inverting a batch looks at the same spans, in the same order, as applying it does. -/
theorem map_inverses (base : String) (shift : Int) (edits : List Edit) :
    (inverses base shift edits).map (fun _ => ()) = check base edits := by
  induction edits generalizing shift with
  | nil => rfl
  | cons edit rest ih =>
      rw [inverses, check]
      cases Text.check base edit.span with
      | error cause => rfl
      | ok value =>
          have hrest := ih (shift + edit.growth)
          simp only [bind, Except.bind]
          rw [← hrest]
          cases inverses base (shift + edit.growth) rest <;> rfl

end Scriptorium.Batch
