import Mathlib.Algebra.Ring.Int.Defs
import Scriptorium.Proofs.Batch.Undo

/-!
# Edits made all at once

A batch is applied edit by edit from the end, so most replacements meet a text that is no longer the
base text. The result is the same as if all edits were made at once: what lies between their spans
is copied from the base text, and each span gives way to the text of its edit. Written as hunks,
both are the list of the kept and the new parts.
-/

namespace Scriptorium.Batch

/-- The base text from an offset on, in which the edits behind that offset are made at once. -/
def weave (base : String) (start : Nat) : List Edit → String
  | [] => Text.part base start (Text.size base)
  | edit :: rest =>
      Text.part base start edit.span.start ++ edit.text ++ weave base edit.span.stop rest

/-- Makes settled edits at once, or names the first of them that does not fit. -/
def simultaneous (base : String) (settled : List Edit) : Except Error String :=
  match settled.find? fun edit => ¬ Text.Fits base edit.span with
  | some edit => .error (.misplaced edit.span (Text.size base))
  | none => .ok (weave base 0 settled)

theorem check_eq_find? (base : String) (edits : List Edit) :
    check base edits =
      match edits.find? fun edit => ¬ Text.Fits base edit.span with
      | some edit => .error (.misplaced edit.span (Text.size base))
      | none => .ok () := by
  induction edits with
  | nil => rfl
  | cons edit rest ih =>
      rw [check]
      by_cases hfits : Text.Fits base edit.span
      · rw [Text.check_eq_ok_iff.2 hfits, List.find?_cons_of_neg (by simpa using hfits), ← ih]
        rfl
      · rw [List.find?_cons_of_pos (by simpa using hfits), Text.check, if_neg hfits]
        rfl

namespace Hunk

theorem weave_edits (front rest : String) (hunks : List Hunk) :
    weave (front ++ text rest hunks) (Text.size front) (edits front hunks) =
      text rest (hunks.map swap) := by
  induction hunks generalizing front with
  | nil =>
      have hrest := Text.slice_middle front rest ""
      rwa [String.append_empty] at hrest
  | cons hunk hunks ih =>
      have hkept := Text.slice_middle front hunk.kept (hunk.old ++ text rest hunks)
      have hbehind := ih (front ++ hunk.kept ++ hunk.old)
      rw [← append_text_cons] at hbehind
      rw [← String.append_assoc, ← append_text_cons] at hkept
      rw [edits, weave, List.map_cons, text]
      exact congr (congrArg _ (congrArg (· ++ hunk.new) hkept)) hbehind

theorem size_text_swap (front rest : String) (hunks : List Hunk) :
    (Text.size (text rest (hunks.map swap)) : Int) =
      Text.size (text rest hunks) + ((edits front hunks).map Edit.growth).sum := by
  induction hunks generalizing front with
  | nil => simp [text, edits]
  | cons hunk hunks ih =>
      have hbehind := ih (front ++ hunk.kept ++ hunk.old)
      simp only [List.map_cons, text, edits, List.sum_cons, swap, Edit.growth, Text.middleSpan,
        Span.length_mk, Text.size_append] at hbehind ⊢
      omega

end Hunk

/-- Applying a batch fails as settling it does, and otherwise makes the settled edits at once or
names the first of them that does not fit. If all of them fit, the text grows by what each edit
adds, and every replacement on the way finds its span in the text as it then stands. -/
theorem apply_simultaneously (base : String) (edits : List Edit) :
    (apply base edits).value = (settle edits).value.bind (simultaneous base) ∧
      ∀ settled, (settle edits).value = .ok settled →
        (∀ edit ∈ settled, Text.Fits base edit.span) →
        (Text.size (weave base 0 settled) : Int) =
            Text.size base + (settled.map Edit.growth).sum ∧
          Replaceable base settled := by
  -- both claims are about the hunks of a batch that fits
  have hhunks : ∀ settled, (settle edits).value = .ok settled →
      (∀ edit ∈ settled, Text.Fits base edit.span) →
      ∃ hunks rest, base = Hunk.text rest hunks ∧ settled = Hunk.edits "" hunks ∧
        weave base 0 settled = Hunk.text rest (hunks.map Hunk.swap) := by
    intro settled hsettle hfits
    obtain ⟨hunks, rest, rfl, rfl⟩ := Hunk.exists_hunks_of_settle hsettle hfits
    have hweave := Hunk.weave_edits "" rest hunks
    rw [String.empty_append] at hweave
    exact ⟨hunks, rest, rfl, rfl, hweave⟩
  constructor
  · cases hsettle : (settle edits).value with
    | error cause => exact (value_eq_error_of_settle hsettle).1
    | ok settled =>
        have hcheck := check_eq_find? base settled
        rw [value_apply_of_settle hsettle, Except.bind, simultaneous]
        cases hfind : settled.find? fun edit => ¬ Text.Fits base edit.span with
        | some edit =>
            rw [hfind] at hcheck
            rw [hcheck]
            rfl
        | none =>
            rw [hfind] at hcheck
            obtain ⟨hunks, rest, rfl, rfl, hweave⟩ :=
              hhunks settled hsettle (check_batch_eq_ok_iff.1 hcheck)
            have hsplices := Hunk.splices_edits "" rest hunks
            simp only [String.empty_append] at hsplices
            rw [hcheck, hweave, ← hsplices]
            rfl
  · intro settled hsettle hfits
    obtain ⟨hunks, rest, rfl, rfl, hweave⟩ := hhunks settled hsettle hfits
    have hreplaceable := Hunk.replaceable_edits "" rest hunks
    rw [String.empty_append] at hreplaceable
    rw [hweave]
    exact ⟨Hunk.size_text_swap "" rest hunks, hreplaceable⟩

/-- Two insertions and a replacement at one offset come out in the order in which they were
proposed. -/
example : (apply "añb" [⟨⟨1, 1⟩, "x"⟩, ⟨⟨1, 1⟩, "y"⟩, ⟨⟨1, 3⟩, "n"⟩]).value = .ok "axynb" := by
  cbv

end Scriptorium.Batch
