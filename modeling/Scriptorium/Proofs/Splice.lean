import Scriptorium.Change
import Scriptorium.Proofs.Text.Agreement

/-!
# Splices

The record of an edit says how long things were, not what they were. A splice is an edit with
everything it met: the whole text in front of it and the text it put in. Splices that follow each
other lead from one text to another, and what all of them leave alone is shared by the two ends.
-/

namespace Scriptorium

/-- An accepted edit, with the text it was applied to. -/
structure Splice where
  old : String
  span : Span
  inserted : String
deriving DecidableEq, Repr

namespace Splice

def Fits (splice : Splice) : Prop :=
  Text.Fits splice.old splice.span

def new (splice : Splice) : String :=
  Text.splice splice.old splice.span splice.inserted

/-- The number of bytes behind the replaced span. -/
def back (splice : Splice) : Nat :=
  Text.size splice.old - splice.span.stop

/-- The record that the edit leaves. -/
def record (splice : Splice) : Record :=
  ⟨Text.size splice.new, ⟨splice.span, Text.size splice.inserted⟩⟩

variable {splice : Splice}

theorem bytes_new (h : splice.Fits) :
    Text.bytes splice.new =
      Text.patch (Text.bytes splice.old) splice.span (Text.bytes splice.inserted) := by
  obtain ⟨-, -, hstart, hstop⟩ := h
  exact Text.bytes_splice hstart hstop splice.inserted

theorem size_new (h : splice.Fits) :
    Text.size splice.new = splice.span.start + Text.size splice.inserted + splice.back := by
  have hstop : splice.span.stop ≤ (Text.bytes splice.old).length := by
    simpa using h.2.1
  rw [← Text.length_bytes, bytes_new h, Text.length_patch h.1 hstop, Text.length_bytes,
    Text.length_bytes, back]

theorem newSpan_stop_le (h : splice.Fits) :
    splice.record.change.newSpan.stop ≤ splice.record.resultingSize := by
  have := size_new h
  simp only [record, Change.newSpan]
  omega

/-- The tail that a record gives is what lay behind the replaced span. -/
theorem resultingSize_sub_stop (h : splice.Fits) :
    splice.record.resultingSize - splice.record.change.newSpan.stop = splice.back := by
  have := size_new h
  simp only [record, Change.newSpan]
  omega

theorem growth_record (h : splice.Fits) :
    splice.record.change.growth = (Text.size splice.new : Int) - Text.size splice.old := by
  have hsize := size_new h
  obtain ⟨hspan, hstop, -, -⟩ := h
  simp only [record, Change.growth, Span.length, back] at hsize ⊢
  omega

/-- The front and the back of a splice fit beside each other into the text on either side. -/
theorem start_add_back_le (h : splice.Fits) :
    splice.span.start + splice.back ≤ Text.size splice.old := by
  obtain ⟨hspan, hstop, -, -⟩ := h
  simp only [back]
  omega

/-- Splices lead from one text to another when each meets, and fits, the text that the one before it
has left. -/
def Leads : String → List Splice → String → Prop
  | old, [], new => old = new
  | old, splice :: rest, new => splice.old = old ∧ splice.Fits ∧ Leads splice.new rest new

namespace Leads

variable {old new newer : String} {splices others : List Splice}

theorem append (h : Leads old splices new) (h' : Leads new others newer) :
    Leads old (splices ++ others) newer := by
  induction splices generalizing old with
  | nil => exact h ▸ h'
  | cons splice rest ih =>
      obtain ⟨hold, hfits, hrest⟩ := h
      exact ⟨hold, hfits, ih hrest⟩

theorem singleton (h : splice.Fits) : Leads splice.old [splice] splice.new :=
  ⟨rfl, h, rfl⟩

theorem exists_of_append (h : Leads old (splices ++ others) newer) :
    ∃ new, Leads old splices new ∧ Leads new others newer := by
  induction splices generalizing old with
  | nil => exact ⟨old, rfl, h⟩
  | cons splice rest ih =>
      obtain ⟨hold, hfits, hrest⟩ := h
      obtain ⟨new, hfirst, hsecond⟩ := ih hrest
      exact ⟨new, ⟨hold, hfits, hfirst⟩, hsecond⟩

theorem unique (h : Leads old splices new) (h' : Leads old splices newer) : new = newer := by
  induction splices generalizing old with
  | nil => exact Eq.trans (Eq.symm h) h'
  | cons splice rest ih =>
      obtain ⟨-, -, hrest⟩ := h
      obtain ⟨-, -, hrest'⟩ := h'
      exact ih hrest hrest'

theorem fits (h : Leads old splices new) : ∀ splice ∈ splices, splice.Fits := by
  induction splices generalizing old with
  | nil => simp
  | cons splice rest ih =>
      obtain ⟨-, hfits, hrest⟩ := h
      exact List.forall_mem_cons.2 ⟨hfits, ih hrest⟩

theorem getLast_new {last : Splice} (h : Leads old splices new)
    (hlast : splices.getLast? = some last) : last.new = new := by
  induction splices generalizing old with
  | nil => simp at hlast
  | cons splice rest ih =>
      obtain ⟨-, -, hrest⟩ := h
      cases rest with
      | nil =>
          rw [List.getLast?_singleton] at hlast
          rw [← Option.some.inj hlast]
          exact hrest
      | cons next rest =>
          rw [List.getLast?_cons_cons] at hlast
          exact ih hrest hlast

theorem growthOf_records (h : Leads old splices new) :
    Change.growthOf (splices.map record) = (Text.size new : Int) - Text.size old := by
  induction splices generalizing old with
  | nil =>
      obtain rfl : old = new := h
      simp [Change.growthOf]
  | cons splice rest ih =>
      obtain ⟨rfl, hfits, hrest⟩ := h
      rw [List.map_cons, Change.growthOf, ih hrest, growth_record hfits]
      omega

/-- A front and a back that no splice touches are shared by the two ends of the chain. -/
theorem agree {front back : Nat} (h : Leads old splices new)
    (hle : front + back ≤ Text.size old) (hfront : ∀ splice ∈ splices, front ≤ splice.span.start)
    (hback : ∀ splice ∈ splices, back ≤ splice.back) :
    Text.Agree front back (Text.bytes old) (Text.bytes new) := by
  induction splices generalizing old with
  | nil =>
      obtain rfl : old = new := h
      exact .refl (by simpa using hle)
  | cons splice rest ih =>
      obtain ⟨rfl, hfits, hrest⟩ := h
      rw [List.forall_mem_cons] at hfront hback
      have hstop : splice.span.stop ≤ (Text.bytes splice.old).length := by
        simpa using hfits.2.1
      have hbehind : back ≤ (Text.bytes splice.old).length - splice.span.stop := by
        simpa [Splice.back] using hback.1
      have hstep : Text.Agree front back (Text.bytes splice.old) (Text.bytes splice.new) := by
        rw [bytes_new hfits]
        exact Text.agree_patch hfits.1 hstop hfront.1 hbehind _
      -- the next text still has room for both parts, since it agrees on them with this one
      have hroom : front + back ≤ Text.size splice.new := by
        simpa using hstep.le_new
      exact hstep.trans (ih hrest hroom hfront.2 hback.2)

/-- They are shared by every text of the chain. -/
theorem agree_old {front back : Nat} (h : Leads old splices new) (hsplice : splice ∈ splices)
    (hle : front + back ≤ Text.size old) (hfront : ∀ splice ∈ splices, front ≤ splice.span.start)
    (hback : ∀ splice ∈ splices, back ≤ splice.back) :
    Text.Agree front back (Text.bytes old) (Text.bytes splice.old) := by
  obtain ⟨before, after, rfl⟩ := List.append_of_mem hsplice
  obtain ⟨middle, hbefore, rfl, -, -⟩ := h.exists_of_append
  rw [List.forall_mem_append] at hfront hback
  exact hbefore.agree hle hfront.1 hback.1

end Leads

end Splice

end Scriptorium
