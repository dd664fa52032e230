import Scriptorium.Proofs.Document.Delta
import Scriptorium.Proofs.Lines.Starts

/-!
# Where a change lies in the two texts

The ends of a change are boundaries of the older text and the ends of what it puts in are boundaries
of the newer one, although each of them was a boundary of some text in between when it was checked.
So both parts can be asked for. What lies outside the change is the same in both texts, and with it
the lines that start there.
-/

namespace Scriptorium

namespace Change.Exact

variable {change : Change} {old new : String} {splices : List Splice} {p : Nat}

theorem mem_starts_before (h : Exact change old new splices) (hp : p < change.span.start) :
    p ∈ (LineTable.ofText old).starts ↔ p ∈ (LineTable.ofText new).starts :=
  h.agree.mem_starts_front hp

/-- Behind the change, lines start where they did, moved by what the text has grown. -/
theorem mem_starts_behind (h : Exact change old new splices) (hp : change.span.stop < p) :
    p ∈ (LineTable.ofText old).starts ↔
      ∃ q ∈ (LineTable.ofText new).starts, (q : Int) = p + change.growth := by
  obtain ⟨hspan, hstop, -, -⟩ := h.fits_old
  obtain ⟨-, hstop', -, -⟩ := h.fits_new
  have hback := h.newBack_eq
  obtain ⟨k, rfl⟩ := Nat.exists_eq_add_of_lt hp
  have hmove := h.agree.mem_starts_back k
  have hold : Text.size old - (Text.size old - change.span.stop) = change.span.stop := by omega
  have hnew : Text.size new - (Text.size old - change.span.stop) =
      change.span.start + change.inserted := by
    simp only [newSpan] at hback hstop'
    omega
  rw [hold, hnew] at hmove
  have hgrowth : ((change.span.start + change.inserted + k + 1 : Nat) : Int) =
      (change.span.stop + k + 1 : Nat) + change.growth := by
    simp only [growth, Span.length]
    omega
  rw [hmove]
  constructor
  · intro hstart
    exact ⟨_, hstart, hgrowth⟩
  · rintro ⟨q, hq, hq_eq⟩
    rw [← hgrowth, Int.natCast_inj] at hq_eq
    exact hq_eq ▸ hq

end Change.Exact

namespace Document

theorem slice_eq_ok {document : Document} {span : Span} (h : Text.Fits document.text span) :
    document.slice span = .ok (Text.slice document.text span) := by
  rw [slice, Text.check_eq_ok_iff.2 h]
  rfl

/-- A change between two snapshots of one document names parts that both of them can give, and the
document can give the newer one until its version changes. -/
theorem change_fetched (name text : String) (limit : Option Nat) (before after : List Action)
    (hsize : ((new name text limit).performAll before).size < wordCount) :
    let a := (new name text limit).performAll before
    let b := a.performAll after
    ∀ change, b.snapshot.deltaFrom a.snapshot = .ok (.changed change) →
      Text.IsBoundary a.text change.span.start ∧ Text.IsBoundary a.text change.span.stop ∧
      Text.IsBoundary b.text change.newSpan.start ∧ Text.IsBoundary b.text change.newSpan.stop ∧
      ∃ removed inserted, a.snapshot.slice change.span = .ok removed ∧
        b.snapshot.slice change.newSpan = .ok inserted ∧
        Text.splice a.text change.span inserted = b.text ∧
        ∀ more, (b.performAll more).version = b.version →
          (b.performAll more).slice change.newSpan = .ok inserted := by
  intro a b change hchange
  have ha : a.Sound := (sound_new name text limit).performAll before
  have hb : b.Sound := ha.performAll after
  have hexact := (since_performAll ha after).exact_of_changed hb hsize hchange
  obtain ⟨-, -, hstart, hstop⟩ := hexact.fits_old
  obtain ⟨-, -, hstart', hstop'⟩ := hexact.fits_new
  refine ⟨hstart, hstop, hstart', hstop', _, _, slice_eq_ok hexact.fits_old,
    slice_eq_ok hexact.fits_new, hexact.splice_eq, ?_⟩
  intro more hversion
  have htext := (since_performAll hb more).text_eq (hb.performAll more) hversion.symm
  have hfits := hexact.fits_new
  rw [htext] at hfits ⊢
  exact slice_eq_ok hfits

/-- Each of the three edits begins or ends beside a character of several bytes. -/
theorem change_fetched_multibyte :
    let a := (new "f" "añb" none).performAll [.edit ⟨4, 4⟩ "€"]
    let b := a.performAll [.edit ⟨3, 4⟩ "öö", .edit ⟨1, 3⟩ "", .edit ⟨1, 5⟩ "é"]
    let change : Change := ⟨⟨1, 4⟩, 2⟩
    a.size < wordCount ∧ b.snapshot.deltaFrom a.snapshot = .ok (.changed change) ∧
      ∃ removed inserted, a.snapshot.slice change.span = .ok removed ∧
        b.snapshot.slice change.newSpan = .ok inserted ∧
        Text.splice a.text change.span inserted = b.text := by
  intro a b change
  have hsize : a.size < wordCount := by decide
  have hchange : b.snapshot.deltaFrom a.snapshot = .ok (.changed change) := by decide
  obtain ⟨-, -, -, -, removed, inserted, hremoved, hinserted, hsplice, -⟩ :=
    change_fetched "f" "añb" none [.edit ⟨4, 4⟩ "€"]
      [.edit ⟨3, 4⟩ "öö", .edit ⟨1, 3⟩ "", .edit ⟨1, 5⟩ "é"] hsize change hchange
  exact ⟨hsize, hchange, removed, inserted, hremoved, hinserted, hsplice⟩

/-- Between two snapshots of one document, lines in front of a change stay where they start, and
lines behind it move with the text. -/
theorem line_starts_kept (name text : String) (limit : Option Nat) (before after : List Action)
    (hsize : ((new name text limit).performAll before).size < wordCount) :
    let a := ((new name text limit).performAll before).snapshot
    let b := (((new name text limit).performAll before).performAll after).snapshot
    ∀ change, b.deltaFrom a = .ok (.changed change) →
      (∀ p, p < change.span.start → (p ∈ a.lines.starts ↔ p ∈ b.lines.starts)) ∧
      ∀ p, change.span.stop < p →
        (p ∈ a.lines.starts ↔ ∃ q ∈ b.lines.starts, (q : Int) = p + change.growth) := by
  intro a b change hchange
  have hearlier := (sound_new name text limit).performAll before
  have hlater := hearlier.performAll after
  have hexact := (since_performAll hearlier after).exact_of_changed hlater hsize hchange
  have ha : a.lines = .ofText a.text := hearlier.lines_eq
  have hb : b.lines = .ofText b.text := hlater.lines_eq
  rw [ha, hb]
  exact ⟨fun p hp => hexact.mem_starts_before hp, fun p hp => hexact.mem_starts_behind hp⟩

/-- An edit in the middle of a carriage return and line feed makes a line start where it begins. -/
theorem line_starts_kept_of_split_pair :
    let a := (new "f" "x\r\ny" none).snapshot
    let b := ((new "f" "x\r\ny" none).performAll [.edit ⟨2, 2⟩ "m"]).snapshot
    a.size < wordCount ∧ b.deltaFrom a = .ok (.changed ⟨⟨2, 2⟩, 1⟩) ∧
      (∀ p, p < 2 → (p ∈ a.lines.starts ↔ p ∈ b.lines.starts)) ∧
      (∀ p, 2 < p → (p ∈ a.lines.starts ↔ ∃ q ∈ b.lines.starts, (q : Int) = p + 1)) ∧
      2 ∉ a.lines.starts ∧ 2 ∈ b.lines.starts := by
  intro a b
  have hsize : ((new "f" "x\r\ny" none).performAll []).size < wordCount := by decide
  have hchange : b.deltaFrom a = .ok (.changed ⟨⟨2, 2⟩, 1⟩) := by decide
  obtain ⟨hbefore, hbehind⟩ :=
    line_starts_kept "f" "x\r\ny" none [] [.edit ⟨2, 2⟩ "m"] hsize ⟨⟨2, 2⟩, 1⟩ hchange
  exact ⟨hsize, hchange, hbefore, hbehind, by decide, by decide⟩

end Document

end Scriptorium
