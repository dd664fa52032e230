import Scriptorium.Proofs.Settings.Lines
import Scriptorium.Settings.File

/-!
# What is read is proper

Whatever text a table was read from, its moments are valid and it lists its keys in order, on every
level. The readers check moments, and no table is made but by setting keys, which keeps their order.
While a table is put together it is enough to look at what it would be if nothing more came.
-/

namespace Scriptorium.Settings

/-! ### Moments -/

theorem Date.isValid_of_read? {chars rest : List Char} {date : Date}
    (h : Date.read? chars = some (date, rest)) : date.IsValid := by
  simp only [Date.read?, Option.bind_eq_bind, Option.bind_eq_some_iff] at h
  obtain ⟨⟨year, _⟩, -, _, -, ⟨month, _⟩, -, _, -, ⟨day, _⟩, -, h⟩ := h
  split at h
  · next hvalid =>
      cases h
      exact hvalid
  · cases h

theorem Time.isValid_of_read? {chars rest : List Char} {time : Time}
    (h : Time.read? chars = some (time, rest)) : time.IsValid := by
  simp only [Time.read?, Option.bind_eq_bind, Option.bind_eq_some_iff] at h
  obtain ⟨⟨hour, _⟩, -, _, -, ⟨minute, _⟩, -, ⟨second, nanosecond, _⟩, -, h⟩ := h
  split at h
  · next hvalid =>
      cases h
      exact hvalid
  · cases h

theorem lt_of_readOffsetMinutes? {chars : List Char} {minutes : Nat}
    (h : readOffsetMinutes? chars = some minutes) : minutes < 1440 := by
  simp only [readOffsetMinutes?, Option.bind_eq_bind, Option.bind_eq_some_iff] at h
  obtain ⟨⟨hours, _⟩, -, _, -, ⟨rest, _⟩, -, h⟩ := h
  split at h
  · next hrange =>
      cases h
      omega
  · cases h

theorem isValid_of_readOffset? {chars : List Char} {offset : Option Offset}
    (h : readOffset? chars = some offset) : ∀ o ∈ offset, o.IsValid := by
  unfold readOffset? at h
  split at h
  · cases h
    exact nofun
  · cases h
    rintro _ ⟨⟩
    exact trivial
  · cases h
    rintro _ ⟨⟩
    exact trivial
  · simp only [Option.bind_eq_bind, Option.bind_eq_some_iff] at h
    obtain ⟨minutes, hminutes, h⟩ := h
    have hlt := lt_of_readOffsetMinutes? hminutes
    cases h
    rintro _ ⟨⟩
    exact ⟨by omega, by omega⟩
  · simp only [Option.bind_eq_bind, Option.bind_eq_some_iff] at h
    obtain ⟨minutes, hminutes, h⟩ := h
    have hlt := lt_of_readOffsetMinutes? hminutes
    cases h
    rintro _ ⟨⟩
    exact ⟨by omega, by omega⟩
  · cases h

theorem Moment.isValid_of_read? {chars : List Char} {moment : Moment}
    (h : Moment.read? chars = some moment) : moment.IsValid := by
  unfold Moment.read? at h
  split at h
  · next hdate =>
      cases h
      exact Date.isValid_of_read? hdate
  · next hdate =>
      split at h
      · simp only [Option.bind_eq_bind, Option.bind_eq_some_iff] at h
        obtain ⟨⟨time, _⟩, htime, offset, hoffset, h⟩ := h
        cases h
        exact ⟨Date.isValid_of_read? hdate, Time.isValid_of_read? htime,
          isValid_of_readOffset? hoffset⟩
      · cases h
  · simp only [Option.bind_eq_bind, Option.bind_eq_some_iff] at h
    obtain ⟨⟨time, _⟩, htime, h⟩ := h
    split at h
    · cases h
      exact Time.isValid_of_read? htime
    · cases h

/-! ### Values without quotes -/

theorem isScalar_of_scalar? {chars : List Char} {value : Value} (h : scalar? chars = some value) :
    value.IsScalar := by
  unfold scalar? at h
  split at h
  · cases h
    exact trivial
  split at h
  · cases h
    exact trivial
  split at h
  · cases h
    exact trivial
  split at h
  · cases h
    exact trivial
  · cases h
    exact trivial
  · obtain ⟨moment, hmoment, rfl⟩ := Option.map_eq_some_iff.1 h
    exact Moment.isValid_of_read? hmoment

theorem isScalar_of_readScalar {chars rest : List Char} {value : Value}
    (h : readScalar chars = some (value, rest)) : value.IsScalar := by
  have hscalar {word after : List Char} (h : (scalar? word).map (·, after) = some (value, rest)) :
      value.IsScalar := by
    obtain ⟨_, hread, heq⟩ := Option.map_eq_some_iff.1 h
    cases heq
    exact isScalar_of_scalar? hread
  unfold readScalar at h
  simp only at h
  split at h
  · split at h
    · exact hscalar h
    · exact hscalar h
  · exact hscalar h

/-! ### Tables that are put together -/

theorem Value.isProper_table_iff {entries : Table} :
    (Value.table entries).IsProper ↔
      KeysSorted entries ∧ ∀ entry ∈ entries, entry.2.IsProper := by
  constructor
  · intro h
    cases h with
    | scalar h => exact h.elim
    | table sorted h => exact ⟨sorted, h⟩
  · exact fun h => .table h.1 h.2

theorem Value.isProper_array_iff {items : List Value} :
    (Value.array items).IsProper ↔ ∀ item ∈ items, item.IsProper := by
  constructor
  · intro h
    cases h with
    | scalar h => exact h.elim
    | array h => exact h
  · exact .array

/-- What the drafts would be if nothing more came is a proper table. -/
def Drafts.IsProper (drafts : Drafts) : Prop :=
  (Value.table (Draft.completeEntries drafts)).IsProper

/-- The change makes proper drafts of proper ones. -/
def KeepsProper (change : Drafts → Option Drafts) : Prop :=
  ∀ drafts filled, Drafts.IsProper drafts → change drafts = some filled → Drafts.IsProper filled

namespace Drafts

variable {drafts entries last filled : Drafts} {key : String} {draft : Draft}

theorem isProper_nil : IsProper [] :=
  .table .nil nofun

theorem IsProper.setKey (h : IsProper drafts) (hdraft : draft.complete.IsProper) (key : String) :
    IsProper (Settings.setKey key draft drafts) := by
  obtain ⟨hsorted, hentries⟩ := Value.isProper_table_iff.1 h
  rw [IsProper, Draft.completeEntries_setKey]
  refine .table (hsorted.setKey key draft.complete) fun entry hentry => ?_
  rcases mem_setKey hentry with rfl | hentry
  · exact hdraft
  · exact hentries entry hentry

theorem IsProper.lookup (h : IsProper drafts) (hlookup : drafts.lookup key = some draft) :
    draft.complete.IsProper := by
  have hcomplete : (Draft.completeEntries drafts).lookup key = some draft.complete := by
    rw [Draft.lookup_completeEntries, hlookup, Option.map_some]
  obtain ⟨front, back, hentries, -⟩ := List.lookup_eq_some_iff.1 hcomplete
  refine (Value.isProper_table_iff.1 h).2 (key, draft.complete) ?_
  rw [hentries]
  exact List.mem_append_right _ List.mem_cons_self

theorem isProper_table_iff {origin : Origin} :
    (Draft.table origin entries).complete.IsProper ↔ IsProper entries := by
  rw [Draft.complete, IsProper]

theorem isProper_tables_iff {earlier : List Draft} :
    (Draft.tables earlier last).complete.IsProper ↔
      (Value.array (Draft.completeItems earlier)).IsProper ∧ IsProper last := by
  rw [Draft.complete, Value.isProper_array_iff, Value.isProper_array_iff]
  simp only [List.mem_append, List.mem_reverse, List.mem_singleton]
  constructor
  · exact fun h => ⟨fun item hitem => h item (.inl hitem), h _ (.inr rfl)⟩
  · rintro ⟨hitems, hlast⟩ item (hitem | rfl)
    · exact hitems item hitem
    · exact hlast

/-- What every step down a path does: an open table is changed, and what it belongs to is put back
under its key. -/
theorem IsProper.putBack {change : Drafts → Option Drafts} {wrap : Drafts → Draft}
    (h : IsProper drafts) (hentries : IsProper entries) (hchange : KeepsProper change)
    (hwrap : ∀ inner, IsProper inner → (wrap inner).complete.IsProper)
    (hfilled : ((change entries).bind fun inner =>
      some (Settings.setKey key (wrap inner) drafts)) = some filled) :
    IsProper filled := by
  obtain ⟨inner, hinner, heq⟩ := Option.bind_eq_some_iff.1 hfilled
  cases heq
  exact h.setKey (hwrap inner (hchange _ _ hentries hinner)) key

theorem keepsProper_inHeader {change : Drafts → Option Drafts} (h : KeepsProper change)
    (path : List String) : KeepsProper (inHeader change path) := by
  induction path with
  | nil => exact h
  | cons key rest ih =>
      intro drafts filled hdrafts hfilled
      rw [inHeader] at hfilled
      split at hfilled
      · exact hdrafts.putBack isProper_nil ih (fun _ => isProper_table_iff.2) hfilled
      · next hlookup =>
          have hentries := isProper_table_iff.1 (hdrafts.lookup hlookup)
          exact hdrafts.putBack hentries ih (fun _ => isProper_table_iff.2) hfilled
      · next hlookup =>
          obtain ⟨hearlier, hlast⟩ := isProper_tables_iff.1 (hdrafts.lookup hlookup)
          exact hdrafts.putBack hlast ih
            (fun _ hinner => isProper_tables_iff.2 ⟨hearlier, hinner⟩) hfilled
      · cases hfilled

theorem keepsProper_inKey {change : Drafts → Option Drafts} (h : KeepsProper change)
    (origin : Origin) (path : List String) : KeepsProper (inKey change origin path) := by
  induction path generalizing origin with
  | nil =>
      intro drafts filled hdrafts hfilled
      rw [inKey] at hfilled
      split at hfilled
      · exact h _ _ hdrafts hfilled
      · cases hfilled
  | cons key rest ih =>
      intro drafts filled hdrafts hfilled
      rw [inKey] at hfilled
      split at hfilled
      · exact hdrafts.putBack isProper_nil (ih _) (fun _ => isProper_table_iff.2) hfilled
      · cases hfilled
      · next hlookup =>
          have hentries := isProper_table_iff.1 (hdrafts.lookup hlookup)
          exact hdrafts.putBack hentries (ih _) (fun _ => isProper_table_iff.2) hfilled
      · next hlookup =>
          obtain ⟨hearlier, hlast⟩ := isProper_tables_iff.1 (hdrafts.lookup hlookup)
          exact hdrafts.putBack hlast (ih _)
            (fun _ hinner => isProper_tables_iff.2 ⟨hearlier, hinner⟩) hfilled
      · cases hfilled

theorem keepsProper_define {value : Value} (h : value.IsProper) (key : String) :
    KeepsProper (define key value) := by
  intro drafts filled hdrafts hfilled
  rw [define] at hfilled
  split at hfilled
  · cases hfilled
    refine hdrafts.setKey ?_ key
    rwa [Draft.complete]
  · cases hfilled

theorem keepsProper_foldlM {α : Type} {change : Drafts → α → Option Drafts} {items : List α}
    (h : ∀ item ∈ items, KeepsProper (change · item)) : KeepsProper (items.foldlM change) := by
  induction items with
  | nil =>
      intro drafts filled hdrafts hfilled
      cases hfilled
      exact hdrafts
  | cons item items ih =>
      intro drafts filled hdrafts hfilled
      obtain ⟨hitem, hitems⟩ := List.forall_mem_cons.1 h
      simp only [List.foldlM_cons] at hfilled
      obtain ⟨between, hbetween, hrest⟩ := Option.bind_eq_some_iff.1 hfilled
      exact ih hitems _ _ (hitem _ _ hdrafts hbetween) hrest

theorem keepsProper_assignAll {body : List Assignment}
    (h : ∀ assignment ∈ body, assignment.value.IsProper) : KeepsProper (assignAll · body) := by
  refine keepsProper_foldlM fun assignment hassignment => ?_
  have hdefine := keepsProper_define (h assignment hassignment) assignment.key
  intro drafts filled hdrafts hfilled
  simp only [assign] at hfilled
  split at hfilled
  · exact hdefine _ _ hdrafts hfilled
  · exact keepsProper_inKey hdefine _ _ _ _ hdrafts hfilled

theorem keepsProper_addSection {part : Section}
    (h : ∀ assignment ∈ part.body, assignment.value.IsProper) :
    KeepsProper (addSection · part) := by
  have hbody := keepsProper_assignAll h
  refine keepsProper_inHeader (fun drafts filled hdrafts hfilled => ?_) part.parents
  unfold openSection at hfilled
  split at hfilled
  · exact hdrafts.putBack isProper_nil hbody (fun _ => isProper_table_iff.2) hfilled
  · next hlookup =>
      have hentries := isProper_table_iff.1 (hdrafts.lookup hlookup)
      exact hdrafts.putBack hentries hbody (fun _ => isProper_table_iff.2) hfilled
  · have hearlier : (Value.array (Draft.completeItems [])).IsProper :=
      .array (List.forall_mem_nil _)
    exact hdrafts.putBack isProper_nil hbody
      (fun _ hinner => isProper_tables_iff.2 ⟨hearlier, hinner⟩) hfilled
  · next earlier last _ hlookup =>
      -- the table that was open is closed, so it counts among the earlier ones
      obtain ⟨hearlier, hlast⟩ := isProper_tables_iff.1 (hdrafts.lookup hlookup)
      have hclosed :
          (Value.array (Draft.completeItems (.table .declared last :: earlier))).IsProper := by
        rw [Draft.completeItems, Value.isProper_array_iff, List.forall_mem_cons]
        exact ⟨isProper_table_iff.2 hlast, Value.isProper_array_iff.1 hearlier⟩
      exact hdrafts.putBack isProper_nil hbody
        (fun _ hinner => isProper_tables_iff.2 ⟨hclosed, hinner⟩) hfilled
  · cases hfilled

end Drafts

theorem isProper_of_ofAssignments? {body : List Assignment} {table : Table}
    (h : ∀ assignment ∈ body, assignment.value.IsProper)
    (htable : Table.ofAssignments? body = some table) : (Value.table table).IsProper := by
  obtain ⟨filled, hfilled, rfl⟩ := Option.map_eq_some_iff.1 htable
  exact Drafts.keepsProper_assignAll h _ _ Drafts.isProper_nil hfilled

/-! ### Values and lines -/

theorem forall_of_readItems {α : Type} {item : List Char → Option (α × List Char)} {close : Char}
    {P : α → Prop} (h : ∀ chars value rest, item chars = some (value, rest) → P value)
    {steps : Nat} {chars rest : List Char} {values : List α}
    (hread : readItems item close steps chars = some (values, rest)) :
    ∀ value ∈ values, P value := by
  induction steps generalizing chars values with
  | zero => cases hread
  | succ steps ih =>
      rw [readItems] at hread
      obtain ⟨skipped, -, hread⟩ := Option.bind_eq_some_iff.1 hread
      split at hread
      · cases hread
      · split at hread
        · cases hread
          exact List.forall_mem_nil _
        · obtain ⟨⟨value, after⟩, hvalue, hread⟩ := Option.bind_eq_some_iff.1 hread
          obtain ⟨skipped, -, hread⟩ := Option.bind_eq_some_iff.1 hread
          have hfirst := h _ _ _ hvalue
          split at hread
          · obtain ⟨⟨others, _⟩, hothers, heq⟩ := Option.bind_eq_some_iff.1 hread
            cases heq
            exact List.forall_mem_cons.2 ⟨hfirst, ih hothers⟩
          · split at hread
            · cases hread
              exact List.forall_mem_singleton.2 hfirst
            · cases hread
          · cases hread

theorem exists_of_readAssignment {skip : List Char → Option (List Char)}
    {reader : List Char → Option (Value × List Char)} {chars rest : List Char}
    {assignment : Assignment} (h : readAssignment skip reader chars = some (assignment, rest)) :
    ∃ written, reader written = some (assignment.value, rest) := by
  rw [readAssignment] at h
  obtain ⟨⟨⟨parents, key⟩, _⟩, -, h⟩ := Option.bind_eq_some_iff.1 h
  obtain ⟨skipped, -, h⟩ := Option.bind_eq_some_iff.1 h
  split at h
  · obtain ⟨written, -, h⟩ := Option.bind_eq_some_iff.1 h
    obtain ⟨⟨value, _⟩, hvalue, heq⟩ := Option.bind_eq_some_iff.1 h
    cases heq
    exact ⟨written, hvalue⟩
  · cases h

theorem isProper_of_readQuoted {chars rest : List Char} {value : Value}
    (h : (readQuoted chars).map (Prod.map Value.string id) = some (value, rest)) :
    value.IsProper := by
  obtain ⟨⟨text, _⟩, -, heq⟩ := Option.map_eq_some_iff.1 h
  cases heq
  exact .string text

theorem isProper_of_readValue {steps depth : Nat} {chars rest : List Char} {value : Value}
    (h : readValue steps depth chars = some (value, rest)) : value.IsProper := by
  induction depth using Nat.strongRecOn generalizing chars rest value with
  | ind depth ih =>
      unfold readValue at h
      split at h
      · exact isProper_of_readQuoted h
      · exact isProper_of_readQuoted h
      · cases h
      · next fewer _ =>
          obtain ⟨⟨items, _⟩, hitems, heq⟩ := Option.bind_eq_some_iff.1 h
          cases heq
          exact .array (forall_of_readItems (fun _ _ _ => ih fewer (Nat.lt_succ_self fewer)) hitems)
      · cases h
      · next fewer _ =>
          obtain ⟨⟨body, _⟩, hbody, h⟩ := Option.bind_eq_some_iff.1 h
          obtain ⟨table, htable, heq⟩ := Option.bind_eq_some_iff.1 h
          cases heq
          have hvalues : ∀ assignment ∈ body, assignment.value.IsProper := by
            refine forall_of_readItems (fun chars assignment rest hread => ?_) hbody
            obtain ⟨written, hvalue⟩ := exists_of_readAssignment hread
            exact ih fewer (Nat.lt_succ_self fewer) hvalue
          exact isProper_of_ofAssignments? hvalues htable
      · exact .scalar (isScalar_of_readScalar h)

theorem isProper_of_readHeader {chars rest : List Char} {line : Line}
    (h : readHeader chars = some (line, rest)) : line.IsProper := by
  unfold readHeader at h
  split at h
  · obtain ⟨⟨⟨parents, key⟩, _⟩, -, h⟩ := Option.bind_eq_some_iff.1 h
    dsimp only at h
    split at h
    · cases h
      exact trivial
    · cases h
  · obtain ⟨⟨⟨parents, key⟩, _⟩, -, h⟩ := Option.bind_eq_some_iff.1 h
    dsimp only at h
    split at h
    · cases h
      exact trivial
    · cases h

theorem isProper_of_readLine {steps : Nat} {chars rest : List Char} {line : Line}
    (h : readLine steps chars = some (line, rest)) : line.IsProper := by
  unfold readLine at h
  split at h
  · exact isProper_of_readHeader h
  · obtain ⟨⟨assignment, _⟩, hread, heq⟩ := Option.map_eq_some_iff.1 h
    cases heq
    obtain ⟨written, hvalue⟩ := exists_of_readAssignment hread
    exact isProper_of_readValue hvalue

theorem isProper_of_readLines {steps : Nat} {chars : List Char} {lines : List Line}
    (h : readLines steps chars = some lines) : ∀ line ∈ lines, line.IsProper := by
  induction steps generalizing chars lines with
  | zero =>
      cases chars with
      | nil =>
          cases h
          exact List.forall_mem_nil _
      | cons char rest => cases h
  | succ steps ih =>
      cases chars with
      | nil =>
          cases h
          exact List.forall_mem_nil _
      | cons char rest =>
          rw [readLines] at h
          · split at h
            · exact ih h
            · obtain ⟨⟨line, _⟩, hline, h⟩ := Option.bind_eq_some_iff.1 h
              obtain ⟨after, -, h⟩ := Option.bind_eq_some_iff.1 h
              obtain ⟨others, hothers, heq⟩ := Option.bind_eq_some_iff.1 h
              cases heq
              exact List.forall_mem_cons.2 ⟨isProper_of_readLine hline, ih hothers⟩
          · exact List.cons_ne_nil _ _

/-! ### Files -/

theorem lines_addLine (line : Line) (outline : Outline) :
    (outline.addLine line).lines = line :: outline.lines := by
  cases line <;> simp [Outline.addLine, Outline.lines, Section.lines]

theorem lines_ofLines (lines : List Line) : (Outline.ofLines lines).lines = lines := by
  induction lines with
  | nil => rfl
  | cons line lines ih =>
      calc (Outline.ofLines (line :: lines)).lines
          = line :: (Outline.ofLines lines).lines := lines_addLine ..
        _ = line :: lines := by rw [ih]

theorem isProper_of_toTable? {outline : Outline} {table : Table}
    (h : ∀ line ∈ outline.lines, line.IsProper) (htable : outline.toTable? = some table) :
    (Value.table table).IsProper := by
  rw [Outline.lines, List.forall_mem_append, List.forall_mem_map] at h
  obtain ⟨hbody, hsections⟩ := h
  have hparts : ∀ part ∈ outline.sections, ∀ assignment ∈ part.body,
      assignment.value.IsProper := by
    intro part hpart assignment hassignment
    refine hsections (.assignment assignment) (List.mem_flatMap.2 ⟨part, hpart, ?_⟩)
    exact List.mem_cons_of_mem _ (List.mem_map_of_mem hassignment)
  obtain ⟨opened, hopened, htable⟩ := Option.bind_eq_some_iff.1 htable
  obtain ⟨filled, hfilled, heq⟩ := Option.bind_eq_some_iff.1 htable
  cases heq
  have hproper := Drafts.keepsProper_assignAll hbody _ _ Drafts.isProper_nil hopened
  exact Drafts.keepsProper_foldlM
    (fun part hpart => Drafts.keepsProper_addSection (hparts part hpart)) _ _ hproper hfilled

/-- Every table that is read is proper. -/
theorem Table.isProper_of_read? {text : String} {table : Table}
    (h : Table.read? text = some table) : (Value.table table).IsProper := by
  obtain ⟨outline, houtline, htable⟩ := Option.bind_eq_some_iff.1 h
  obtain ⟨lines, hlines, rfl⟩ := Option.map_eq_some_iff.1 houtline
  refine isProper_of_toTable? ?_ htable
  rw [lines_ofLines]
  exact isProper_of_readLines hlines

end Scriptorium.Settings
