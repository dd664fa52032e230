import Scriptorium.Config.Storage
import Scriptorium.Proofs.Files.Writing
import Scriptorium.Proofs.Settings.RoundTrip

/-!
# Configurations that were saved

A valid configuration is a proper table, and that table is read as the configuration again. So what
is loaded from a file that was saved is the configuration with its root expanded, as it is for every
file. Only a layout that goes beyond the limits of the reader stops it: saving does not check them.
-/

namespace Scriptorium.Config

open Settings

/-! ### Valid configurations -/

/-- A setting of the compiler: integers have 64 bits, moments are valid, and a table lists its keys
in order and does not start with the mark of a date-time. -/
inductive IsSetting : Value → Prop where
  | string (text : String) : IsSetting (.string text)
  | integer {value : Int} (low : -(Nat.pow 2 63 : Int) ≤ value) (high : value < Nat.pow 2 63) :
      IsSetting (.integer value)
  | float (value : Binary64) : IsSetting (.float value)
  | boolean (value : Bool) : IsSetting (.boolean value)
  | moment {value : Moment} (h : value.IsValid) : IsSetting (.moment value)
  | array {items : List Value} (h : ∀ item ∈ items, IsSetting item) : IsSetting (.array items)
  | table {entries : Table} (sorted : KeysSorted entries)
      (unmarked : ∀ entry ∈ entries.head?, entry.1 ≠ momentKey)
      (h : ∀ entry ∈ entries, IsSetting entry.2) : IsSetting (.table entries)

/-- The values of a configuration are in their ranges, and its settings are in order. -/
structure IsValid (config : Config) : Prop where
  limit : ∀ limit ∈ config.historyLimit, limit < wordCount
  sorted : ∀ table ∈ config.compilation, KeysSorted table
  settings : ∀ table ∈ config.compilation, ∀ entry ∈ table, IsSetting entry.2

/-- The file of the configuration keeps the limits of the reader. -/
def IsShallow (config : Config) : Prop :=
  (Outline.ofTable config.toTable).IsShallow

instance (config : Config) : Decidable config.IsShallow :=
  inferInstanceAs (Decidable (Outline.ofTable config.toTable).IsShallow)

variable {config : Config} {value : Value}

/-! ### Configurations as tables -/

theorem IsSetting.isProper (h : IsSetting value) : value.IsProper := by
  induction h with
  | string text => exact .string text
  | integer low high => exact .scalar trivial
  | float value => exact .scalar trivial
  | boolean value => exact .scalar trivial
  | moment h => exact .scalar h
  | array h ih => exact .array ih
  | table sorted unmarked h ih => exact .table sorted ih

theorem adoptItems?_eq_self {items : List Value} (h : ∀ item ∈ items, adopt? item = some item) :
    adoptItems? items = some items := by
  induction items with
  | nil => rfl
  | cons item items ih =>
      obtain ⟨hitem, hitems⟩ := List.forall_mem_cons.1 h
      simp only [adoptItems?, hitem, ih hitems]
      rfl

theorem adoptEntries?_eq_self {entries : Table}
    (h : ∀ entry ∈ entries, adopt? entry.2 = some entry.2) :
    adoptEntries? entries = some entries := by
  induction entries with
  | nil => rfl
  | cons entry entries ih =>
      obtain ⟨hentry, hentries⟩ := List.forall_mem_cons.1 h
      simp only [adoptEntries?, hentry, ih hentries]
      rfl

theorem adopt?_table {entries : Table} (h : ∀ entry ∈ entries.head?, entry.1 ≠ momentKey) :
    adopt? (.table entries) = (adoptEntries? entries).map .table := by
  cases entries with
  | nil => rfl
  | cons entry entries =>
      have hkey : entry.1 ≠ momentKey := h entry rfl
      simp only [adopt?, if_neg hkey, adoptEntries?]
      cases adopt? entry.2 <;> cases adoptEntries? entries <;> rfl

/-- A setting is adopted as it is. -/
theorem adopt?_eq_self (h : IsSetting value) : adopt? value = some value := by
  induction h with
  | string text => rfl
  | integer low high => exact if_pos ⟨low, high⟩
  | float value => rfl
  | boolean value => rfl
  | moment h => rfl
  | array h ih => rw [adopt?, adoptItems?_eq_self ih, Option.map_some]
  | table sorted unmarked h ih =>
      rw [adopt?_table unmarked, adoptEntries?_eq_self ih, Option.map_some]

theorem ofValue?_name (policy : DuplicatePolicy) :
    DuplicatePolicy.ofValue? (.string policy.name) = some policy := by
  cases policy <;> rfl

theorem limitOf?_integer {limit : Nat} (h : limit < wordCount) :
    limitOf? (.integer limit) = some limit := by
  rw [limitOf?, if_pos ⟨Int.natCast_nonneg limit, Int.ofNat_lt.2 h⟩, Int.toNat_natCast]

theorem compilationOf?_table {table : Table} (h : ∀ entry ∈ table, IsSetting entry.2) :
    compilationOf? (.table table) = some table :=
  adoptEntries?_eq_self fun entry hentry => adopt?_eq_self (h entry hentry)

/-- A valid configuration is read from its table. -/
theorem ofTable?_toTable (h : config.IsValid) : ofTable? config.toTable = some config := by
  obtain ⟨limit, policy, root, compilation⟩ := config
  obtain ⟨hlimit, -, hsettings⟩ := h
  have hcompilation : ∀ table ∈ compilation, compilationOf? (.table table) = some table :=
    fun table htable => compilationOf?_table (hsettings table htable)
  have hlimit : ∀ value ∈ limit, limitOf? (.integer value) = some value :=
    fun value hvalue => limitOf?_integer (hlimit value hvalue)
  cases compilation <;> cases limit <;> cases root <;>
    simp_all [toTable, ofTable?, addEntry, empty, ofValue?_name, rootOf?]

/-- The fields are written in the order of their names. -/
theorem keysSorted_toTable (config : Config) : KeysSorted config.toTable := by
  have hkeys : (config.toTable.map Prod.fst).Sublist
      ["compilation", "history_limit", "on_duplicate", "scripts_root"] := by
    obtain ⟨limit, policy, root, compilation⟩ := config
    cases compilation <;> cases limit <;> cases root <;> simp [toTable]
  exact List.pairwise_map.1 (List.Pairwise.sublist hkeys (by decide))

theorem isProper_toTable (h : config.IsValid) : (Value.table config.toTable).IsProper := by
  refine .table (keysSorted_toTable config) fun entry hentry => ?_
  simp only [toTable, List.mem_append, Option.mem_toList, Option.map_eq_some_iff,
    List.mem_singleton] at hentry
  rcases hentry with ((⟨table, htable, rfl⟩ | ⟨limit, -, rfl⟩) | rfl) | ⟨root, -, rfl⟩
  · exact .table (h.sorted table htable) fun entry hentry =>
      (h.settings table htable entry hentry).isProper
  · exact .scalar trivial
  · exact .string _
  · exact .string _

/-! ### Files -/

theorem fromUTF8?_toUTF8 (text : String) : String.fromUTF8? text.toUTF8 = some text :=
  dif_pos text.isValidUTF8

theorem parse?_render (h : config.IsValid) :
    parse? config.render = if config.IsShallow then some config else none := by
  have hread : parse? config.render =
      (if config.IsShallow then some config.toTable else none).bind ofTable? :=
    congrArg (Option.bind · ofTable?) (Table.read?_write (isProper_toTable h))
  rw [hread]
  split
  · exact ofTable?_toTable h
  · rfl

/-- What is loaded from a file that was saved. -/
theorem load_save (h : config.IsValid) {top : Node} {path : String}
    (hsaved : (config.save top path).2 = true) (environment : Environment) :
    load environment (config.save top path).1 path =
      if config.IsShallow then .ok (some (config.expandRoot environment))
      else .error .malformed := by
  have hfound : (config.save top path).1.find? path = some (.file config.render.toUTF8) :=
    Node.find?_of_write hsaved
  simp only [load, hfound, fromUTF8?_toUTF8, parse?_render h]
  by_cases hshallow : config.IsShallow <;> simp only [hshallow, if_true, if_false]

/-! ### Roots without references -/

/-- A text without a dollar sign and without a tilde at its start refers to nothing. -/
theorem expand?_eq_self (environment : Environment) {text : List Char} (hdollar : '$' ∉ text)
    (htilde : text.head? ≠ some '~') : environment.expand? text = some text := by
  have hfront : ∀ char ∈ text, decide (char ≠ '$') = true := by
    intro char hchar
    rw [decide_eq_true_eq]
    rintro rfl
    exact hdollar hchar
  have hvariables : environment.expandVariables text = some text := by
    cases text with
    | nil => rfl
    | cons char rest =>
        simp only [Environment.expandVariables, List.length_cons, Environment.expandFrom,
          List.takeWhile_eq_self_iff.2 hfront, List.dropWhile_eq_nil_iff.2 hfront]
  have hhome : environment.expandHome text = text := by
    unfold Environment.expandHome
    split
    · exact absurd rfl htilde
    · exact absurd rfl htilde
    · rfl
  simp only [Environment.expand?, hvariables, hhome, htilde, Option.bind_eq_bind, Option.bind_some,
    false_and, if_false, Option.pure_def]

/-- The root of scripts, if there is one, has no dollar sign and no tilde at its start. -/
def HasPlainRoot (config : Config) : Prop :=
  ∀ root ∈ config.scriptsRoot, '$' ∉ root.toList ∧ root.toList.head? ≠ some '~'

theorem expandRoot_eq_self (environment : Environment) (h : config.HasPlainRoot) :
    config.expandRoot environment = config := by
  obtain ⟨limit, policy, root, compilation⟩ := config
  cases root with
  | none => rfl
  | some root =>
      obtain ⟨hdollar, htilde⟩ := h root rfl
      simp only [expandRoot, Option.map_some, expand?_eq_self environment hdollar htilde,
        String.ofList_toList]

/-- **A configuration that was saved is loaded as it was**, in every environment, if its root refers
to nothing in the environment. Only a layout beyond the limits of the reader is refused. -/
theorem loads_back (h : config.IsValid) (hroot : config.HasPlainRoot) {top : Node} {path : String}
    (hsaved : (config.save top path).2 = true) (environment : Environment) :
    load environment (config.save top path).1 path =
      if config.IsShallow then .ok (some config) else .error .malformed := by
  rw [load_save h hsaved, expandRoot_eq_self environment hroot]

/-- A limit beyond 63 bits, and settings of most kinds: a key and a text that need quotes, arrays
with and without headers, a table with nothing in it, a float that is no number, and a leap day. -/
def sampleConfig : Config where
  historyLimit := some (wordCount - 1)
  onDuplicate := .overwrite
  scriptsRoot := some "/srv/scripts ü"
  compilation := some
    [("", .array [.integer (-(Nat.pow 2 63)), .string "a\"'\n"]),
      ("a.b", .table [("c", .array [.table [], .table [("d", .float .nan)]])]),
      ("day", .moment (.day ⟨2024, 2, 29⟩))]

theorem isValid_sampleConfig : sampleConfig.IsValid := by
  refine ⟨?_, ?_, ?_⟩
  · rintro _ ⟨⟩
    decide
  · rintro _ ⟨⟩
    have hkeys : ["", "a.b", "day"].Pairwise (· < ·) := by decide
    exact List.pairwise_map.1 hkeys
  · rintro _ ⟨⟩
    have hday : Moment.IsValid (.day ⟨2024, 2, 29⟩) := show Date.IsValid _ by decide
    have hinner : IsSetting (.table [("d", .float .nan)]) :=
      .table (List.pairwise_singleton ..) (by rintro _ ⟨⟩; decide)
        (List.forall_mem_singleton.2 (.float _))
    refine List.forall_mem_cons.2 ⟨.array ?_, List.forall_mem_cons.2 ⟨.table ?_ ?_ ?_,
      List.forall_mem_singleton.2 (.moment hday)⟩⟩
    · exact List.forall_mem_cons.2 ⟨.integer (by decide) (by decide),
        List.forall_mem_singleton.2 (.string _)⟩
    · exact List.pairwise_singleton ..
    · rintro _ ⟨⟩
      decide
    · refine List.forall_mem_singleton.2 (.array (List.forall_mem_cons.2 ⟨?_, ?_⟩))
      · exact .table .nil nofun nofun
      · exact List.forall_mem_singleton.2 hinner

theorem loads_back_sample :
    sampleConfig.IsValid ∧ sampleConfig.HasPlainRoot ∧
      (sampleConfig.save (.directory [("config.toml", .file ⟨#[0xff]⟩)]) "config.toml").2 = true ∧
        load ⟨[("HOME", "/home/tester")]⟩
            (sampleConfig.save (.directory [("config.toml", .file ⟨#[0xff]⟩)]) "config.toml").1
            "config.toml" =
          .ok (some sampleConfig) := by
  have hroot : sampleConfig.HasPlainRoot := by
    rintro _ ⟨⟩
    exact ⟨by decide, by decide⟩
  have hsaved : (sampleConfig.save (.directory [("config.toml", .file ⟨#[0xff]⟩)])
      "config.toml").2 = true := by
    rfl
  have hshallow : sampleConfig.IsShallow := by decide +kernel
  refine ⟨isValid_sampleConfig, hroot, hsaved, ?_⟩
  rw [loads_back isValid_sampleConfig hroot hsaved, if_pos hshallow]

/-! ### Settings that nest too deeply -/

/-- A number in so many arrays. -/
def wrapped : Nat → Value
  | 0 => .integer 1
  | depth + 1 => .array [wrapped depth]

theorem nesting_wrapped (depth : Nat) : (wrapped depth).nesting = depth := by
  induction depth with
  | zero => rfl
  | succ depth ih => simp [wrapped, Value.nesting, Value.nestingItems, ih]

theorem isSetting_wrapped (depth : Nat) : IsSetting (wrapped depth) := by
  induction depth with
  | zero => exact .integer (by decide) (by decide)
  | succ depth ih => exact .array (List.forall_mem_singleton.2 ih)

def deepConfig : Config :=
  { empty with compilation := some [("x", wrapped (maxDepth + 1))] }

theorem not_loads_back_of_deep :
    deepConfig.IsValid ∧ deepConfig.HasPlainRoot ∧
      (deepConfig.save (.directory []) "config.toml").2 = true ∧
        load ⟨[]⟩ (deepConfig.save (.directory []) "config.toml").1 "config.toml" =
          .error .malformed := by
  have hvalid : deepConfig.IsValid := by
    refine ⟨nofun, ?_, ?_⟩
    · rintro table ⟨⟩
      exact List.pairwise_singleton ..
    · rintro table ⟨⟩
      exact List.forall_mem_singleton.2 (isSetting_wrapped _)
  have hsaved : (deepConfig.save (.directory []) "config.toml").2 = true := by
    rfl
  have hsections : (Outline.ofTable deepConfig.toTable).sections =
      [⟨.table, [], "compilation", [⟨[], "x", wrapped (maxDepth + 1)⟩]⟩] := by
    rfl
  have hdeep : ¬ deepConfig.IsShallow := by
    rintro ⟨-, hshallow⟩
    rw [hsections, List.forall_mem_singleton] at hshallow
    have hnesting := (hshallow.2 _ List.mem_cons_self).2
    rw [nesting_wrapped] at hnesting
    exact absurd hnesting (by decide)
  refine ⟨hvalid, nofun, hsaved, ?_⟩
  rw [load_save hvalid hsaved, if_neg hdeep]

end Scriptorium.Config
