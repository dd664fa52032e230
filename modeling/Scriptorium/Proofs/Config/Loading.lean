import Scriptorium.Proofs.Config.Saving
import Scriptorium.Proofs.Settings.Reading

/-!
# Configurations that were loaded

Every configuration that comes out of a file is valid: its table is proper, and what does not fit is
refused. So it can be saved and loaded again, and then it is the same but for its root, which each
time that it is loaded is expanded once more. Nothing protects a root that still refers to the
environment after it was expanded, be it by a doubled dollar sign or by the value of a variable.
-/

namespace Scriptorium.Config

open Settings

variable {config : Config} {value adopted : Value}

/-! ### Settings that were adopted -/

theorem forall₂_of_adoptItems? {items adopted : List Value} (h : adoptItems? items = some adopted) :
    List.Forall₂ (fun item new => adopt? item = some new) items adopted := by
  induction items generalizing adopted with
  | nil =>
      cases h
      exact .nil
  | cons item items ih =>
      obtain ⟨new, hnew, h⟩ := Option.bind_eq_some_iff.1 h
      obtain ⟨others, hothers, heq⟩ := Option.bind_eq_some_iff.1 h
      cases heq
      exact .cons hnew (ih hothers)

theorem forall₂_of_adoptEntries? {entries adopted : Table}
    (h : adoptEntries? entries = some adopted) :
    List.Forall₂ (fun entry new => entry.1 = new.1 ∧ adopt? entry.2 = some new.2) entries
      adopted := by
  induction entries generalizing adopted with
  | nil =>
      cases h
      exact .nil
  | cons entry entries ih =>
      obtain ⟨new, hnew, h⟩ := Option.bind_eq_some_iff.1 h
      obtain ⟨others, hothers, heq⟩ := Option.bind_eq_some_iff.1 h
      cases heq
      exact .cons ⟨rfl, hnew⟩ (ih hothers)

theorem keysSorted_of_forall₂ {entries adopted : Table}
    (h : List.Forall₂ (fun entry new => entry.1 = new.1 ∧ adopt? entry.2 = some new.2) entries
      adopted) (hsorted : KeysSorted entries) : KeysSorted adopted := by
  have hkeys : entries.map Prod.fst = adopted.map Prod.fst := by
    clear hsorted
    induction h with
    | nil => rfl
    | cons hhead _ ih => rw [List.map_cons, List.map_cons, hhead.1, ih]
  have hpairs : (entries.map Prod.fst).Pairwise (· < ·) := List.pairwise_map.2 hsorted
  rw [hkeys] at hpairs
  exact List.pairwise_map.1 hpairs

theorem forall_mem_of_forall₂ {α β : Type} {R : α → β → Prop} {P : β → Prop} {old : List α}
    {new : List β} (h : List.Forall₂ R old new) (hnew : ∀ a ∈ old, ∀ b, R a b → P b) :
    ∀ b ∈ new, P b := by
  induction h with
  | nil => exact List.forall_mem_nil _
  | cons hhead _ ih =>
      obtain ⟨hfirst, hothers⟩ := List.forall_mem_cons.1 hnew
      exact List.forall_mem_cons.2 ⟨hfirst _ hhead, ih hothers⟩

theorem isSetting_of_scalar (h : value.IsScalar) (hadopt : adopt? value = some adopted) :
    IsSetting adopted := by
  cases value with
  | integer value =>
      rw [adopt?] at hadopt
      split at hadopt
      · next hrange =>
          cases hadopt
          exact .integer hrange.1 hrange.2
      · cases hadopt
  | float value =>
      cases hadopt
      exact .float value
  | excess => cases hadopt
  | boolean value =>
      cases hadopt
      exact .boolean value
  | moment value =>
      cases hadopt
      exact .moment h
  | string | array | table => exact h.elim

/-- A table with the mark of a date-time is adopted as a date-time that was read. -/
theorem isSetting_of_marked {entry : String × Value} {entries : Table} (hkey : entry.1 = momentKey)
    (hadopt : adopt? (.table (entry :: entries)) = some adopted) : IsSetting adopted := by
  simp only [adopt?, if_pos hkey] at hadopt
  split at hadopt
  · obtain ⟨moment, hmoment, rfl⟩ := Option.map_eq_some_iff.1 hadopt
    exact .moment (Moment.isValid_of_read? hmoment)
  · cases hadopt

/-- What is adopted of a proper value is a setting. -/
theorem isSetting_of_adopt? (h : value.IsProper) (hadopt : adopt? value = some adopted) :
    IsSetting adopted := by
  induction h generalizing adopted with
  | scalar h => exact isSetting_of_scalar h hadopt
  | string text =>
      cases hadopt
      exact .string text
  | array h ih =>
      obtain ⟨new, hnew, rfl⟩ := Option.map_eq_some_iff.1 hadopt
      exact .array (forall_mem_of_forall₂ (forall₂_of_adoptItems? hnew) fun item hitem _ =>
        ih item hitem)
  | @table entries sorted h ih =>
      -- only the first key tells whether the table stands for a date-time
      by_cases hmarked : ∃ entry ∈ entries.head?, entry.1 = momentKey
      · obtain ⟨entry, hentry, hkey⟩ := hmarked
        obtain ⟨others, rfl⟩ := List.head?_eq_some_iff.1 hentry
        exact isSetting_of_marked hkey hadopt
      · have hunmarked : ∀ entry ∈ entries.head?, entry.1 ≠ momentKey :=
          fun entry hentry hkey => hmarked ⟨entry, hentry, hkey⟩
        rw [adopt?_table hunmarked] at hadopt
        obtain ⟨new, hnew, rfl⟩ := Option.map_eq_some_iff.1 hadopt
        have hentries := forall₂_of_adoptEntries? hnew
        refine .table (keysSorted_of_forall₂ hentries sorted) ?_ ?_
        · cases hentries with
          | nil => exact hunmarked
          | cons hhead _ =>
              rintro _ ⟨⟩
              rw [← hhead.1]
              exact hunmarked _ rfl
        · exact forall_mem_of_forall₂ hentries fun entry hentry _ hadopted =>
            ih entry hentry hadopted.2

theorem isSetting_of_compilationOf? (h : value.IsProper) {table : Table}
    (htable : compilationOf? value = some table) :
    KeysSorted table ∧ ∀ entry ∈ table, IsSetting entry.2 := by
  unfold compilationOf? at htable
  split at htable
  · obtain ⟨hsorted, hentries⟩ := Value.isProper_table_iff.1 h
    have hnew := forall₂_of_adoptEntries? htable
    refine ⟨keysSorted_of_forall₂ hnew hsorted, ?_⟩
    exact forall_mem_of_forall₂ hnew fun entry hentry _ hadopted =>
      isSetting_of_adopt? (hentries entry hentry) hadopted.2
  · cases htable
    exact ⟨List.pairwise_singleton .., List.forall_mem_singleton.2 (.string _)⟩
  · cases htable

/-! ### Configurations that were read -/

theorem isValid_empty : empty.IsValid :=
  ⟨nofun, nofun, nofun⟩

theorem lt_of_limitOf? {limit : Nat} (h : limitOf? value = some limit) : limit < wordCount := by
  unfold limitOf? at h
  split at h
  · split at h
    · next hrange =>
        cases h
        omega
    · cases h
  · cases h

theorem isValid_addEntry {config' : Config} {entry : String × Value} (h : config.IsValid)
    (hentry : entry.2.IsProper) (hadd : addEntry config entry = some config') :
    config'.IsValid := by
  obtain ⟨key, value⟩ := entry
  unfold addEntry at hadd
  simp only at hadd
  split at hadd
  · obtain ⟨limit, hlimit, heq⟩ := Option.bind_eq_some_iff.1 hadd
    cases heq
    refine ⟨?_, h.sorted, h.settings⟩
    rintro _ ⟨⟩
    exact lt_of_limitOf? hlimit
  split at hadd
  · obtain ⟨policy, -, heq⟩ := Option.bind_eq_some_iff.1 hadd
    cases heq
    exact ⟨h.limit, h.sorted, h.settings⟩
  split at hadd
  · obtain ⟨root, -, heq⟩ := Option.bind_eq_some_iff.1 hadd
    cases heq
    exact ⟨h.limit, h.sorted, h.settings⟩
  split at hadd
  · obtain ⟨table, htable, heq⟩ := Option.bind_eq_some_iff.1 hadd
    cases heq
    obtain ⟨hsorted, hsettings⟩ := isSetting_of_compilationOf? hentry htable
    refine ⟨h.limit, ?_, ?_⟩
    · rintro _ ⟨⟩
      exact hsorted
    · rintro _ ⟨⟩
      exact hsettings
  split at hadd
  · cases hadd
    exact h
  · cases hadd

theorem isValid_foldlM {config' : Config} {entries : Table} (h : config.IsValid)
    (hentries : ∀ entry ∈ entries, entry.2.IsProper)
    (hread : entries.foldlM addEntry config = some config') : config'.IsValid := by
  induction entries generalizing config with
  | nil =>
      cases hread
      exact h
  | cons entry entries ih =>
      obtain ⟨hentry, hentries⟩ := List.forall_mem_cons.1 hentries
      rw [List.foldlM_cons] at hread
      obtain ⟨between, hbetween, hrest⟩ := Option.bind_eq_some_iff.1 hread
      exact ih (isValid_addEntry h hentry hbetween) hentries hrest

theorem isValid_of_parse? {text : String} (h : parse? text = some config) : config.IsValid := by
  obtain ⟨table, htable, hconfig⟩ := Option.bind_eq_some_iff.1 h
  have hproper := Table.isProper_of_read? htable
  exact isValid_foldlM isValid_empty (Value.isProper_table_iff.1 hproper).2 hconfig

theorem IsValid.expandRoot (h : config.IsValid) (environment : Environment) :
    (config.expandRoot environment).IsValid :=
  ⟨h.limit, h.sorted, h.settings⟩

theorem isValid_of_load {environment : Environment} {top : Node} {path : String}
    (h : load environment top path = .ok (some config)) : config.IsValid := by
  unfold load at h
  split at h
  · cases h
  · cases h
  · split at h
    · cases h
    · split at h
      · cases h
      · next hparse =>
          cases h
          exact (isValid_of_parse? hparse).expandRoot environment

/-! ### Roots that are expanded again -/

variable {environment : Environment} {top : Node} {path : String}

/-- A root stays as it is when it cannot be expanded, or expanding it changes nothing. -/
theorem scriptsRoot_expandRoot_iff :
    (config.expandRoot environment).scriptsRoot = config.scriptsRoot ↔
      ∀ root ∈ config.scriptsRoot, ∀ again, environment.expand? root.toList = some again →
        again = root.toList := by
  obtain ⟨limit, policy, root, compilation⟩ := config
  cases root with
  | none => exact ⟨fun _ => nofun, fun _ => rfl⟩
  | some root =>
      simp only [expandRoot, Option.map_some, Option.some.injEq, Option.mem_def, forall_eq']
      cases environment.expand? root.toList with
      | none => simp
      | some again => simp [← String.toList_inj]

/-- **What was loaded and saved is loaded with its root expanded once more**, and is otherwise the
same, if the limits of the reader allow it. So the root is kept just if it is settled: nothing in it
can be expanded, or expanding it changes nothing. -/
theorem root_expanded_again (hloaded : load environment top path = .ok (some config))
    (hsaved : (config.save top path).2 = true) :
    load environment (config.save top path).1 path =
        (if config.IsShallow then .ok (some (config.expandRoot environment))
        else .error .malformed) ∧
      ((config.expandRoot environment).scriptsRoot = config.scriptsRoot ↔
        ∀ root ∈ config.scriptsRoot, ∀ again, environment.expand? root.toList = some again →
          again = root.toList) ∧
      (config.HasPlainRoot → config.expandRoot environment = config) :=
  ⟨load_save (isValid_of_load hloaded) hsaved environment, scriptsRoot_expandRoot_iff,
    expandRoot_eq_self environment⟩

/-- A configuration that only has a root. -/
def rooted (root : String) : Config :=
  { empty with scriptsRoot := some root }

/-- A directory with the file of a configuration that only has a root. -/
def rootedFile (root : String) : Node :=
  ((rooted root).save (.directory []) "config.toml").1

def testHome : Environment :=
  ⟨[("HOME", "/home/tester")]⟩

theorem isShallow_rooted (root : String) : (rooted root).IsShallow := by
  have hbody : (Outline.ofTable (rooted root).toTable).body =
      [⟨[], "on_duplicate", .string "reject"⟩, ⟨[], "scripts_root", .string root⟩] := by
    rfl
  refine ⟨?_, nofun⟩
  rw [hbody]
  have hpath : 0 < maxDepth := by decide
  exact List.forall_mem_cons.2 ⟨⟨hpath, Nat.zero_le _⟩,
    List.forall_mem_singleton.2 ⟨hpath, Nat.zero_le _⟩⟩

theorem load_rootedFile (root : String) (environment : Environment) :
    load environment (rootedFile root) "config.toml" =
      .ok (some ((rooted root).expandRoot environment)) := by
  have hvalid : (rooted root).IsValid := ⟨nofun, nofun, nofun⟩
  have hsaved : ((rooted root).save (.directory []) "config.toml").2 = true := by
    rfl
  rw [rootedFile, load_save hvalid hsaved, if_pos (isShallow_rooted root)]

theorem expandRoot_rooted {root expanded : String}
    (h : environment.expand? root.toList = some expanded.toList) :
    (rooted root).expandRoot environment = rooted expanded := by
  simp only [rooted, expandRoot, Option.map_some, h, String.ofList_toList]

theorem root_expanded_again_home :
    load testHome (rootedFile "$HOME/scripts") "config.toml" =
        .ok (some (rooted "/home/tester/scripts")) ∧
      ((rooted "/home/tester/scripts").save (rootedFile "$HOME/scripts") "config.toml").2 = true ∧
        load testHome
            ((rooted "/home/tester/scripts").save (rootedFile "$HOME/scripts") "config.toml").1
            "config.toml" =
          .ok (some (rooted "/home/tester/scripts")) := by
  have hexpand : testHome.expand? "$HOME/scripts".toList = some "/home/tester/scripts".toList := by
    rfl
  have hloaded := load_rootedFile "$HOME/scripts" testHome
  rw [expandRoot_rooted hexpand] at hloaded
  have hsaved : ((rooted "/home/tester/scripts").save (rootedFile "$HOME/scripts")
      "config.toml").2 = true := by
    rfl
  obtain ⟨hagain, -, hplain⟩ := root_expanded_again hloaded hsaved
  refine ⟨hloaded, hsaved, ?_⟩
  rw [hagain, if_pos (isShallow_rooted _), hplain]
  rintro _ ⟨⟩
  exact ⟨by decide, by decide⟩

theorem not_kept_of_escaped :
    load testHome (rootedFile "$$HOME") "config.toml" = .ok (some (rooted "$HOME")) ∧
      ((rooted "$HOME").save (rootedFile "$$HOME") "config.toml").2 = true ∧
        load testHome ((rooted "$HOME").save (rootedFile "$$HOME") "config.toml").1
            "config.toml" = .ok (some (rooted "/home/tester")) := by
  have hescaped : testHome.expand? "$$HOME".toList = some "$HOME".toList := by
    rfl
  have hexpand : testHome.expand? "$HOME".toList = some "/home/tester".toList := by
    rfl
  have hvalid : (rooted "$HOME").IsValid := ⟨nofun, nofun, nofun⟩
  have hsaved : ((rooted "$HOME").save (rootedFile "$$HOME") "config.toml").2 = true := by
    rfl
  refine ⟨?_, hsaved, ?_⟩
  · rw [load_rootedFile, expandRoot_rooted hescaped]
  · rw [load_save hvalid hsaved, if_pos (isShallow_rooted _), expandRoot_rooted hexpand]

end Scriptorium.Config
