import Mathlib.Tactic.ByContra
import Scriptorium.Host.Loading
import Scriptorium.Proofs.Files.Scanning

/-!
# Scripts registered from files

A script that was listed is read again by its path, which is put together from the root and its
relative path. If that path is not too long it leads back to the very file that was listed, so the
only other ways to fail are a file that is not text and a name that is taken. No name is listed
twice, so what was registered before in the same loading never stands in the way.
-/

namespace Scriptorium

/-! ### The path of a script -/

theorem segments_ne_nil (path : String) : segments path ≠ [] :=
  mt List.map_eq_nil_iff.1 (segmentsOf_ne_nil path.toList)

theorem segments_append_name (path : String) {name : String} (h : '/' ∉ name.toList) :
    segments (path ++ "/" ++ name) = segments path ++ [name] := by
  have htoList : (path ++ "/" ++ name).toList = path.toList ++ '/' :: name.toList := by simp
  rw [segments, htoList, segmentsOf_append, segmentsOf_eq_singleton h]
  simp [segments]

namespace Node

variable {node directory top : Node} {entries : List (String × Node)} {place : List String}
  {name root relative text : String} {extensions names : List String}

theorem segments_foldl_append (root : String) (hslash : ∀ name ∈ place, '/' ∉ name.toList) :
    segments (place.foldl (fun path segment => path ++ "/" ++ segment) root) =
      segments root ++ place := by
  induction place generalizing root with
  | nil => rw [List.foldl_nil, List.append_nil]
  | cons name rest ih =>
      obtain ⟨hname, hrest⟩ := List.forall_mem_cons.1 hslash
      rw [List.foldl_cons, ih _ hrest, segments_append_name root hname, List.append_assoc]
      rfl

theorem scriptPath_eq (root : String) (h : ∀ name ∈ segments relative, IsEntryName name) :
    scriptPath root relative =
      (segments relative).foldl (fun path segment => path ++ "/" ++ segment) root := by
  rw [scriptPath, List.filter_eq_self.2 fun name hname => by simpa using (h name hname).1]

theorem segments_scriptPath (root : String) (h : ∀ name ∈ segments relative, IsEntryName name) :
    segments (scriptPath root relative) = segments root ++ segments relative := by
  rw [scriptPath_eq root h, segments_foldl_append root fun name hname => (h name hname).2.2.2]

/-- Steps to names lead down the tree by these names. -/
theorem bind_foldlM_step (hplace : top.descend place = some node)
    (hnames : ∀ name ∈ names, IsEntryName name) :
    (names.foldlM top.step place).bind top.descend = node.descend names := by
  induction names generalizing place node with
  | nil => exact hplace
  | cons name rest ih =>
      obtain ⟨⟨hempty, hdot, hup, -⟩, hrest⟩ := List.forall_mem_cons.1 hnames
      rw [List.foldlM_cons, descend_cons]
      cases node with
      | file content =>
          have hstep : top.step place name = none := by
            simp only [step, hplace]
          rw [hstep]
          rfl
      | directory entries =>
          cases hchild : entries.lookup name with
          | none =>
              have hstep : top.step place name = none := by
                simp [step, hplace, hempty, hdot, hup, hchild]
              rw [hstep, Node.entries, hchild]
              rfl
          | some child =>
              have hstep : top.step place name = some (place ++ [name]) := by
                simp [step, hplace, hempty, hdot, hup, hchild]
              rw [hstep, Node.entries, hchild]
              exact ih (by rw [descend_snoc hplace, hchild]) hrest

/-- The path of a script leads to what its relative path leads to below the root. -/
theorem find?_scriptPath (hroot : top.find? root = some node)
    (hnames : ∀ name ∈ segments relative, IsEntryName name)
    (hshort : (scriptPath root relative).utf8ByteSize ≤ maxPathSize) :
    top.find? (scriptPath root relative) = node.descend (segments relative) := by
  obtain ⟨place, hlocate, hplace⟩ := Option.bind_eq_some_iff.1 hroot
  have hsegments := segments_scriptPath root hnames
  have hne : scriptPath root relative ≠ "" := by
    intro heq
    have hlength := congrArg List.length hsegments
    rw [heq, List.length_append] at hlength
    have hone : (segments "").length = 1 := rfl
    have hfront := List.length_pos_iff.2 (segments_ne_nil root)
    have hback := List.length_pos_iff.2 (segments_ne_nil relative)
    omega
  have hsteps : (segments root).foldlM top.step [] = some place := by
    unfold locate at hlocate
    split at hlocate
    · cases hlocate
    · exact hlocate
  rw [find?, locate, if_neg (not_or.2 ⟨hne, Nat.not_lt.2 hshort⟩), hsegments, List.foldlM_append,
    hsteps]
  exact bind_foldlM_step hplace hnames

theorem size_pathBelow_le_foldl (place : List String) {path longer : String}
    (h : path.utf8ByteSize ≤ longer.utf8ByteSize) :
    (pathBelow path place).utf8ByteSize ≤
      (place.foldl (fun path segment => path ++ "/" ++ segment) longer).utf8ByteSize := by
  induction place generalizing path longer with
  | nil => exact h
  | cons name rest ih =>
      rw [List.foldl_cons]
      have hslash : "/".utf8ByteSize = 1 := rfl
      have hstep : (joinPath path name).utf8ByteSize ≤ (longer ++ "/" ++ name).utf8ByteSize := by
        unfold joinPath
        simp only [String.utf8ByteSize_append]
        split
        · omega
        · split <;> simp only [String.utf8ByteSize_append] <;> omega
      exact ih hstep

/-- The walk came to a script by a path that is not longer than the one it is read by. -/
theorem size_pathBelow_le_scriptPath (root : String)
    (hnames : ∀ name ∈ segments relative, IsEntryName name) :
    (pathBelow root (segments relative)).utf8ByteSize ≤
      (scriptPath root relative).utf8ByteSize := by
  rw [scriptPath_eq root hnames]
  exact size_pathBelow_le_foldl _ (Nat.le_refl _)

/-! ### Reading what was listed -/

/-- A script as a scan lists it: the walk came by its place and took what is there for a file. -/
structure Listed (directory : Node) (root name : String) : Prop where
  passes : PassesForFile directory root (segments name)
  isEntryName : ∀ segment ∈ segments name, IsEntryName segment

/-- The file of a script holds the bytes of a text. -/
def HoldsText (directory : Node) (name text : String) : Prop :=
  directory.descend (segments name) = some (.file text.toUTF8)

theorem listed_of_scan (hproper : top.IsProper)
    (hroot : top.find? root = some (.directory entries))
    (hscan : top.scan root extensions = .ok names) :
    names.Nodup ∧ ∀ name ∈ names, Listed (.directory entries) root name := by
  rw [scan_eq_ok hroot] at hscan
  obtain rfl := Except.ok.inj hscan
  have hbelow := isProper_of_find? hproper hroot
  have hsize := size_le_of_find? hroot
  constructor
  · apply List.Nodup.map_on
    · intro place hplace other hother heq
      rw [← segments_of_mem_found hbelow hsize hplace, heq,
        segments_of_mem_found hbelow hsize hother]
    · exact (pairwise_found hbelow root extensions).imp ne_of_lt
  · intro name hname
    obtain ⟨place, hplace, rfl⟩ := List.mem_map.1 hname
    obtain ⟨hpasses, -⟩ := (mem_found_iff hbelow).1 hplace
    obtain ⟨met, hmet, -⟩ := hpasses.1
    have hsegments := segments_of_mem_found hbelow hsize hplace
    rw [← hsegments] at hpasses hmet
    exact ⟨hpasses, hbelow.isEntryName_of_descend hmet⟩

/-- Whatever was listed is a file, unless the path it is read by is too long. -/
theorem Listed.exists_file (h : Listed directory root name)
    (hshort : (scriptPath root name).utf8ByteSize ≤ maxPathSize) :
    ∃ content, directory.descend (segments name) = some (.file content) := by
  obtain ⟨met, hmet, hlong⟩ := h.passes.1
  cases met with
  | file content => exact ⟨content, hmet⟩
  | directory entries =>
      have hbelow := size_pathBelow_le_scriptPath root h.isEntryName
      exact absurd (hlong rfl) (Nat.not_lt.2 (hbelow.trans hshort))

theorem readScript_of_long (top : Node)
    (hlong : maxPathSize < (scriptPath root name).utf8ByteSize) :
    top.readScript root name = .error (.missing (scriptPath root name)) := by
  have hnone : top.find? (scriptPath root name) = none := by
    rw [Option.eq_none_iff_forall_ne_some]
    intro node hnode
    exact absurd (size_le_of_find? hnode) (Nat.not_le.2 hlong)
  rw [readScript, readText, hnone]

theorem readScript_of_holdsText (hroot : top.find? root = some directory)
    (hlisted : Listed directory root name)
    (hshort : (scriptPath root name).utf8ByteSize ≤ maxPathSize)
    (hholds : HoldsText directory name text) : top.readScript root name = .ok text := by
  have hfound : top.find? (scriptPath root name) = some (.file text.toUTF8) := by
    rw [find?_scriptPath hroot hlisted.isEntryName hshort, hholds]
  have htext : String.fromUTF8? text.toUTF8 = some text := dif_pos text.isValidUTF8
  simp only [readScript, readText, hfound, htext]

theorem readScript_of_invalid (hroot : top.find? root = some directory)
    (hlisted : Listed directory root name)
    (hshort : (scriptPath root name).utf8ByteSize ≤ maxPathSize) {content : ByteArray}
    (hfile : directory.descend (segments name) = some (.file content))
    (hinvalid : ¬ content.IsValidUTF8) : top.readScript root name = .error .notText := by
  have hfound : top.find? (scriptPath root name) = some (.file content) := by
    rw [find?_scriptPath hroot hlisted.isEntryName hshort, hfile]
  have hnone : String.fromUTF8? content = none := dif_neg hinvalid
  simp only [readScript, readText, hfound, hnone]

end Node

namespace Store

variable {store next : Store} {directory top : Node} {entries : List (String × Node)}
  {root name text : String} {extensions names before behind : List String}
  {scripts : List (String × String)} {last : Logged Store} {cause : LoadError}

/-! ### Registering in turn -/

/-- Registers texts under names in turn. All of it is refused if one of them is. -/
def registerAll (store : Store) : List (String × String) → Except Error (Logged Store)
  | [] => .ok (.silent store)
  | (name, text) :: rest => do
      let registered ← store.register name text
      let last ← registered.value.registerAll rest
      return registered.andThen fun _ => last

theorem registerAll_cons_eq_ok_iff {rest : List (String × String)} :
    store.registerAll ((name, text) :: rest) = .ok last ↔
      ∃ registered others, store.register name text = .ok registered ∧
        registered.value.registerAll rest = .ok others ∧
        last = registered.andThen fun _ => others := by
  rw [registerAll]
  cases store.register name text with
  | error cause => simp [bind, Except.bind]
  | ok registered =>
      cases hrest : registered.value.registerAll rest with
      | error cause => simp [bind, Except.bind, hrest]
      | ok others => simp [bind, Except.bind, pure, Except.pure, hrest, eq_comm]

theorem mem_names_put {document : Document} :
    name ∈ (store.put document).names ↔ name ∈ store.names ∨ name = document.name := by
  rw [names_put]
  split
  · next htracked =>
      rw [contains_iff_mem_names] at htracked
      exact ⟨.inl, fun h => h.elim id fun heq => heq ▸ htracked⟩
  · rw [List.mem_append, List.mem_singleton]

theorem register_eq_error (hpolicy : store.policy = .reject) (htracked : name ∈ store.names)
    (text : String) : store.register name text = .error (.alreadyTracked name) := by
  rw [← contains_iff_mem_names] at htracked
  simp only [register, htracked, hpolicy]

theorem exists_register (hfree : store.policy = .reject → name ∉ store.names) (text : String) :
    ∃ registered, store.register name text = .ok registered ∧
      registered.value = store.put (.new name text store.limit) := by
  unfold register
  split
  · next htracked hpolicy => exact absurd (contains_iff_mem_names.1 htracked) (hfree hpolicy)
  · exact ⟨_, rfl, rfl⟩
  · exact ⟨_, rfl, rfl⟩

/-- Different names that are free can be registered one after another. -/
theorem exists_registerAll (hnodup : (scripts.map Prod.fst).Nodup)
    (hfree : store.policy = .reject → ∀ name ∈ scripts.map Prod.fst, name ∉ store.names) :
    ∃ last, store.registerAll scripts = .ok last ∧ last.value.policy = store.policy ∧
      ∀ name, name ∈ last.value.names ↔ name ∈ store.names ∨ name ∈ scripts.map Prod.fst := by
  induction scripts generalizing store with
  | nil => exact ⟨_, rfl, rfl, by simp⟩
  | cons script rest ih =>
      obtain ⟨first, text⟩ := script
      obtain ⟨hfirst, hrest⟩ := List.nodup_cons.1 hnodup
      obtain ⟨registered, hregister, hvalue⟩ :=
        exists_register (fun hpolicy => hfree hpolicy first List.mem_cons_self) text
      have hpolicy : registered.value.policy = store.policy := by
        rw [hvalue, put]
        split <;> rfl
      have hnames (name : String) :
          name ∈ registered.value.names ↔ name ∈ store.names ∨ name = first := by
        rw [hvalue, mem_names_put]
        rfl
      have hfree' : registered.value.policy = .reject →
          ∀ name ∈ rest.map Prod.fst, name ∉ registered.value.names := by
        intro hreject name hname
        rw [hnames, not_or]
        rw [hpolicy] at hreject
        refine ⟨hfree hreject name (List.mem_cons_of_mem _ hname), ?_⟩
        rintro rfl
        exact hfirst hname
      obtain ⟨last, hlast, hpolicy', hnames'⟩ := ih hrest hfree'
      refine ⟨registered.andThen fun _ => last, ?_, hpolicy'.trans hpolicy, ?_⟩
      · exact registerAll_cons_eq_ok_iff.2 ⟨registered, last, hregister, hlast, rfl⟩
      · intro name
        rw [Logged.andThen_value, hnames', hnames, List.map_cons, List.mem_cons, or_assoc]

/-- Loading goes on from the scripts registered so far. -/
theorem registerFiles_append
    (hread : ∀ script ∈ scripts, top.readScript root script.1 = .ok script.2)
    (hregister : store.registerAll scripts = .ok last) (rest : List String) :
    store.registerFiles top root (scripts.map Prod.fst ++ rest) =
      last.andThen fun next => (next.registerFiles top root rest).map fun (final, result) =>
        (final, result.map (scripts.map Prod.fst ++ ·)) := by
  induction scripts generalizing store last with
  | nil =>
      cases hregister
      have hsame (result : Except LoadError (List String)) : result.map ([] ++ ·) = result := by
        cases result <;> rfl
      simp only [List.map_nil, hsame]
      rfl
  | cons script scripts ih =>
      obtain ⟨first, text⟩ := script
      obtain ⟨hfirst, hscripts⟩ := List.forall_mem_cons.1 hread
      obtain ⟨registered, others, hok, hothers, rfl⟩ := registerAll_cons_eq_ok_iff.1 hregister
      have hmap (result : Except LoadError (List String)) :
          (result.map (scripts.map Prod.fst ++ ·)).map (first :: ·) =
            result.map (first :: scripts.map Prod.fst ++ ·) := by
        cases result <;> rfl
      rw [List.map_cons, List.cons_append, registerFiles]
      simp only [hfirst, hok, ← hmap]
      simp only [Logged.andThen, ih hscripts hothers, Logged.map, List.append_assoc]

/-! ### Where loading stops -/

/-- Why a script that was listed below a directory cannot be loaded into a store: it is read by a
path that is too long, its file is not text, or its name is taken. -/
inductive CannotLoad (store : Store) (directory : Node) (root name : String) :
    LoadError → Prop where
  | tooLong (long : maxPathSize < (Node.scriptPath root name).utf8ByteSize) :
      CannotLoad store directory root name (.missing (Node.scriptPath root name))
  | notText {content : ByteArray}
      (short : (Node.scriptPath root name).utf8ByteSize ≤ maxPathSize)
      (found : directory.descend (segments name) = some (.file content))
      (invalid : ¬ content.IsValidUTF8) :
      CannotLoad store directory root name .notText
  | taken {text : String} (short : (Node.scriptPath root name).utf8ByteSize ≤ maxPathSize)
      (holds : directory.HoldsText name text) (policy : store.policy = .reject)
      (tracked : name ∈ store.names) :
      CannotLoad store directory root name (.refused (.alreadyTracked name))

/-- A store comes to another one by registering scripts of a directory in order, each with the text
of its file. -/
def Loads (store : Store) (directory : Node) (names : List String) (last : Logged Store) : Prop :=
  ∃ scripts, scripts.map Prod.fst = names ∧
    (∀ script ∈ scripts, directory.HoldsText script.1 script.2) ∧
    store.registerAll scripts = .ok last

theorem exists_text (hroot : top.find? root = some directory)
    (hlisted : directory.Listed root name)
    (hloads : ∀ cause, ¬ store.CannotLoad directory root name cause) :
    ∃ text, directory.HoldsText name text ∧ top.readScript root name = .ok text ∧
      (store.policy = .reject → name ∉ store.names) := by
  have hshort : (Node.scriptPath root name).utf8ByteSize ≤ maxPathSize :=
    Nat.le_of_not_lt fun hlong => hloads _ (.tooLong hlong)
  obtain ⟨content, hfile⟩ := hlisted.exists_file hshort
  have hvalid : content.IsValidUTF8 := by
    by_contra hinvalid
    exact hloads _ (.notText hshort hfile hinvalid)
  have hholds : directory.HoldsText name (String.fromUTF8 content hvalid) := hfile
  refine ⟨_, hholds, Node.readScript_of_holdsText hroot hlisted hshort hholds, ?_⟩
  intro hpolicy htracked
  exact hloads _ (.taken hshort hholds hpolicy htracked)

theorem registerFiles_of_cannotLoad (hroot : top.find? root = some directory)
    (hlisted : directory.Listed root name) (h : store.CannotLoad directory root name cause)
    (hpolicy : next.policy = store.policy) (hnames : ∀ name ∈ store.names, name ∈ next.names)
    (behind : List String) :
    next.registerFiles top root (name :: behind) = .silent (next, .error cause) := by
  rw [registerFiles]
  cases h with
  | tooLong long => rw [Node.readScript_of_long top long]
  | notText short found invalid =>
      rw [Node.readScript_of_invalid hroot hlisted short found invalid]
  | @taken text short holds policy tracked =>
      have hregister := register_eq_error (hpolicy.trans policy) (hnames _ tracked) text
      simp only [Node.readScript_of_holdsText hroot hlisted short holds, hregister]

theorem exists_scripts {P : String → String → Prop} (h : ∀ name ∈ names, ∃ text, P name text) :
    ∃ scripts : List (String × String), scripts.map Prod.fst = names ∧
      ∀ script ∈ scripts, P script.1 script.2 := by
  induction names with
  | nil => exact ⟨[], rfl, List.forall_mem_nil _⟩
  | cons name rest ih =>
      obtain ⟨⟨text, htext⟩, hrest⟩ := List.forall_mem_cons.1 h
      obtain ⟨scripts, rfl, hscripts⟩ := ih hrest
      exact ⟨(name, text) :: scripts, rfl, List.forall_mem_cons.2 ⟨htext, hscripts⟩⟩

/-- Scripts that can be loaded are registered, and loading goes on after them. -/
theorem exists_loads (hroot : top.find? root = some directory) (hnodup : before.Nodup)
    (hlisted : ∀ name ∈ before, directory.Listed root name)
    (hloads : ∀ name ∈ before, ∀ cause, ¬ store.CannotLoad directory root name cause) :
    ∃ last, store.Loads directory before last ∧ last.value.policy = store.policy ∧
      (∀ name ∈ store.names, name ∈ last.value.names) ∧
      ∀ rest, store.registerFiles top root (before ++ rest) =
        last.andThen fun next => (next.registerFiles top root rest).map fun (final, result) =>
          (final, result.map (before ++ ·)) := by
  have htexts : ∀ name ∈ before, ∃ text, directory.HoldsText name text ∧
      top.readScript root name = .ok text ∧ (store.policy = .reject → name ∉ store.names) :=
    fun name hname => exists_text hroot (hlisted name hname) (hloads name hname)
  obtain ⟨scripts, rfl, hscripts⟩ := exists_scripts htexts
  have hfree : store.policy = .reject → ∀ name ∈ scripts.map Prod.fst, name ∉ store.names := by
    intro hreject name hname
    obtain ⟨script, hscript, rfl⟩ := List.mem_map.1 hname
    exact (hscripts script hscript).2.2 hreject
  obtain ⟨last, hlast, hpolicy, hnames⟩ := exists_registerAll hnodup hfree
  refine ⟨last, ⟨scripts, rfl, fun script hscript => (hscripts script hscript).1, hlast⟩, hpolicy,
    fun name hname => (hnames name).2 (.inl hname), ?_⟩
  exact registerFiles_append (fun script hscript => (hscripts script hscript).2.1) hlast

/-- All scripts are loaded if each of them can be. -/
theorem loadScripts_of_all (hproper : top.IsProper)
    (hroot : top.find? root = some (.directory entries))
    (hscan : top.scan root extensions = .ok names)
    (hloads : ∀ name ∈ names, ∀ cause, ¬ store.CannotLoad (.directory entries) root name cause) :
    ∃ last, store.Loads (.directory entries) names last ∧
      store.loadScripts top root extensions =
        ⟨(last.value, .ok names), last.events ++ [.loaded root names.length]⟩ := by
  obtain ⟨hnodup, hlisted⟩ := Node.listed_of_scan hproper hroot hscan
  obtain ⟨last, hlast, -, -, happend⟩ := exists_loads hroot hnodup hlisted hloads
  have hfiles := happend []
  rw [List.append_nil] at hfiles
  refine ⟨last, hlast, ?_⟩
  simp [loadScripts, hscan, hfiles, registerFiles, Logged.andThen, Logged.map, Logged.silent,
    Except.map]

/-- The first script that cannot be loaded ends the loading. Those before it stay registered. -/
theorem loadScripts_of_first (hproper : top.IsProper)
    (hroot : top.find? root = some (.directory entries))
    (hscan : top.scan root extensions = .ok (before ++ name :: behind))
    (hloads : ∀ other ∈ before, ∀ cause,
      ¬ store.CannotLoad (.directory entries) root other cause)
    (h : store.CannotLoad (.directory entries) root name cause) :
    ∃ last, store.Loads (.directory entries) before last ∧
      store.loadScripts top root extensions = ⟨(last.value, .error cause), last.events⟩ := by
  obtain ⟨hnodup, hlisted⟩ := Node.listed_of_scan hproper hroot hscan
  obtain ⟨hbefore, hrest⟩ := List.forall_mem_append.1 hlisted
  obtain ⟨last, hlast, hpolicy, hnames, happend⟩ :=
    exists_loads hroot (List.nodup_append.1 hnodup).1 hbefore hloads
  have hstop := registerFiles_of_cannotLoad hroot (hrest name List.mem_cons_self) h hpolicy hnames
    behind
  refine ⟨last, hlast, ?_⟩
  simp [loadScripts, hscan, happend, hstop, Logged.andThen, Logged.map, Logged.silent, Except.map]

/-- An error is that of a script which cannot be loaded. -/
theorem exists_cannotLoad (hproper : top.IsProper)
    (hroot : top.find? root = some (.directory entries))
    (hscan : top.scan root extensions = .ok names)
    (h : (store.loadScripts top root extensions).value.2 = .error cause) :
    ∃ name ∈ names, store.CannotLoad (.directory entries) root name cause := by
  classical
  cases hfind : names.find? fun name =>
      decide (∃ cause, store.CannotLoad (.directory entries) root name cause) with
  | none =>
      have hloads : ∀ name ∈ names, ∀ cause,
          ¬ store.CannotLoad (.directory entries) root name cause := by
        intro name hname cause hcannot
        exact List.find?_eq_none.1 hfind name hname (decide_eq_true ⟨cause, hcannot⟩)
      obtain ⟨last, -, hload⟩ := loadScripts_of_all hproper hroot hscan hloads
      rw [hload] at h
      cases h
  | some name =>
      obtain ⟨hname, before, behind, rfl, hbefore⟩ := List.find?_eq_some_iff_append.1 hfind
      obtain ⟨first, hfirst⟩ := of_decide_eq_true hname
      have hloads : ∀ other ∈ before, ∀ cause,
          ¬ store.CannotLoad (.directory entries) root other cause := by
        intro other hother cause hcannot
        have hnone := hbefore other hother
        rw [decide_eq_true ⟨cause, hcannot⟩] at hnone
        cases hnone
      obtain ⟨last, -, hload⟩ := loadScripts_of_first hproper hroot hscan hloads hfirst
      rw [hload] at h
      cases h
      exact ⟨name, by simp, hfirst⟩

theorem loadScripts_of_no_root (hroot : ∀ entries, top.find? root ≠ some (.directory entries))
    (store : Store) (extensions : List String) :
    store.loadScripts top root extensions = .silent (store, .error .noRoot) := by
  have hcheck : top.checkRoot root = .error .noRoot := by
    unfold Node.checkRoot
    split
    · next entries hfound => exact absurd hfound (hroot entries)
    · rfl
  have hscan : top.scan root extensions = .error .noRoot := by
    rw [Node.scan, hcheck]
    rfl
  rw [loadScripts, hscan]

/-- A store without scripts has no name that is taken. -/
theorem loadScripts_ne_refused (hproper : top.IsProper) (hstore : store.names = [])
    (root : String) (extensions : List String) (cause : Error) :
    (store.loadScripts top root extensions).value.2 ≠ .error (.refused cause) := by
  intro h
  by_cases hroot : ∃ entries, top.find? root = some (.directory entries)
  · obtain ⟨entries, hroot⟩ := hroot
    obtain ⟨name, -, hcannot⟩ :=
      exists_cannotLoad hproper hroot (Node.scan_eq_ok hroot extensions) h
    cases hcannot with
    | taken short holds policy tracked =>
        rw [hstore] at tracked
        cases tracked
  · rw [loadScripts_of_no_root (not_exists.1 hroot)] at h
    cases h

end Store

/-- **Loading registers the scripts of a scan in order, up to the first that cannot be loaded.** All
that were listed before it stay registered, and it decides about the error: a file that is not text
is named as such before its name is looked at. A file is missing only if its path is too long, and a
host that is made with its scripts never refuses one of them. -/
theorem load_exact {top : Node} (hproper : top.IsProper) (store : Store) (root : String)
    (extensions : List String) :
    ((∀ entries, top.find? root ≠ some (.directory entries)) →
      store.loadScripts top root extensions = .silent (store, .error .noRoot)) ∧
    (∀ entries, top.find? root = some (.directory entries) →
      ∃ names, top.scan root extensions = .ok names ∧
        ((∀ name ∈ names, ∀ cause, ¬ store.CannotLoad (.directory entries) root name cause) →
          ∃ last, store.Loads (.directory entries) names last ∧
            store.loadScripts top root extensions =
              ⟨(last.value, .ok names), last.events ++ [.loaded root names.length]⟩) ∧
        (∀ before name behind cause, names = before ++ name :: behind →
          (∀ other ∈ before, ∀ cause,
            ¬ store.CannotLoad (.directory entries) root other cause) →
          store.CannotLoad (.directory entries) root name cause →
          ∃ last, store.Loads (.directory entries) before last ∧
            store.loadScripts top root extensions = ⟨(last.value, .error cause), last.events⟩) ∧
        ∀ path, (store.loadScripts top root extensions).value.2 = .error (.missing path) →
          ∃ name ∈ names, path = Node.scriptPath root name ∧
            maxPathSize < path.utf8ByteSize) ∧
    ∀ config cause, (Host.load config top extensions).value ≠ .error (.refused cause) := by
  refine ⟨fun hroot => Store.loadScripts_of_no_root hroot store extensions, ?_, ?_⟩
  · intro entries hroot
    have hscan := Node.scan_eq_ok hroot extensions
    refine ⟨_, hscan, Store.loadScripts_of_all hproper hroot hscan, ?_, ?_⟩
    · intro before name behind cause hsplit hloads hcannot
      exact Store.loadScripts_of_first hproper hroot (hsplit ▸ hscan) hloads hcannot
    · intro path h
      obtain ⟨name, hname, hcannot⟩ := Store.exists_cannotLoad hproper hroot hscan h
      cases hcannot with
      | tooLong long => exact ⟨name, hname, rfl, long⟩
  · intro config cause h
    unfold Host.load at h
    split at h
    · cases h
    · next root hroot =>
        generalize hload : (Host.new config).loadScripts top root extensions = loaded at h
        obtain ⟨⟨last, result⟩, events⟩ := loaded
        cases result with
        | ok names => cases h
        | error other =>
            cases h
            have hempty : (Host.new config).store.names = [] := rfl
            apply Store.loadScripts_ne_refused hproper hempty root extensions cause
            exact congrArg (fun loaded => loaded.value.2) hload

/-- A file that is not text ends the loading as such even if its name is taken, and what was listed
before it stays registered. A name that is taken ends it under the policy that forbids this. -/
theorem load_exact_stopped :
    let top : Node := .directory
      [("b.ts", .file ⟨#[0xff]⟩), ("notes.md", .file .empty), ("a.ts", .file "A".toUTF8)]
    let store : Store := ⟨[.new "b.ts" "B" none], none, .reject⟩
    let other : Store := ⟨[.new "a.ts" "B" none], none, .reject⟩
    top.IsProper ∧ top.find? "." = some top ∧ top.scan "." ["ts"] = .ok ["a.ts", "b.ts"] ∧
      store.CannotLoad top "." "b.ts" .notText ∧ "b.ts" ∈ store.names ∧
      (∃ last, store.Loads top ["a.ts"] last ∧
        store.loadScripts top "." ["ts"] = ⟨(last.value, .error .notText), last.events⟩) ∧
      other.CannotLoad top "." "a.ts" (.refused (.alreadyTracked "a.ts")) ∧
      (∃ last, other.Loads top [] last ∧
        other.loadScripts top "." ["ts"] =
          ⟨(last.value, .error (.refused (.alreadyTracked "a.ts"))), last.events⟩) := by
  intro top store other
  have hproper : top.IsProper := by
    simp [top, Node.isProper_directory_iff, Node.isProper_file, IsEntryName]
  have hroot : top.find? "." = some top := by rfl
  have hfound : (Node.files "." top).filter (Node.wants ["ts"]) = [["b.ts"], ["a.ts"]] := by decide
  have hscan : top.scan "." ["ts"] = .ok ["a.ts", "b.ts"] := by
    rw [Node.scan_eq_ok hroot, Node.found, hfound]
    simp [List.mergeSort, List.MergeSort.Internal.splitInTwo, segmentsLe, -String.lt_iff_ltb]
  have hholds : top.HoldsText "a.ts" "A" := by rfl
  have hfile : top.descend (segments "b.ts") = some (.file ⟨#[0xff]⟩) := by rfl
  have hinvalid : store.CannotLoad top "." "b.ts" .notText :=
    .notText (by decide) hfile (by decide)
  have hfirst : ∀ cause, ¬ store.CannotLoad top "." "a.ts" cause := by
    intro cause hcannot
    cases hcannot with
    | tooLong long => exact absurd long (by decide)
    | notText short found invalid =>
        obtain rfl := Node.file.inj (Option.some.inj (hholds.symm.trans found))
        exact invalid "A".isValidUTF8
    | taken short holds policy tracked => exact absurd tracked (by decide)
  have htaken : other.CannotLoad top "." "a.ts" (.refused (.alreadyTracked "a.ts")) :=
    .taken (by decide) hholds rfl (by decide)
  obtain ⟨names, hnames, -, hstopped, -⟩ := (load_exact hproper store "." ["ts"]).2.1 _ hroot
  obtain ⟨names', hnames', -, hstopped', -⟩ := (load_exact hproper other "." ["ts"]).2.1 _ hroot
  obtain rfl := Except.ok.inj (hscan.symm.trans hnames)
  obtain rfl := Except.ok.inj (hscan.symm.trans hnames')
  refine ⟨hproper, hroot, hscan, hinvalid, by decide, ?_, htaken, ?_⟩
  · exact hstopped ["a.ts"] "b.ts" [] _ rfl (List.forall_mem_singleton.2 hfirst) hinvalid
  · exact hstopped' [] "a.ts" ["b.ts"] _ rfl (List.forall_mem_nil _) htaken

/-! ### A file that was listed and is missing -/

theorem isEntryName_of_size {name : String} (hsize : 2 < name.utf8ByteSize)
    (hslash : '/' ∉ name.toList) : IsEntryName name := by
  refine ⟨?_, ?_, ?_, hslash⟩
  all_goals
    rintro rfl
    exact absurd hsize (by decide)

/-- **A scan can list a file which loading then calls missing**, when the path of the file is too
long. -/
theorem listed_but_missing :
    let root := "." ++ String.ofList (List.replicate 3880 '/')
    let name := String.ofList (List.replicate 240 'd') ++ ".ts"
    let top : Node := .directory [(name, .file "var a;".toUTF8)]
    let store : Store := .empty none .reject
    top.IsProper ∧ top.find? root = some top ∧ top.scan root ["ts"] = .ok [name] ∧
      top.HoldsText name "var a;" ∧
      store.loadScripts top root ["ts"] =
        .silent (store, .error (.missing (Node.scriptPath root name))) := by
  intro root name top store
  have hroot_size : root.utf8ByteSize = 3881 := by
    rw [String.utf8ByteSize_append, utf8ByteSize_replicate]
    rfl
  have hname_size : name.utf8ByteSize = 243 := by
    rw [String.utf8ByteSize_append, utf8ByteSize_replicate]
    rfl
  have hslash : '/' ∉ name.toList := by
    rw [String.toList_append, String.toList_ofList, List.mem_append, List.mem_replicate]
    decide
  have hentry : IsEntryName name := isEntryName_of_size (by omega) hslash
  have hproper : top.IsProper := Node.isProper_directory_iff.2
    ⟨List.nodup_singleton _, List.forall_mem_singleton.2 hentry,
      List.forall_mem_singleton.2 (Node.isProper_file _)⟩
  have hroot : top.find? root = some top := Node.find?_dot_slashes _ (by decide)
  have hsegments : segments name = [name] := by
    rw [segments, segmentsOf_eq_singleton hslash]
    simp
  have hext : HasExtension name "ts" := by
    refine ⟨String.ofList (List.replicate 240 'd'), ?_, ?_, by decide⟩
    · intro heq
      have hsize := utf8ByteSize_replicate 240 'd'
      rw [heq] at hsize
      cases hsize
    · rw [String.append_assoc]
      rfl
  have hwanted : Node.wants ["ts"] [name] = true :=
    Node.wants_iff.2 ⟨name, "ts", rfl, hext, List.mem_singleton_self _⟩
  have hshort : ¬ maxPathSize < root.utf8ByteSize := by
    rw [hroot_size]
    decide
  have hfound : Node.found root ["ts"] top = [[name]] := by
    simp [top, Node.found, Node.files, Node.filesIn, hshort, hwanted]
  have hscan : top.scan root ["ts"] = .ok [name] := by
    rw [Node.scan_eq_ok hroot, hfound, List.map_singleton, String.intercalate_singleton]
  have hholds : top.HoldsText name "var a;" := by
    rw [Node.HoldsText, hsegments, Node.descend_cons, Node.entries, lookup_cons_eq_ite, if_pos rfl]
    rfl
  have hlong : maxPathSize < (Node.scriptPath root name).utf8ByteSize := by
    rw [Node.scriptPath_eq root (by rw [hsegments]; exact List.forall_mem_singleton.2 hentry),
      hsegments, List.foldl_cons, List.foldl_nil, String.utf8ByteSize_append,
      String.utf8ByteSize_append, hroot_size, hname_size]
    decide
  have hcannot : store.CannotLoad top root name (.missing (Node.scriptPath root name)) :=
    .tooLong hlong
  refine ⟨hproper, hroot, hscan, hholds, ?_⟩
  have hfirst : top.scan root ["ts"] = .ok ([] ++ name :: []) := hscan
  obtain ⟨last, ⟨scripts, hscripts, -, hlast⟩, hload⟩ :=
    Store.loadScripts_of_first hproper hroot hfirst (List.forall_mem_nil _) hcannot
  obtain rfl := List.map_eq_nil_iff.1 hscripts
  cases hlast
  exact hload

end Scriptorium
