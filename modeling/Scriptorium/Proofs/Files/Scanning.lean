import Mathlib.Data.List.Lex
import Mathlib.Data.List.TakeWhile
import Scriptorium.Files.Scripts
import Scriptorium.Proofs.Files.Trees
import Scriptorium.Proofs.Text.Order

/-!
# What a scan finds

A scan walks through all directories below its root, in the order in which they list their entries,
and then sorts what it has come by. No two places on its way are the same, so the sorted list has
each of them once, and it is the only such list: the way there does not matter. The walk sees no
directory behind a path that is too long to be followed. Such a directory passes for a file, and
what is below it is not found.
-/

namespace Scriptorium

/-! ### Extensions -/

/-- A name has an extension behind its last dot, if that is not its first character. -/
def HasExtension (name ext : String) : Prop :=
  ∃ stem, stem ≠ "" ∧ name = stem ++ "." ++ ext ∧ '.' ∉ ext.toList

theorem extension?_eq_some_iff {name ext : String} :
    extension? name = some ext ↔ HasExtension name ext := by
  -- both are read from the end of the name, where the last dot is the first one
  constructor
  · intro h
    have hsplit := List.takeWhile_append_dropWhile (p := (· ≠ '.')) (l := name.toList.reverse)
    unfold extension? at h
    simp only at h
    generalize hback : name.toList.reverse.takeWhile (· ≠ '.') = back at h hsplit
    generalize hfront : name.toList.reverse.dropWhile (· ≠ '.') = front at h hsplit
    match front, h with
    | dot :: last :: front, h =>
        have hdot : dot = '.' := by
          have := List.head?_dropWhile_not (· ≠ '.') name.toList.reverse
          rw [hfront] at this
          simpa using this
        obtain rfl := Option.some.inj h
        refine ⟨String.ofList (last :: front).reverse, by simp, ?_, ?_⟩
        · rw [← String.toList_inj, ← List.reverse_inj, ← hsplit, hdot]
          simp
        · intro hmem
          have hback' : '.' ∈ back := by simpa using hmem
          rw [← hback] at hback'
          simpa using List.mem_takeWhile_imp hback'
  · rintro ⟨stem, hstem, rfl, hdot⟩
    have hreverse : (stem ++ "." ++ ext).toList.reverse =
        ext.toList.reverse ++ '.' :: stem.toList.reverse := by simp
    have hext : ∀ char ∈ ext.toList.reverse, decide (char ≠ '.') = true := by
      intro char hchar
      rw [List.mem_reverse] at hchar
      simpa using fun heq : char = '.' => hdot (heq ▸ hchar)
    have hne : stem.toList.reverse ≠ [] := by simpa using hstem
    unfold extension?
    simp only
    rw [hreverse, List.dropWhile_append_of_pos hext, List.takeWhile_append_of_pos hext,
      List.dropWhile_cons_of_neg (by simp), List.takeWhile_cons_of_neg (by simp)]
    obtain ⟨last, front, hfront⟩ := List.exists_cons_of_ne_nil hne
    rw [hfront]
    simp

/-! ### The order of relative paths -/

theorem segmentsLe_iff {as bs : List String} : segmentsLe as bs = true ↔ as ≤ bs := by
  induction as generalizing bs with
  | nil => simp [segmentsLe, ← not_lt]
  | cons a as ih =>
      cases bs with
      | nil => simp [segmentsLe, ← not_lt]
      | cons b bs =>
          simp only [segmentsLe, Bool.or_eq_true, decide_eq_true_eq, Bool.and_eq_true, beq_iff_eq,
            ih]
          rw [← not_lt, ← not_lt, List.cons_lt_cons_iff]
          rcases lt_trichotomy a b with hlt | rfl | hlt
          · simp [hlt, hlt.not_gt, hlt.ne', -String.lt_iff_ltb]
          · simp
          · simp [hlt, hlt.not_gt, hlt.ne', -String.lt_iff_ltb]

namespace Node

variable {node other top : Node} {entries others : List (String × Node)}
  {place rest : List String} {name path root : String} {extensions : List String}

/-! ### What the walk comes by -/

/-- The path under which a walk that starts with a path has what names lead to. -/
def pathBelow (path : String) (place : List String) : String :=
  place.foldl joinPath path

/-- A walk that starts at a node with a path comes by a place and takes what is there for a file: it
is one, or its path is too long to be followed, while those of all directories above it are not. -/
def PassesForFile (node : Node) (path : String) (place : List String) : Prop :=
  (∃ met, node.descend place = some met ∧
    (met.isDirectory = true → maxPathSize < (pathBelow path place).utf8ByteSize)) ∧
  ∀ i < place.length, (pathBelow path (place.take i)).utf8ByteSize ≤ maxPathSize

theorem mem_filesIn_iff :
    place ∈ filesIn path entries ↔
      ∃ name child rest, (name, child) ∈ entries ∧ place = name :: rest ∧
        rest ∈ files (joinPath path name) child := by
  induction entries with
  | nil => simp [filesIn]
  | cons entry entries ih =>
      obtain ⟨first, node⟩ := entry
      rw [filesIn, List.mem_append, ih, List.mem_map]
      constructor
      · rintro (⟨rest, hrest, rfl⟩ | ⟨name, child, rest, hentry, rfl, hrest⟩)
        · exact ⟨first, node, rest, List.mem_cons_self, rfl, hrest⟩
        · exact ⟨name, child, rest, List.mem_cons_of_mem _ hentry, rfl, hrest⟩
      · rintro ⟨name, child, rest, hentry, rfl, hrest⟩
        rcases List.mem_cons.1 hentry with heq | hentry
        · cases heq
          exact .inl ⟨rest, hrest, rfl⟩
        · exact .inr ⟨name, child, rest, hentry, rfl, hrest⟩

theorem passesForFile_nil :
    PassesForFile node path [] ↔ (node.isDirectory = true → maxPathSize < path.utf8ByteSize) := by
  simp [PassesForFile, descend, pathBelow]

theorem passesForFile_cons :
    PassesForFile node path (name :: rest) ↔
      path.utf8ByteSize ≤ maxPathSize ∧ ∃ child, node.entries.lookup name = some child ∧
        PassesForFile child (joinPath path name) rest := by
  have hbelow (place : List String) : pathBelow path (name :: place) =
      pathBelow (joinPath path name) place := rfl
  have habove : (∀ i < (name :: rest).length,
        (pathBelow path ((name :: rest).take i)).utf8ByteSize ≤ maxPathSize) ↔
      path.utf8ByteSize ≤ maxPathSize ∧ ∀ i < rest.length,
        (pathBelow (joinPath path name) (rest.take i)).utf8ByteSize ≤ maxPathSize := by
    constructor
    · intro h
      exact ⟨h 0 (Nat.zero_lt_succ _), fun i hi => h (i + 1) (Nat.succ_lt_succ hi)⟩
    · rintro ⟨hpath, hrest⟩ i hi
      cases i with
      | zero => exact hpath
      | succ i => exact hrest i (Nat.lt_of_succ_lt_succ hi)
  rw [PassesForFile, habove, descend_cons, hbelow]
  cases node.entries.lookup name with
  | none => simp
  | some child => simp [PassesForFile, and_left_comm]

/-- **The walk comes by just the places that pass for files.** -/
theorem mem_files_iff (h : node.IsProper) :
    place ∈ files path node ↔ PassesForFile node path place := by
  induction place generalizing node path with
  | nil =>
      rw [passesForFile_nil]
      cases node with
      | file content => simp [files, isDirectory]
      | directory entries =>
          rw [files]
          split
          · simp [*]
          · next hsize => simp [hsize, isDirectory, mem_filesIn_iff]
  | cons name rest ih =>
      rw [passesForFile_cons]
      cases node with
      | file content => simp [files, entries]
      | directory entries =>
          obtain ⟨hnodup, -, hbelow⟩ := isProper_directory_iff.1 h
          rw [files]
          split
          · next hsize => simp [hsize]
          · next hsize =>
              have hstep : name :: rest ∈ filesIn path entries ↔
                  ∃ child, (name, child) ∈ entries ∧ rest ∈ files (joinPath path name) child := by
                rw [mem_filesIn_iff]
                constructor
                · rintro ⟨_, child, _, hentry, heq, hrest⟩
                  cases heq
                  exact ⟨child, hentry, hrest⟩
                · rintro ⟨child, hentry, hrest⟩
                  exact ⟨name, child, rest, hentry, rfl, hrest⟩
              rw [hstep]
              simp only [Nat.le_of_not_lt hsize, true_and, Node.entries,
                lookup_eq_some_iff_mem hnodup]
              exact exists_congr fun child => and_congr_right fun hentry => ih (hbelow _ hentry)

mutual

theorem nodup_files (path : String) : (node : Node) → node.IsProper → (files path node).Nodup
  | .file content, _ => by simp [files]
  | .directory entries, h => by
      obtain ⟨hnodup, -, hbelow⟩ := isProper_directory_iff.1 h
      rw [files]
      split
      · simp
      · exact nodup_filesIn path entries hnodup hbelow

theorem nodup_filesIn (path : String) :
    (entries : List (String × Node)) → (entries.map Prod.fst).Nodup →
      (∀ entry ∈ entries, entry.2.IsProper) → (filesIn path entries).Nodup
  | [], _, _ => by simp [filesIn]
  | (name, node) :: rest, hnodup, hbelow => by
      obtain ⟨hname, hrest⟩ := List.nodup_cons.1 hnodup
      obtain ⟨hnode, hothers⟩ := List.forall_mem_cons.1 hbelow
      rw [filesIn, List.nodup_append]
      refine ⟨?_, nodup_filesIn path rest hrest hothers, ?_⟩
      · exact (nodup_files _ node hnode).map (List.cons_injective)
      -- what is found below two entries differs in its first name
      · rintro _ hplace _ hplace' rfl
        obtain ⟨below, -, rfl⟩ := List.mem_map.1 hplace
        obtain ⟨other, child, below', hentry, heq, -⟩ := mem_filesIn_iff.1 hplace'
        cases heq
        exact hname (List.mem_map.2 ⟨_, hentry, rfl⟩)

end

/-! ### What is found -/

/-- A file is wanted for the extension of its name. -/
def IsWanted (extensions place : List String) : Prop :=
  ∃ name ext, place.getLast? = some name ∧ HasExtension name ext ∧ ext ∈ extensions

theorem wants_iff : wants extensions place = true ↔ IsWanted extensions place := by
  simp only [IsWanted, ← extension?_eq_some_iff]
  unfold wants
  cases place.getLast? with
  | none => simp
  | some name =>
      cases hext : extension? name with
      | none => simp [hext]
      | some ext => simp [hext]

/-- The wanted places below a directory, in order. -/
def found (path : String) (extensions : List String) (node : Node) : List (List String) :=
  ((files path node).filter (wants extensions)).mergeSort segmentsLe

theorem mem_found_iff (h : node.IsProper) :
    place ∈ found path extensions node ↔
      PassesForFile node path place ∧ IsWanted extensions place := by
  rw [found, List.mem_mergeSort, List.mem_filter, mem_files_iff h, wants_iff]

theorem pairwise_found (h : node.IsProper) (path : String) (extensions : List String) :
    (found path extensions node).Pairwise (· < ·) := by
  have hsorted : (found path extensions node).Pairwise (· ≤ ·) := by
    refine List.Pairwise.imp segmentsLe_iff.1 (List.pairwise_mergeSort ?_ ?_ _)
    · intro as bs cs hab hbc
      rw [segmentsLe_iff] at hab hbc ⊢
      exact hab.trans hbc
    · intro as bs
      rw [Bool.or_eq_true, segmentsLe_iff, segmentsLe_iff]
      exact le_total as bs
  have hnodup : (found path extensions node).Nodup := by
    rw [found, List.nodup_mergeSort]
    exact (nodup_files path node h).filter _
  exact hsorted.imp₂ (fun as bs hle hne => lt_of_le_of_ne hle hne) hnodup

theorem Relisted.passesForFile_iff (h : Relisted node other) :
    PassesForFile node path place ↔ PassesForFile other path place := by
  have hplace := h.descend place
  unfold PassesForFile
  generalize node.descend place = below at hplace ⊢
  generalize other.descend place = below' at hplace ⊢
  cases hplace with
  | none => rfl
  | some hbelow => cases hbelow <;> simp [isDirectory]

/-- There is one list of the wanted places in order. -/
theorem Relisted.found_eq (h : Relisted node other) (hproper : node.IsProper) (path : String)
    (extensions : List String) : found path extensions node = found path extensions other := by
  have hsorted := pairwise_found hproper path extensions
  have hsorted' := pairwise_found (h.isProper hproper) path extensions
  have hperm : (found path extensions node).Perm (found path extensions other) := by
    rw [List.perm_ext_iff_of_nodup (hsorted.imp ne_of_lt) (hsorted'.imp ne_of_lt)]
    intro place
    rw [mem_found_iff hproper, mem_found_iff (h.isProper hproper), h.passesForFile_iff]
  exact hperm.eq_of_pairwise (fun as bs _ _ hlt hlt' => absurd hlt' hlt.not_gt) hsorted hsorted'

theorem scan_eq_ok (h : top.find? root = some (.directory entries)) (extensions : List String) :
    top.scan root extensions =
      .ok ((found root extensions (.directory entries)).map ("/".intercalate ·)) := by
  rw [scan, checkRoot, h]
  rfl

theorem size_le_of_find? (h : top.find? path = some node) : path.utf8ByteSize ≤ maxPathSize := by
  unfold find? locate at h
  split at h
  · cases h
  · next hpath => exact Nat.le_of_not_lt (not_or.1 hpath).2

theorem isProper_of_find? (hproper : top.IsProper) (h : top.find? path = some node) :
    node.IsProper := by
  obtain ⟨place, -, hplace⟩ := Option.bind_eq_some_iff.1 h
  exact hproper.of_descend hplace

/-- What was found below a directory that can be followed is a path of names. -/
theorem segments_of_mem_found (hproper : (directory entries).IsProper)
    (hpath : path.utf8ByteSize ≤ maxPathSize)
    (h : place ∈ found path extensions (.directory entries)) :
    segments ("/".intercalate place) = place := by
  obtain ⟨hpasses, -⟩ := (mem_found_iff hproper).1 h
  obtain ⟨below, hbelow, -⟩ := hpasses.1
  apply segments_intercalate
  · rintro rfl
    exact Nat.not_lt.2 hpath (passesForFile_nil.1 hpasses rfl)
  · intro name hname
    exact (hproper.isEntryName_of_descend hbelow name hname).2.2.2

theorem exists_directory_of_descend (h : node.descend place = some other) {i : Nat}
    (hi : i < place.length) : ∃ inner, node.descend (place.take i) = some (.directory inner) := by
  rw [← List.take_append_drop i place, descend_append, Option.bind_eq_some_iff] at h
  obtain ⟨above, habove, hrest⟩ := h
  rw [List.drop_eq_getElem_cons hi, descend_cons] at hrest
  cases above with
  | file content => cases hrest
  | directory inner => exact ⟨inner, habove⟩

/-- Where every directory can be followed, just the files pass for files. -/
theorem passesForFile_iff_of_short
    (h : ∀ place inner, node.descend place = some (.directory inner) →
      (pathBelow path place).utf8ByteSize ≤ maxPathSize) :
    PassesForFile node path place ↔ ∃ content, node.descend place = some (.file content) := by
  constructor
  · rintro ⟨⟨below, hbelow, hlong⟩, -⟩
    cases below with
    | file content => exact ⟨content, hbelow⟩
    | directory inner => exact absurd (hlong rfl) (Nat.not_lt.2 (h place inner hbelow))
  · rintro ⟨content, hcontent⟩
    refine ⟨⟨_, hcontent, nofun⟩, fun i hi => ?_⟩
    obtain ⟨inner, hinner⟩ := exists_directory_of_descend hcontent hi
    exact h _ inner hinner

/-- **A scan lists what the walk takes for a wanted file**, once and in the order of the bytes of
each segment, whatever the order in which directories list their entries. If all directories below
the root have a path that can be followed, these are just the files with a wanted extension. -/
theorem scan_exact (hproper : top.IsProper) (hroot : top.find? root = some (.directory entries))
    (extensions : List String) :
    ∃ names, top.scan root extensions = .ok names ∧
      (∀ name, name ∈ names ↔ PassesForFile (.directory entries) root (segments name) ∧
        IsWanted extensions (segments name)) ∧
      (names.Pairwise fun a b => (segments a).map Text.bytes < (segments b).map Text.bytes) ∧
      (∀ other, Relisted top other → other.scan root extensions = .ok names) ∧
      ((∀ place inner, (directory entries).descend place = some (.directory inner) →
          (pathBelow root place).utf8ByteSize ≤ maxPathSize) →
        ∀ name, name ∈ names ↔
          (∃ content, (directory entries).descend (segments name) = some (.file content)) ∧
            IsWanted extensions (segments name)) := by
  have hbelow := isProper_of_find? hproper hroot
  have hsize := size_le_of_find? hroot
  have hsegments (place : List String)
      (h : place ∈ found root extensions (.directory entries)) :=
    segments_of_mem_found hbelow hsize h
  have hmem (name : String) :
      name ∈ (found root extensions (.directory entries)).map ("/".intercalate ·) ↔
        PassesForFile (.directory entries) root (segments name) ∧
          IsWanted extensions (segments name) := by
    rw [← mem_found_iff hbelow, List.mem_map]
    constructor
    · rintro ⟨place, hplace, rfl⟩
      rwa [hsegments place hplace]
    · intro h
      exact ⟨_, h, intercalate_segments name⟩
  refine ⟨_, scan_eq_ok hroot extensions, hmem, ?_, ?_, ?_⟩
  · rw [List.pairwise_map]
    refine (pairwise_found hbelow root extensions).imp_of_mem fun ha hb hlt => ?_
    rw [hsegments _ ha, hsegments _ hb]
    exact List.map_lt (fun _ _ => Text.bytes_lt_of_lt) hlt
  · intro other hother
    have hfound := hother.find? root
    rw [hroot] at hfound
    generalize hroot' : other.find? root = root' at hfound
    cases hfound with
    | some hrelisted =>
        cases hrelisted with
        | directory names_perm below =>
            rw [scan_eq_ok hroot', (Relisted.directory names_perm below).found_eq hbelow]
  · intro hshort name
    rw [hmem, passesForFile_iff_of_short hshort]

/-- A file is listed before one whose name goes on where the name of its directory ends. A directory
is not listed for its name, and a name that begins with its only dot has no extension. -/
theorem scan_exact_nested :
    let inner : List (String × Node) :=
      [("z.ts", .file .empty), ("b.ts", .file .empty), (".ts", .file .empty)]
    let top : Node := .directory
      [("notes.md", .file .empty), ("a-b.ts", .file .empty), ("a", .directory inner),
        ("d.ts", .directory [])]
    let other : Node := .directory
      [("d.ts", .directory []), ("a", .directory inner.reverse), ("a-b.ts", .file .empty),
        ("notes.md", .file .empty)]
    top.IsProper ∧ top.find? "." = some top ∧ Relisted top other ∧
      top.scan "." ["ts", "ts"] = .ok ["a/b.ts", "a/z.ts", "a-b.ts"] ∧
      other.scan "." ["ts", "ts"] = .ok ["a/b.ts", "a/z.ts", "a-b.ts"] := by
  intro inner top other
  have hproper : top.IsProper := by
    simp [top, inner, isProper_directory_iff, isProper_file, IsEntryName]
  have hroot : top.find? "." = some top := by rfl
  have hinner : Relisted (.directory inner) (.directory inner.reverse) :=
    .of_perm (by decide) (List.reverse_perm inner).symm
      (.cons ⟨rfl, .file _⟩ (.cons ⟨rfl, .file _⟩ (.cons ⟨rfl, .file _⟩ .nil)))
  have hempty : Relisted (.directory []) (.directory []) := .of_perm (by decide) (.refl _) .nil
  have hrelisted : Relisted top other :=
    .of_perm (by decide) (List.reverse_perm _).symm
      (.cons ⟨rfl, hempty⟩ (.cons ⟨rfl, hinner⟩ (.cons ⟨rfl, .file _⟩ (.cons ⟨rfl, .file _⟩ .nil))))
  have hfound : (files "." top).filter (wants ["ts", "ts"]) =
      [["a-b.ts"], ["a", "z.ts"], ["a", "b.ts"]] := by decide
  have hscan : top.scan "." ["ts", "ts"] = .ok ["a/b.ts", "a/z.ts", "a-b.ts"] := by
    rw [scan_eq_ok hroot, found, hfound]
    simp [List.mergeSort, List.MergeSort.Internal.splitInTwo, segmentsLe, -String.lt_iff_ltb]
  obtain ⟨names, hnames, -, -, hothers, -⟩ := scan_exact hproper hroot ["ts", "ts"]
  obtain rfl := Except.ok.inj (hscan.symm.trans hnames)
  exact ⟨hproper, hroot, hrelisted, hscan, hothers other hrelisted⟩

end Node

/-! ### A directory that cannot be followed -/

theorem utf8ByteSize_replicate (n : Nat) (char : Char) :
    (String.ofList (List.replicate n char)).utf8ByteSize = n * char.utf8Size := by
  induction n with
  | zero => simp
  | succ n ih =>
      rw [List.replicate_succ, String.ofList_cons, String.utf8ByteSize_append, ih,
        String.utf8ByteSize_singleton, Nat.succ_mul, Nat.add_comm]

theorem segmentsOf_replicate_slash (n : Nat) :
    segmentsOf (List.replicate n '/') = List.replicate (n + 1) [] := by
  induction n with
  | zero => rfl
  | succ n ih => rw [List.replicate_succ, segmentsOf, if_pos rfl, ih, ← List.replicate_succ]

namespace Node

variable {top : Node} {entries : List (String × Node)} {place : List String} {name root : String}

theorem foldlM_step_stay (hplace : top.descend place = some (.directory entries))
    {path : List String} (hpath : ∀ segment ∈ path, segment = "" ∨ segment = ".") :
    path.foldlM top.step place = some place := by
  induction path with
  | nil => rfl
  | cons segment path ih =>
      obtain ⟨hsegment, hrest⟩ := List.forall_mem_cons.1 hpath
      have hstep : top.step place segment = some place := by
        simp only [step, hplace, if_pos hsegment]
      rw [List.foldlM_cons, hstep]
      exact ih hrest

/-- A dot and slashes behind it lead nowhere else. -/
theorem find?_dot_slashes (entries : List (String × Node)) {n : Nat} (h : n < maxPathSize) :
    (directory entries).find? ("." ++ String.ofList (List.replicate n '/')) =
      some (.directory entries) := by
  have hsegments : ∀ segment ∈ segments ("." ++ String.ofList (List.replicate n '/')),
      segment = "" ∨ segment = "." := by
    have hchars : ("." ++ String.ofList (List.replicate n '/')).toList =
        '.' :: List.replicate n '/' := by simp
    rw [segments, hchars, segmentsOf, if_neg (by decide), segmentsOf_replicate_slash,
      List.replicate_succ]
    simp +contextual
  have hsize : ¬ maxPathSize < ("." ++ String.ofList (List.replicate n '/')).utf8ByteSize := by
    rw [String.utf8ByteSize_append, utf8ByteSize_replicate]
    change ¬ maxPathSize < 1 + n * 1
    omega
  have hne : "." ++ String.ofList (List.replicate n '/') ≠ "" := by simp
  have htop : (directory entries).descend [] = some (.directory entries) := rfl
  rw [find?, locate, if_neg (not_or.2 ⟨hne, hsize⟩), foldlM_step_stay htop hsegments,
    Option.bind_some, htop]

/-- A directory whose path is too long is found if it is called like a wanted file. -/
theorem found_of_long (hroot : root.utf8ByteSize ≤ maxPathSize)
    (hlong : maxPathSize < (joinPath root name).utf8ByteSize) {ext : String}
    (hext : HasExtension name ext) :
    found root [ext] (.directory [(name, .directory entries)]) = [[name]] := by
  have hwanted : wants [ext] [name] = true := wants_iff.2 ⟨name, ext, rfl, hext, by simp⟩
  simp [found, files, filesIn, hlong, Nat.not_lt.2 hroot, hwanted]

theorem size_add_size_le_joinPath (base relative : String)
    (h : relative.toList.head? ≠ some '/') :
    base.utf8ByteSize + relative.utf8ByteSize ≤ (joinPath base relative).utf8ByteSize := by
  rw [joinPath, if_neg h]
  split
  · rw [String.utf8ByteSize_append]
  · rw [String.utf8ByteSize_append, String.utf8ByteSize_append]
    omega

/-- **A directory can be listed as a script, and the script in it missed**, when the root has a path
that can just be followed. -/
theorem scan_lists_directory :
    let root := "." ++ String.ofList (List.replicate 3880 '/')
    let name := String.ofList (List.replicate 240 'd') ++ ".ts"
    let top : Node := .directory [(name, .directory [("a.ts", .file .empty)])]
    top.IsProper ∧ top.find? root = some top ∧ top.scan root ["ts"] = .ok [name] ∧
      top.descend [name] = some (.directory [("a.ts", .file .empty)]) ∧
      top.descend [name, "a.ts"] = some (.file .empty) := by
  intro root name top
  have hname : name.utf8ByteSize = 243 := by
    rw [String.utf8ByteSize_append, utf8ByteSize_replicate]
    rfl
  have hslash : '/' ∉ name.toList := by
    rw [String.toList_append, String.toList_ofList, List.mem_append, List.mem_replicate]
    decide
  have hentry : IsEntryName name := by
    refine ⟨?_, ?_, ?_, hslash⟩
    all_goals
      intro heq
      rw [heq] at hname
      cases hname
  have hinner : (directory [("a.ts", .file .empty)]).IsProper := by
    simp [isProper_directory_iff, isProper_file, IsEntryName]
  have hproper : top.IsProper := isProper_directory_iff.2
    ⟨List.nodup_singleton _, List.forall_mem_singleton.2 hentry, List.forall_mem_singleton.2 hinner⟩
  have hroot : top.find? root = some top := find?_dot_slashes _ (by decide)
  have hext : HasExtension name "ts" := by
    refine ⟨String.ofList (List.replicate 240 'd'), ?_, ?_, by decide⟩
    · intro heq
      have hsize := utf8ByteSize_replicate 240 'd'
      rw [heq] at hsize
      cases hsize
    · rw [String.append_assoc]
      rfl
  have hlong : maxPathSize < (joinPath root name).utf8ByteSize := by
    have hsize : root.utf8ByteSize = 3881 := by
      rw [String.utf8ByteSize_append, utf8ByteSize_replicate]
      rfl
    have hjoin := size_add_size_le_joinPath root name fun hhead =>
      hslash (List.mem_of_head? hhead)
    rw [hsize, hname] at hjoin
    exact Nat.lt_of_lt_of_le (by decide) hjoin
  refine ⟨hproper, hroot, ?_, ?_, ?_⟩
  · rw [scan_eq_ok hroot, found_of_long (size_le_of_find? hroot) hlong hext, List.map_singleton,
      String.intercalate_singleton]
  · rw [descend_cons, Node.entries, lookup_cons_eq_ite, if_pos rfl]
    rfl
  · rw [descend_cons, Node.entries, lookup_cons_eq_ite, if_pos rfl]
    rfl

end Node

end Scriptorium
