import Mathlib.Data.List.Basic
import Scriptorium.Files

/-!
# Files that were written

Making directories and putting a file into one of them never takes away what a path passes through,
so every step that was possible before still is, and it leads to the same place. That is why the
path of a file that was written leads to that file.
-/

namespace Scriptorium.Node

variable {top made written : Node} {place next : List String} {segment name : String}

/-! ### Trees that have grown -/

/-- Wherever one tree has something the other tree has something too, and in the place of a
directory a directory. -/
def Extends (top made : Node) : Prop :=
  ∀ place node, top.descend place = some node →
    ∃ other, made.descend place = some other ∧ (node.isDirectory = true → other.isDirectory = true)

theorem Extends.refl (top : Node) : Extends top top :=
  fun _ node h => ⟨node, h, id⟩

theorem Extends.trans (h : Extends top made) (h' : Extends made written) : Extends top written := by
  intro place node hnode
  obtain ⟨other, hother, hdirectory⟩ := h place node hnode
  obtain ⟨last, hlast, hdirectory'⟩ := h' place other hother
  exact ⟨last, hlast, hdirectory' ∘ hdirectory⟩

theorem descend_cons (node : Node) (name : String) (rest : List String) :
    node.descend (name :: rest) = (node.entries.lookup name).bind (descend · rest) :=
  rfl

theorem descend_append (node : Node) (front back : List String) :
    node.descend (front ++ back) = (node.descend front).bind (descend · back) := by
  induction front generalizing node with
  | nil => rfl
  | cons name front ih =>
      rw [List.cons_append, descend_cons, descend_cons, Option.bind_assoc]
      exact Option.bind_congr fun child _ => ih child

theorem descend_set_self (node new : Node) (place : List String) :
    (node.set new place).descend place = some new := by
  induction place generalizing node with
  | nil => rfl
  | cons name rest ih =>
      rw [set, descend_cons, entries, lookup_setEntry, if_pos rfl]
      exact ih _

/-- A node that is no directory has nothing below it, so another one may take its place. -/
theorem extends_set (new : Node)
    (h : ∀ node, top.descend place = some node → node.isDirectory = false) :
    Extends top (top.set new place) := by
  induction place generalizing top with
  | nil =>
      intro place node hnode
      cases place with
      | nil =>
          refine ⟨new, rfl, fun hdirectory => ?_⟩
          rw [h node hnode] at hdirectory
          cases hdirectory
      | cons first others =>
          cases top with
          | file content => cases hnode
          | directory entries => cases h _ rfl
  | cons name rest ih =>
      intro place node hnode
      cases place with
      | nil => exact ⟨_, rfl, fun _ => rfl⟩
      | cons first others =>
          rw [descend_cons, Option.bind_eq_some_iff] at hnode
          obtain ⟨child, hchild, hnode⟩ := hnode
          rw [set, descend_cons, entries, lookup_setEntry]
          by_cases hfirst : first = name
          · subst hfirst
            have hbelow : ∀ node, child.descend rest = some node → node.isDirectory = false := by
              intro node hnode
              apply h
              rw [descend_cons, hchild]
              exact hnode
            rw [if_pos rfl, hchild]
            exact ih hbelow others node hnode
          · rw [if_neg hfirst, hchild]
            exact ⟨node, hnode, id⟩

/-! ### Steps -/

theorem descend_snoc {entries : List (String × Node)}
    (h : top.descend place = some (.directory entries)) (name : String) :
    top.descend (place ++ [name]) = entries.lookup name := by
  rw [descend_append, h, Option.bind_some, descend_cons, Node.entries]
  cases entries.lookup name <;> rfl

theorem exists_directory_of_extends (h : Extends top made) {entries : List (String × Node)}
    (hplace : top.descend place = some (.directory entries)) :
    ∃ others, made.descend place = some (.directory others) := by
  obtain ⟨other, hother, hdirectory⟩ := h place _ hplace
  cases other with
  | file content => cases hdirectory rfl
  | directory others => exact ⟨others, hother⟩

theorem step_of_extends (h : Extends top made) (hstep : top.step place segment = some next) :
    made.step place segment = some next := by
  unfold step at hstep
  split at hstep
  · next entries hplace =>
      obtain ⟨others, hothers⟩ := exists_directory_of_extends h hplace
      have hmade (hentry : (entries.lookup segment).isSome) : (others.lookup segment).isSome := by
        obtain ⟨node, hnode⟩ := Option.isSome_iff_exists.1 hentry
        have hbelow : top.descend (place ++ [segment]) = some node := by
          rw [descend_snoc hplace, hnode]
        obtain ⟨other, hother, -⟩ := h _ node hbelow
        rw [descend_snoc hothers] at hother
        exact Option.isSome_iff_exists.2 ⟨other, hother⟩
      simp only [step, hothers]
      split at hstep
      · next hstay => rwa [if_pos hstay]
      · next hstay =>
          rw [if_neg hstay]
          split at hstep
          · next hup => rwa [if_pos hup]
          · next hup =>
              rw [if_neg hup]
              split at hstep
              · next hentry => rwa [if_pos (hmade hentry)]
              · cases hstep
  · cases hstep

/-- A step to a name leads to the entry that has the name. -/
theorem step_name {entries : List (String × Node)}
    (hplace : top.descend place = some (.directory entries)) (hname : isName name = true)
    (hentry : (entries.lookup name).isSome) :
    top.step place name = some (place ++ [name]) := by
  simp only [isName, Bool.decide_and, Bool.and_eq_true, decide_eq_true_eq] at hname
  obtain ⟨hempty, hdot, hup, -⟩ := hname
  simp [step, hplace, hempty, hdot, hup, hentry]

theorem step_enter (h : top.enter place segment = some (made, next)) :
    Extends top made ∧ made.step place segment = some next := by
  unfold enter at h
  split at h
  · next hstep =>
      cases h
      exact ⟨.refl _, hstep⟩
  · next hstep =>
      split at h
      · next entries hplace =>
          split at h
          · next hname =>
              cases h
              -- the step to an entry of that name would not have failed
              have hfree : entries.lookup segment = none := by
                by_contra hne
                rw [step_name hplace hname (Option.isSome_iff_ne_none.2 hne)] at hstep
                cases hstep
              have hextends : Extends top (top.set (.directory []) (place ++ [segment])) := by
                apply extends_set
                rw [descend_snoc hplace, hfree]
                nofun
              obtain ⟨others, hothers⟩ := exists_directory_of_extends hextends hplace
              refine ⟨hextends, step_name hothers hname ?_⟩
              rw [← descend_snoc hothers, descend_set_self]
              rfl
          · cases h
      · cases h

theorem foldlM_step_of_extends (h : Extends top made) {path : List String}
    (hsteps : path.foldlM top.step place = some next) :
    path.foldlM made.step place = some next := by
  induction path generalizing place with
  | nil => exact hsteps
  | cons segment path ih =>
      rw [List.foldlM_cons, Option.bind_eq_bind, Option.bind_eq_some_iff] at hsteps
      obtain ⟨between, hstep, hrest⟩ := hsteps
      rw [List.foldlM_cons, step_of_extends h hstep]
      exact ih hrest

theorem steps_of_enter {path : List String}
    (h : path.foldlM (fun (top, place) segment => top.enter place segment) (top, place) =
      some (made, next)) :
    Extends top made ∧ path.foldlM made.step place = some next := by
  induction path generalizing top place with
  | nil =>
      cases h
      exact ⟨.refl _, rfl⟩
  | cons segment path ih =>
      rw [List.foldlM_cons, Option.bind_eq_bind, Option.bind_eq_some_iff] at h
      obtain ⟨⟨between, on⟩, hfirst, hrest⟩ := h
      obtain ⟨hgrown, hstep⟩ := step_enter hfirst
      obtain ⟨hgrown', hsteps⟩ := ih hrest
      refine ⟨hgrown.trans hgrown', ?_⟩
      rw [List.foldlM_cons, step_of_extends hgrown' hstep]
      exact hsteps

/-! ### Files -/

/-- Where a path ends with a name, the other segments lead to the directory of that name. -/
theorem segments_eq {path : String} (hlast : (segments path).getLast? = some name)
    (hname : isName name = true) : segments path = parentSegments path ++ [name] := by
  simp only [isName, Bool.decide_and, Bool.and_eq_true, decide_eq_true_eq] at hname
  obtain ⟨hempty, hdot, -⟩ := hname
  obtain ⟨front, hfront⟩ := List.getLast?_eq_some_iff.1 hlast
  have hparents : parentSegments path = front := by
    rw [parentSegments, hfront, List.reverse_append, List.reverse_singleton, List.singleton_append,
      List.dropWhile_cons_of_neg (by simp [hempty, hdot]), List.tail_cons, List.reverse_reverse]
  rw [hparents, hfront]

theorem find?_of_putFile {content : ByteArray} {path : String}
    (hsize : ¬ maxPathSize < path.utf8ByteSize)
    (hsteps : (parentSegments path).foldlM top.step [] = some place)
    (hlast : (segments path).getLast? = some name)
    (hput : top.putFile place name content = some written) :
    written.find? path = some (.file content) := by
  unfold putFile at hput
  split at hput
  · next hname =>
      split at hput
      · next entries hplace =>
          have hset : top.set (.file content) (place ++ [name]) = written ∧
              ∀ node, entries.lookup name = some node → node.isDirectory = false := by
            split at hput
            · cases hput
            · next hfile =>
                refine ⟨Option.some.inj hput, fun node hnode => ?_⟩
                cases node with
                | file content => rfl
                | directory inner => exact absurd hnode (hfile inner)
          obtain ⟨rfl, hfree⟩ := hset
          have hextends : Extends top (top.set (.file content) (place ++ [name])) := by
            apply extends_set
            rwa [descend_snoc hplace]
          obtain ⟨others, hothers⟩ := exists_directory_of_extends hextends hplace
          have hentry : others.lookup name = some (.file content) := by
            rw [← descend_snoc hothers, descend_set_self]
          have hpath : path ≠ "" := by
            rintro rfl
            cases hlast
            exact absurd hname (by decide)
          rw [find?, locate, if_neg (not_or.2 ⟨hpath, hsize⟩), segments_eq hlast hname,
            List.foldlM_append, foldlM_step_of_extends hextends hsteps]
          simp only [Option.bind_eq_bind, Option.bind_some, List.foldlM_cons, List.foldlM_nil,
            step_name hothers hname (Option.isSome_iff_exists.2 ⟨_, hentry⟩), Option.pure_def,
            descend_set_self]
      · cases hput
  · cases hput

/-- **A file that was written is found at its path.** -/
theorem find?_of_write {path : String} {content : ByteArray}
    (h : (top.write path content).2 = true) :
    (top.write path content).1.find? path = some (.file content) := by
  unfold write at h ⊢
  by_cases hsize : maxPathSize < path.utf8ByteSize
  · rw [if_pos hsize] at h
    cases h
  · rw [if_neg hsize] at h ⊢
    cases hmade : top.enterAll (parentSegments path) with
    | none =>
        rw [hmade] at h
        cases h
    | some reached =>
        obtain ⟨made, place⟩ := reached
        obtain ⟨-, hsteps⟩ := steps_of_enter hmade
        cases hput : (segments path).getLast?.bind (made.putFile place · content) with
        | none => simp [hmade, hput] at h
        | some written =>
            obtain ⟨name, hlast, hwritten⟩ := Option.bind_eq_some_iff.1 hput
            simp only [hput]
            exact find?_of_putFile hsize hsteps hlast hwritten

end Scriptorium.Node
