import Scriptorium.Host

/-!
# What one request does

A request finds its script tracked or not, and then it is met or refused. All the ways in which this
can go are listed once, with the next host, the answer and the events. A request that is met changes
the document of its own name or takes it out; one that is refused leaves the host as it is.
-/

namespace Scriptorium

/-- Requests to change a script that is tracked already. -/
def Request.needsScript : Request → Bool
  | .update .. | .edit .. | .remove .. | .setOpen .. => true
  | .add .. | .ask .. => false

namespace Store

variable {store : Store} {name : String} {document other : Document}

theorem document_eq_ok (h : store.find? name = some document) :
    store.document name = .ok document := by
  simp [Store.document, h]

theorem document_eq_error (h : store.find? name = none) :
    store.document name = .error (.untracked name) := by
  simp [Store.document, h]

theorem contains_eq_true (h : store.find? name = some document) : store.contains name = true := by
  simp [contains, h]

theorem contains_eq_false (h : store.find? name = none) : store.contains name = false := by
  simp [contains, h]

theorem update_eq_put (h : store.find? name = some other) (hname : document.name = name) :
    store.update document = store.put document := by
  rw [put, hname, contains_eq_true h, if_pos rfl]

theorem replace_eq_ok (h : store.find? name = some document) (text : String) :
    store.replace name text =
      .ok ⟨(store.put (document.replace text).value, document.version + 1),
        [.replaced name (document.version + 1) (Text.size text)]⟩ := by
  have hname := name_of_find? h
  have hput : store.update (document.replace text).value = _ := update_eq_put h hname
  rw [replace, document_eq_ok h, ← hput, ← hname]
  rfl

theorem edit_eq_ok (h : store.find? name = some document) {span : Span}
    (hfits : Text.Fits document.text span) (inserted : String) :
    store.edit name span inserted =
      .ok ⟨(store.put (document.spliced span inserted), document.version + 1),
        [.edited name (document.version + 1) span (Text.size inserted)]⟩ := by
  have hname := name_of_find? h
  have hput : store.update (document.spliced span inserted) = _ := update_eq_put h hname
  have hedit := Document.edit_eq_ok hfits inserted
  unfold Store.edit
  simp only [document_eq_ok h, bind, Except.bind, hedit]
  rw [← hput, ← hname]
  rfl

theorem edit_eq_error (h : store.find? name = some document) {span : Span}
    (hmisfits : ¬ Text.Fits document.text span) (inserted : String) :
    store.edit name span inserted = .error (.misplaced span document.size) := by
  have hedit := Document.edit_eq_error hmisfits inserted
  unfold Store.edit
  simp only [document_eq_ok h, bind, Except.bind, hedit]

theorem setOpen_eq_ok (h : store.find? name = some document) (isOpen : Bool) :
    store.setOpen name isOpen = .ok (store.put (document.setOpen isOpen)) := by
  have hname := name_of_find? h
  have hput : store.update (document.setOpen isOpen) = _ := update_eq_put h hname
  rw [setOpen, document_eq_ok h, ← hput]
  rfl

end Store

namespace Host

def put (host : Host) (document : Document) : Host :=
  { host with store := host.store.put document }

def erase (host : Host) (name : String) : Host :=
  { host with store := host.store.erase name }

/-- All that a request can lead to. -/
inductive Step (host : Host) : Request → Outcome → Prop where
  | registered {name text : String} (absent : host.store.find? name = none) :
      Step host (.add name text)
        ⟨host.put (.new name text host.store.limit), .ok .done,
          [.registered name (Text.size text)]⟩
  | overwritten {name text : String} {document : Document}
      (found : host.store.find? name = some document) (policy : host.store.policy = .overwrite) :
      Step host (.add name text)
        ⟨host.put (.new name text host.store.limit), .ok .done,
          [.overwriting name, .registered name (Text.size text)]⟩
  | duplicate {name text : String} {document : Document}
      (found : host.store.find? name = some document) (policy : host.store.policy = .reject) :
      Step host (.add name text) ⟨host, .error (.alreadyTracked name), []⟩
  | replaced {name text : String} {document : Document}
      (found : host.store.find? name = some document) :
      Step host (.update name text)
        ⟨host.put (document.replace text).value, .ok (.version (document.version + 1)),
          [.replaced name (document.version + 1) (Text.size text)]⟩
  | edited {name inserted : String} {span : Span} {document : Document}
      (found : host.store.find? name = some document) (fits : Text.Fits document.text span) :
      Step host (.edit name span inserted)
        ⟨host.put (document.spliced span inserted), .ok (.version (document.version + 1)),
          [.edited name (document.version + 1) span (Text.size inserted)]⟩
  | misplaced {name inserted : String} {span : Span} {document : Document}
      (found : host.store.find? name = some document) (misfits : ¬ Text.Fits document.text span) :
      Step host (.edit name span inserted)
        ⟨host, .error (.misplaced span document.size), []⟩
  | removed {name : String} {document : Document}
      (found : host.store.find? name = some document) :
      Step host (.remove name) ⟨host.erase name, .ok (.document document), [.removed name]⟩
  | switched {name : String} {isOpen : Bool} {document : Document}
      (found : host.store.find? name = some document) :
      Step host (.setOpen name isOpen) ⟨host.put (document.setOpen isOpen), .ok .done, []⟩
  | untracked {request : Request} (needs : request.needsScript = true)
      (absent : host.store.find? request.name = none) :
      Step host request ⟨host, .error (.untracked request.name), []⟩
  | asked {name : String} {question : Question} :
      Step host (.ask name question) ⟨host, host.reply name question, reported name question⟩

variable {host : Host} {request : Request} {outcome : Outcome}

theorem Step.perform_eq (h : Step host request outcome) : host.perform request = outcome := by
  cases h with
  | registered absent =>
      rw [perform, Store.register, Store.contains_eq_false absent]
      rfl
  | overwritten found policy =>
      rw [perform, Store.register, Store.contains_eq_true found, policy]
      rfl
  | duplicate found policy =>
      rw [perform, Store.register, Store.contains_eq_true found, policy]
      rfl
  | replaced found =>
      rw [perform, Store.replace_eq_ok found]
      rfl
  | edited found fits =>
      rw [perform, Store.edit_eq_ok found fits]
      rfl
  | misplaced found misfits =>
      rw [perform, Store.edit_eq_error found misfits]
      rfl
  | removed found =>
      rw [perform, Store.remove, Store.document_eq_ok found]
      rfl
  | switched found =>
      rw [perform, Store.setOpen_eq_ok found]
      rfl
  | asked => rfl
  | untracked needs absent =>
      cases request with
      | add name text => cases needs
      | ask name question => cases needs
      | update name text =>
          have habsent : host.store.find? name = none := absent
          rw [perform, Store.replace, Store.document_eq_error habsent]
          rfl
      | edit name span inserted =>
          have habsent : host.store.find? name = none := absent
          rw [perform, Store.edit, Store.document_eq_error habsent]
          rfl
      | remove name =>
          have habsent : host.store.find? name = none := absent
          rw [perform, Store.remove, Store.document_eq_error habsent]
          rfl
      | setOpen name isOpen =>
          have habsent : host.store.find? name = none := absent
          rw [perform, Store.setOpen, Store.document_eq_error habsent]
          rfl

theorem exists_step (host : Host) (request : Request) : ∃ outcome, Step host request outcome := by
  by_cases hneeds : request.needsScript = true
  · cases hfind : host.store.find? request.name with
    | none => exact ⟨_, .untracked hneeds hfind⟩
    | some document =>
        cases request with
        | add name text => cases hneeds
        | ask name question => cases hneeds
        | update name text => exact ⟨_, .replaced hfind⟩
        | edit name span inserted =>
            by_cases hfits : Text.Fits document.text span
            · exact ⟨_, .edited hfind hfits⟩
            · exact ⟨_, .misplaced hfind hfits⟩
        | remove name => exact ⟨_, .removed hfind⟩
        | setOpen name isOpen => exact ⟨_, .switched hfind⟩
  · cases request with
    | add name text =>
        cases hfind : host.store.find? name with
        | none => exact ⟨_, .registered hfind⟩
        | some document =>
            cases hpolicy : host.store.policy with
            | reject => exact ⟨_, .duplicate hfind hpolicy⟩
            | overwrite => exact ⟨_, .overwritten hfind hpolicy⟩
    | ask name question => exact ⟨_, .asked⟩
    | _ => exact absurd rfl hneeds

theorem step_perform (host : Host) (request : Request) :
    Step host request (host.perform request) := by
  obtain ⟨outcome, hstep⟩ := host.exists_step request
  rwa [hstep.perform_eq]

theorem mem_scriptNames_iff {name : String} :
    name ∈ host.scriptNames ↔ ∃ document, host.store.find? name = some document := by
  unfold scriptNames
  rw [← Store.contains_iff_mem_names, Store.contains, Option.isSome_iff_exists]

theorem not_mem_scriptNames_iff {name : String} :
    name ∉ host.scriptNames ↔ host.store.find? name = none := by
  rw [mem_scriptNames_iff, ← Option.isSome_iff_exists, Bool.not_eq_true, Option.isSome_eq_false_iff,
    Option.isNone_iff_eq_none]

theorem find?_put {name : String} {document : Document} (hname : document.name = name) :
    (host.put document).store.find? name = some document := by
  subst hname
  exact Store.find?_put_self _ _

theorem find?_erase (host : Host) (name : String) :
    (host.erase name).store.find? name = none :=
  Store.find?_erase_self _ _

theorem scriptNames_put {name : String} {document other : Document}
    (hfound : host.store.find? name = some other) (hname : document.name = name) :
    (host.put document).scriptNames = host.scriptNames := by
  subst hname
  unfold scriptNames put
  rw [Store.names_put, Store.contains_eq_true hfound, if_pos rfl]

/-! ### What a request leaves alone -/

/-- What a host was made with. -/
def settings (host : Host) : Option Nat × DuplicatePolicy × Config :=
  (host.store.limit, host.store.policy, host.config)

theorem settings_put (host : Host) (document : Document) :
    (host.put document).settings = host.settings := by
  unfold settings put Store.put
  split <;> rfl

theorem Step.host_cases (h : Step host request outcome) :
    outcome.host = host ∨
      (∃ document, document.name = request.name ∧ outcome.host = host.put document) ∨
      outcome.host = host.erase request.name := by
  cases h with
  | registered | overwritten => exact .inr (.inl ⟨_, rfl, rfl⟩)
  | replaced found | edited found fits | switched found =>
      have hname := Store.name_of_find? found
      refine .inr (.inl ⟨_, ?_, rfl⟩)
      exact hname
  | removed found => exact .inr (.inr rfl)
  | duplicate | misplaced | untracked | asked => exact .inl rfl

theorem Step.find?_of_ne (h : Step host request outcome) {name : String}
    (hname : name ≠ request.name) :
    outcome.host.store.find? name = host.store.find? name := by
  rcases h.host_cases with hsame | ⟨document, hdocument, hput⟩ | herase
  · rw [hsame]
  · rw [← hdocument] at hname
    rw [hput]
    exact Store.find?_put_of_ne hname
  · rw [herase]
    exact Store.find?_erase_of_ne hname

theorem Step.settings_eq (h : Step host request outcome) :
    outcome.host.settings = host.settings := by
  rcases h.host_cases with hsame | ⟨document, -, hput⟩ | herase
  · rw [hsame]
  · rw [hput, settings_put]
  · rw [herase]
    rfl

theorem settings_after (host : Host) (requests : List Request) :
    (host.after requests).settings = host.settings := by
  induction requests generalizing host with
  | nil => rfl
  | cons request rest ih => rw [after_cons, ih, (host.step_perform request).settings_eq]

theorem after_concat (host : Host) (requests : List Request) (request : Request) :
    host.after (requests ++ [request]) = ((host.after requests).perform request).host := by
  rw [after_append, after_cons, after_nil]

end Host

end Scriptorium
