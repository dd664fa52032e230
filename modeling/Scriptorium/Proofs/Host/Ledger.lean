import Mathlib.Data.List.Nodup
import Scriptorium.Batch
import Scriptorium.Host.Loading
import Scriptorium.Proofs.Host.Order

/-!
# What the log tells

The events of a host are enough to know which scripts it has, in which order, and the version and
the size of each. Whoever reads the log keeps a ledger: an event of level `debug` says what changes
in it, and no other event matters. The ledger then lists what the store lists, because every
operation reports what it does to the store, and reports nothing if it does nothing.

The invariant that carries the argument is that no name is listed twice, so that an entry of the
ledger and the document it stands for determine each other.
-/

namespace Scriptorium

/-- What the log tells about one script. -/
structure Entry where
  name : String
  version : Nat
  size : Int
deriving DecidableEq, Repr

abbrev Ledger := List Entry

namespace Ledger

def names (ledger : Ledger) : List String :=
  ledger.map Entry.name

def revise (name : String) (change : Entry → Entry) (ledger : Ledger) : Ledger :=
  ledger.map fun entry => if entry.name = name then change entry else entry

/-- A new name goes to the end, and one that is there already keeps its place. -/
def enter (entry : Entry) (ledger : Ledger) : Ledger :=
  if entry.name ∈ ledger.names then ledger.revise entry.name fun _ => entry
  else ledger ++ [entry]

/-- Takes down one event of the log. An edit is known by its span and by how much it inserts. -/
def record (ledger : Ledger) : Event → Ledger
  | .registered script size => ledger.enter ⟨script, 1, size⟩
  | .replaced script version size => ledger.revise script fun _ => ⟨script, version, size⟩
  | .edited script version span inserted =>
      ledger.revise script fun entry =>
        ⟨script, version, entry.size + (inserted - (span.stop - span.start : Int))⟩
  | .removed script => ledger.filter (·.name ≠ script)
  | _ => ledger

def recordAll (ledger : Ledger) (events : List Event) : Ledger :=
  (events.filter (·.level = .debug)).foldl record ledger

theorem recordAll_append (ledger : Ledger) (first second : List Event) :
    ledger.recordAll (first ++ second) = (ledger.recordAll first).recordAll second := by
  unfold recordAll
  rw [List.filter_append, List.foldl_append]

theorem recordAll_of_not_debug (ledger : Ledger) {events : List Event}
    (h : ∀ event ∈ events, event.level ≠ .debug) : ledger.recordAll events = ledger := by
  have hnone : events.filter (·.level = .debug) = [] := by
    rw [List.filter_eq_nil_iff]
    intro event hevent
    simpa using h event hevent
  rw [recordAll, hnone, List.foldl_nil]

end Ledger

namespace Store

def entry (document : Document) : Entry :=
  ⟨document.name, document.version, document.size⟩

/-- The ledger that a store would have. -/
def ledger (store : Store) : Ledger :=
  store.documents.map entry

variable {store next : Store} {name : String} {document : Document}

@[simp] theorem names_ledger (store : Store) : store.ledger.names = store.names := by
  rw [Ledger.names, ledger, List.map_map]
  rfl

theorem eq_of_find? (hnodup : store.names.Nodup) (hfound : store.find? name = some document)
    {other : Document} (hother : other ∈ store.documents) (hname : other.name = name) :
    other = document := by
  have hmem : document ∈ store.documents := List.mem_of_find?_eq_some hfound
  exact List.inj_on_of_nodup_map hnodup hother hmem (hname.trans (name_of_find? hfound).symm)

/-- To put a new document in the place of one is to revise the entry of that one. -/
theorem ledger_put_eq_revise (hnodup : store.names.Nodup)
    (hfound : store.find? name = some document) (new : Document) (hname : new.name = name)
    (change : Entry → Entry) (hchange : change (entry document) = entry new) :
    (store.put new).ledger = store.ledger.revise name change := by
  rw [← update_eq_put hfound hname, ledger, ledger, update, Ledger.revise, List.map_map,
    List.map_map]
  refine List.map_congr_left fun other hother => ?_
  simp only [Function.comp_apply, hname]
  by_cases hsame : other.name = name
  · rw [if_pos hsame, eq_of_find? hnodup hfound hother hsame, ← hchange]
    exact (if_pos (name_of_find? hfound)).symm
  · rw [if_neg hsame]
    exact (if_neg hsame).symm

theorem ledger_put_eq_enter (hnodup : store.names.Nodup) (new : Document) :
    (store.put new).ledger = store.ledger.enter (entry new) := by
  have hmem : (entry new).name ∈ store.ledger.names ↔ store.contains new.name = true := by
    rw [names_ledger, contains_iff_mem_names]
    rfl
  rw [Ledger.enter]
  cases hfound : store.find? new.name with
  | none =>
      have habsent := contains_eq_false hfound
      have hnot : (entry new).name ∉ store.ledger.names := by
        rw [hmem, habsent]
        exact Bool.false_ne_true
      rw [if_neg hnot, put, habsent, ledger, ledger]
      simp
  | some document =>
      rw [if_pos (hmem.2 (contains_eq_true hfound))]
      exact ledger_put_eq_revise hnodup hfound new rfl _ rfl

theorem ledger_erase (store : Store) (name : String) :
    (store.erase name).ledger = store.ledger.filter (·.name ≠ name) := by
  rw [ledger, ledger, erase, List.filter_map]
  rfl

/-- A change of a store is told by events when the ledger of the old store, kept up by them, is that
of the new one. -/
structure Told (store : Store) (events : List Event) (next : Store) : Prop where
  nodup : next.names.Nodup
  ledger_eq : store.ledger.recordAll events = next.ledger

theorem Told.refl (hnodup : store.names.Nodup) {events : List Event}
    (h : ∀ event ∈ events, event.level ≠ .debug) : Told store events store :=
  ⟨hnodup, Ledger.recordAll_of_not_debug _ h⟩

theorem Told.trans {first second : List Event} {last : Store} (h : Told store first next)
    (h' : Told next second last) : Told store (first ++ second) last :=
  ⟨h'.nodup, by rw [Ledger.recordAll_append, h.ledger_eq, h'.ledger_eq]⟩

end Store

namespace Host

variable {host : Host} {request : Request} {outcome : Outcome}

theorem size_spliced {document : Document} {span : Span} (hfits : Text.Fits document.text span)
    (inserted : String) :
    ((document.spliced span inserted).size : Int) =
      document.size + (Text.size inserted - (span.stop - span.start : Int)) := by
  obtain ⟨hspan, hstop, hstart, hend⟩ := hfits
  have hlength : (document.spliced span inserted).size =
      (Text.bytes (Text.splice document.text span inserted)).length := by
    rw [Text.length_bytes]
    rfl
  rw [hlength, Text.bytes_splice hstart hend]
  simp only [List.length_append, List.length_take, List.length_drop, Text.length_bytes,
    Document.size]
  omega

theorem Step.nodup (h : Step host request outcome) (hnodup : host.scriptNames.Nodup) :
    outcome.host.scriptNames.Nodup := by
  rcases h.names_cases with hsame | ⟨name, text, -, hnot, hnew⟩ | hgone
  · rwa [hsame]
  · rw [hnew]
    refine hnodup.append (List.nodup_singleton name) ?_
    rwa [List.disjoint_singleton]
  · rw [hgone]
    exact hnodup.filter _

theorem Step.told (h : Step host request outcome) (hnodup : host.store.names.Nodup) :
    host.store.Told outcome.events outcome.host.store := by
  refine ⟨h.nodup hnodup, ?_⟩
  cases h with
  | @registered name text absent =>
      exact (Store.ledger_put_eq_enter hnodup (.new name text host.store.limit)).symm
  -- the event that announces the overwriting changes nothing
  | @overwritten name text document found policy =>
      exact (Store.ledger_put_eq_enter hnodup (.new name text host.store.limit)).symm
  | @replaced name text document found =>
      have hname := Store.name_of_find? found
      refine (Store.ledger_put_eq_revise hnodup found (document.replace text).value hname _ ?_).symm
      rw [← hname]
      rfl
  | @edited name inserted span document found fits =>
      have hname := Store.name_of_find? found
      refine (Store.ledger_put_eq_revise hnodup found (document.spliced span inserted) hname
        _ ?_).symm
      rw [Store.entry, Store.entry, size_spliced fits, ← hname]
      rfl
  | removed found => exact (Store.ledger_erase _ _).symm
  | @switched name isOpen document found =>
      have hname := Store.name_of_find? found
      have hkept : host.store.ledger.revise name id = host.store.ledger := by
        simp [Ledger.revise]
      exact hkept.symm.trans
        (Store.ledger_put_eq_revise hnodup found (document.setOpen isOpen) hname id rfl).symm
  | duplicate | misplaced | untracked => rfl
  | @asked name question => cases question <;> rfl

/-! ### Loading

Loading is told as well, also when it stops at a script that cannot be read or is refused: the
scripts before that one have been reported and stay. -/

end Host

namespace Store

variable {store : Store}

theorem told_of_register (hnodup : store.names.Nodup) {name text : String}
    {registered : Logged Store} (h : store.register name text = .ok registered) :
    store.Told registered.events registered.value := by
  have hstep := (⟨store, default⟩ : Host).step_perform (.add name text)
  have htold := hstep.told hnodup
  rw [Host.perform, h] at htold
  exact htold

theorem told_of_registerFiles (hnodup : store.names.Nodup) (top : Node) (root : String)
    (names : List String) :
    store.Told (store.registerFiles top root names).events
      (store.registerFiles top root names).value.1 := by
  induction names generalizing store with
  | nil => exact .refl hnodup nofun
  | cons name rest ih =>
      rw [registerFiles]
      cases top.readScript root name with
      | error cause => exact .refl hnodup nofun
      | ok text =>
          dsimp only
          cases hregister : store.register name text with
          | error cause => exact .refl hnodup nofun
          | ok registered =>
              have htold := told_of_register hnodup hregister
              exact htold.trans (ih htold.nodup)

theorem told_of_loadScripts (hnodup : store.names.Nodup) (top : Node) (root : String)
    (extensions : List String) :
    store.Told (store.loadScripts top root extensions).events
      (store.loadScripts top root extensions).value.1 := by
  unfold loadScripts
  cases top.scan root extensions with
  | error cause => exact .refl hnodup nofun
  | ok names =>
      have htold := told_of_registerFiles hnodup top root names
      dsimp only [Logged.andThen_value, Logged.andThen_events]
      split
      · exact htold.trans ⟨htold.nodup, rfl⟩
      · exact htold.trans (.refl htold.nodup nofun)

end Store

/-! ### Runs

Applying a batch to a text and passing on a message concern no script, and what they report is no
change of one. -/

namespace Batch

theorem level_of_mem_settleAfter {kept : Edit} {edits : List Edit} {event : Event}
    (h : event ∈ (settleAfter kept edits).events) : event.level ≠ .debug := by
  induction edits generalizing kept with
  | nil => cases h
  | cons edit rest ih =>
      rw [settleAfter] at h
      split at h
      · exact ih h
      · split at h
        · rcases List.mem_cons.1 h with rfl | h
          · exact nofun
          · exact ih h
        · rw [List.mem_singleton.1 h]
          exact nofun

theorem level_of_mem_apply (base : String) (edits : List Edit) :
    ∀ event ∈ (apply base edits).events, event.level ≠ .debug := by
  intro event h
  rw [apply, Logged.map_events, settle] at h
  split at h
  · cases h
  · cases hsorted : sorted edits with
    | nil =>
        rw [hsorted] at h
        cases h
    | cons edit rest =>
        rw [hsorted] at h
        exact level_of_mem_settleAfter h

end Batch

namespace Host

/-- What a host is called for. -/
inductive Call where
  | request (request : Request)
  | loadScripts (top : Node) (root : String) (extensions : List String)
  | applyEdits (base : String) (edits : List Edit)
  | log (text : String)

def call (host : Host) : Call → Logged Host
  | .request request => ⟨(host.perform request).host, (host.perform request).events⟩
  | .loadScripts top root extensions => (host.loadScripts top root extensions).map Prod.fst
  | .applyEdits base edits => ⟨host, (Batch.apply base edits).events⟩
  | .log text => ⟨host, host.log text⟩

def callAll (host : Host) : List Call → Logged Host
  | [] => .silent host
  | call :: rest => (host.call call).andThen fun next => next.callAll rest

variable {host : Host}

theorem told_of_call (hnodup : host.store.names.Nodup) (call : Call) :
    host.store.Told (host.call call).events (host.call call).value.store := by
  cases call with
  | request request => exact (host.step_perform request).told hnodup
  | loadScripts top root extensions => exact Store.told_of_loadScripts hnodup top root extensions
  | applyEdits base edits => exact .refl hnodup (Batch.level_of_mem_apply base edits)
  | log text =>
      refine .refl hnodup fun event hevent => ?_
      rw [List.mem_singleton.1 hevent]
      exact nofun

theorem told_of_callAll (hnodup : host.store.names.Nodup) (calls : List Call) :
    host.store.Told (host.callAll calls).events (host.callAll calls).value.store := by
  induction calls generalizing host with
  | nil => exact .refl hnodup nofun
  | cons call rest ih =>
      have htold := told_of_call hnodup call
      exact htold.trans (ih htold.nodup)

/-- Whoever keeps a ledger by the log of a host, from its start on, knows the names of its scripts
in order, and of each script the version and the size. -/
theorem ledger_of_log (config : Config) (calls : List Call) :
    let run := (new config).callAll calls
    let ledger := Ledger.recordAll [] run.events
    ledger.names = run.value.scriptNames ∧
      ∀ name, ledger.find? (·.name = name) =
        (run.value.store.find? name).map fun document =>
          ⟨name, document.version, document.size⟩ := by
  intro run ledger
  have hnodup : (new config).store.names.Nodup := List.nodup_nil
  have htold : (new config).store.Told run.events run.value.store := told_of_callAll hnodup calls
  have hledger : ledger = run.value.store.ledger := htold.ledger_eq
  rw [hledger]
  refine ⟨Store.names_ledger _, fun name => ?_⟩
  have hentry : run.value.store.ledger.find? (·.name = name) =
      (run.value.store.find? name).map Store.entry := List.find?_map
  rw [hentry]
  cases hfound : run.value.store.find? name with
  | none => rfl
  | some document => rw [Option.map_some, Option.map_some, Store.entry, Store.name_of_find? hfound]

end Host

end Scriptorium
