import Scriptorium.Proofs.Host.Order

/-!
# Scripts apart from each other

The outcome of a request depends on the document of the name that it mentions and on the settings of
the host, and on nothing else; and it changes no other document. So what happens to one script in a
run can be told from the requests that mention it. Two hosts are compared here that show the same
document under one name: a request for that name keeps them alike, and a request for another name
can be left out on one side.

Questions that mention no script, such as the list of all names, are functions of the host and
change nothing, so a run does not list them.
-/

namespace Scriptorium

/-- What the one who made a request gets to see of its outcome. -/
def Outcome.visible (outcome : Outcome) : Except Error Answer × List Event :=
  (outcome.answer, outcome.events)

namespace Host

/-- The outcomes of those requests of a run that mention a name. -/
def outcomesFor (host : Host) (name : String) (requests : List Request) : List Outcome :=
  ((requests.zip (host.performAll requests)).filter fun turn => turn.1.name = name).map Prod.snd

/-- Two hosts show the same document under a name and have the same settings. -/
structure Alike (name : String) (host host' : Host) : Prop where
  find_eq : host.store.find? name = host'.store.find? name
  settings_eq : host.settings = host'.settings

variable {name : String} {host host' : Host} {request : Request}

theorem Alike.limit_eq (h : Alike name host host') : host.store.limit = host'.store.limit :=
  congrArg Prod.fst h.settings_eq

theorem Alike.policy_eq (h : Alike name host host') : host.store.policy = host'.store.policy :=
  congrArg (fun settings => settings.2.1) h.settings_eq

theorem Alike.put (h : Alike name host host') {document : Document}
    (hname : document.name = name) : Alike name (host.put document) (host'.put document) := by
  constructor
  · rw [find?_put hname, find?_put hname]
  · rw [settings_put, settings_put, h.settings_eq]

theorem Alike.erase (h : Alike name host host') :
    Alike name (host.erase name) (host'.erase name) := by
  constructor
  · rw [find?_erase, find?_erase]
  · exact h.settings_eq

theorem reply_congr (h : host.store.find? name = host'.store.find? name) (question : Question) :
    host.reply name question = host'.reply name question := by
  have hdocument : host.store.document name = host'.store.document name := by
    unfold Store.document
    rw [h]
  have hcontains : host.store.contains name = host'.store.contains name := by
    unfold Store.contains
    rw [h]
  cases question <;> simp only [reply, hdocument, hcontains]

/-- A request leads to the same on two hosts that are alike for its name. -/
theorem Alike.exists_step {outcome : Outcome} (h : Alike request.name host host')
    (hstep : Step host request outcome) :
    ∃ outcome', Step host' request outcome' ∧ outcome'.visible = outcome.visible ∧
      Alike request.name outcome.host outcome'.host := by
  have hfind := h.find_eq.symm
  cases hstep with
  | registered absent =>
      refine ⟨_, .registered (hfind.trans absent), rfl, ?_⟩
      rw [h.limit_eq]
      exact h.put rfl
  | overwritten found policy =>
      rw [h.policy_eq] at policy
      refine ⟨_, .overwritten (hfind.trans found) policy, rfl, ?_⟩
      rw [h.limit_eq]
      exact h.put rfl
  | duplicate found policy =>
      rw [h.policy_eq] at policy
      exact ⟨_, .duplicate (hfind.trans found) policy, rfl, h⟩
  | replaced found =>
      have hname := Store.name_of_find? found
      exact ⟨_, .replaced (hfind.trans found), rfl, h.put hname⟩
  | edited found fits =>
      have hname := Store.name_of_find? found
      exact ⟨_, .edited (hfind.trans found) fits, rfl, h.put hname⟩
  | misplaced found misfits =>
      exact ⟨_, .misplaced (hfind.trans found) misfits, rfl, h⟩
  | removed found => exact ⟨_, .removed (hfind.trans found), rfl, h.erase⟩
  | switched found =>
      have hname := Store.name_of_find? found
      exact ⟨_, .switched (hfind.trans found), rfl, h.put hname⟩
  | untracked needs absent => exact ⟨_, .untracked needs (hfind.trans absent), rfl, h⟩
  | @asked name question =>
      refine ⟨_, .asked, ?_, h⟩
      have hreply : host'.reply name question = host.reply name question :=
        reply_congr hfind question
      unfold Outcome.visible
      rw [hreply]

theorem Alike.perform (h : Alike name host host') (hname : request.name = name) :
    (host.perform request).visible = (host'.perform request).visible ∧
      Alike name (host.perform request).host (host'.perform request).host := by
  subst hname
  obtain ⟨outcome', hstep, hvisible, halike⟩ := h.exists_step (host.step_perform request)
  rw [hstep.perform_eq]
  exact ⟨hvisible.symm, halike⟩

/-- A request for another name can be left out. -/
theorem Alike.perform_of_ne (h : Alike name host host') (hname : request.name ≠ name) :
    Alike name (host.perform request).host host' := by
  have hstep := host.step_perform request
  exact ⟨(hstep.find?_of_ne hname.symm).trans h.find_eq, hstep.settings_eq.trans h.settings_eq⟩

/-! ### Runs -/

theorem outcomesFor_cons_of_eq (host : Host) (hname : request.name = name)
    (rest : List Request) :
    host.outcomesFor name (request :: rest) =
      host.perform request :: (host.perform request).host.outcomesFor name rest := by
  simp [outcomesFor, performAll, hname]

theorem outcomesFor_cons_of_ne (host : Host) (hname : request.name ≠ name)
    (rest : List Request) :
    host.outcomesFor name (request :: rest) =
      (host.perform request).host.outcomesFor name rest := by
  simp [outcomesFor, performAll, hname]

theorem Alike.filtered_run (h : Alike name host host') (requests : List Request) :
    let own := requests.filter fun request => request.name = name
    (host.outcomesFor name requests).map Outcome.visible =
        (host'.performAll own).map Outcome.visible ∧
      Alike name (host.after requests) (host'.after own) := by
  -- both hosts vary: a request that is left out moves only the first of them
  induction requests generalizing host host' with
  | nil => exact ⟨rfl, h⟩
  | cons request rest ih =>
      by_cases hname : request.name = name
      · obtain ⟨hvisible, hnext⟩ := h.perform hname
        obtain ⟨houtcomes, hlast⟩ := ih hnext
        simp only [hname, List.filter_cons_of_pos, decide_true]
        rw [outcomesFor_cons_of_eq host hname, Host.performAll, List.map_cons, List.map_cons,
          hvisible, houtcomes]
        exact ⟨rfl, hlast⟩
      · obtain ⟨houtcomes, hlast⟩ := ih (h.perform_of_ne hname)
        simp only [hname, decide_false, List.filter_cons_of_neg, Bool.false_eq_true,
          not_false_eq_true]
        rw [outcomesFor_cons_of_ne host hname]
        exact ⟨houtcomes, hlast⟩

/-- What is answered to the requests for one script, and what becomes of it, is the same when all
other requests of the run are left out. So two runs that mix the same requests for each script in
different ways end with the same scripts. Each tracked name is listed once, and the names stand in
the order of the requests that last added each of them to those that were tracked. -/
theorem scripts_isolated (config : Config) (requests : List Request) :
    let host := new config
    let final := host.after requests
    let own (name : String) (requests : List Request) :=
      requests.filter fun request => request.name = name
    (∀ name,
      (host.outcomesFor name requests).map Outcome.visible =
          (host.performAll (own name requests)).map Outcome.visible ∧
        final.store.find? name = (host.after (own name requests)).store.find? name) ∧
      (∀ others, (∀ name, own name others = own name requests) →
        ∀ name, (host.after others).store.find? name = final.store.find? name) ∧
      final.scriptNames.Nodup ∧
      (∀ name, name ∈ final.scriptNames ↔ ∃ document, final.store.find? name = some document) ∧
      (∀ name ∈ final.scriptNames,
        ∃ i text, host.EntersLast requests name i ∧ requests[i]? = some (.add name text)) ∧
      final.scriptNames.Pairwise fun a b =>
        ∀ i j, host.EntersLast requests a i → host.EntersLast requests b j → i < j := by
  intro host final own
  have halike (name : String) : Alike name host host := ⟨rfl, rfl⟩
  have hempty : host.scriptNames = [] := rfl
  obtain ⟨hentered, hordered⟩ := entersLast_ordered hempty requests
  refine ⟨?_, ?_, ?_, fun name => mem_scriptNames_iff, hentered, hordered⟩
  · intro name
    obtain ⟨houtcomes, hlast⟩ := (halike name).filtered_run requests
    exact ⟨houtcomes, hlast.find_eq⟩
  · intro others hsame name
    have hlast := ((halike name).filtered_run requests).2.find_eq
    have hothers := ((halike name).filtered_run others).2.find_eq
    have hown : own name others = own name requests := hsame name
    calc
      (host.after others).store.find? name = (host.after (own name others)).store.find? name :=
        hothers
      _ = (host.after (own name requests)).store.find? name := by rw [hown]
      _ = final.store.find? name := hlast.symm
  · -- a name that stood twice would come in before itself
    refine hordered.imp_of_mem ?_
    rintro a b ha - hlt rfl
    obtain ⟨i, text, hlast, -⟩ := hentered a ha
    exact Nat.lt_irrefl i (hlt i i hlast hlast)

end Host

end Scriptorium
