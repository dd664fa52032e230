import Mathlib.Tactic.ByContra
import Scriptorium.Proofs.Host.Reached

/-!
# When a change is refused

A host refuses to change a script for three reasons: the name is taken, nothing has that name, or
the span does not fit the text. No other reason exists, and where one of these holds the request is
refused. Then everything is as it was before.
-/

namespace Scriptorium

namespace Text

variable {text : String} {span : Span}

/-- An offset lies inside a character. -/
def Splits (text : String) (offset : Nat) : Prop :=
  offset < size text ∧ ¬ IsBoundary text offset

/-- A span is out of order, goes past the end of a text, or cuts one of its characters. -/
def Misplaced (text : String) (span : Span) : Prop :=
  span.stop < span.start ∨ size text < span.stop ∨ Splits text span.start ∨
    Splits text span.stop

theorem isBoundary_of_not_splits {offset : Nat} (hle : offset ≤ size text)
    (h : ¬ Splits text offset) : IsBoundary text offset := by
  apply isBoundary_of_le hle
  intro hlt
  by_contra hnot
  exact h ⟨hlt, hnot⟩

theorem misplaced_iff : Misplaced text span ↔ ¬ Fits text span := by
  constructor
  · rintro (hinverted | hpast | ⟨-, hstart⟩ | ⟨-, hstop⟩) ⟨hle, hsize, hboundary, hboundary'⟩
    · exact Nat.not_lt_of_le hle hinverted
    · exact Nat.not_lt_of_le hsize hpast
    · exact hstart hboundary
    · exact hstop hboundary'
  · intro hmisfits
    by_contra hplaced
    unfold Misplaced at hplaced
    simp only [not_or, Nat.not_lt] at hplaced
    obtain ⟨hle, hsize, hstart, hstop⟩ := hplaced
    apply hmisfits
    refine ⟨hle, hsize, ?_, isBoundary_of_not_splits hsize hstop⟩
    exact isBoundary_of_not_splits (Nat.le_trans hle hsize) hstart

end Text

namespace Request

/-- Requests that would change the host. -/
def isChange : Request → Bool
  | .ask .. => false
  | _ => true

/-- Requests that give a script another text. -/
def isRevision : Request → Bool
  | .update .. | .edit .. => true
  | _ => false

end Request

namespace Host

variable {host : Host} {request : Request} {outcome : Outcome} {cause : Error}

/-- Why a change of a host has to be refused. -/
inductive Refused (host : Host) : Request → Error → Prop where
  | duplicate {name text : String} (tracked : name ∈ host.scriptNames)
      (policy : host.config.onDuplicate = .reject) :
      Refused host (.add name text) (.alreadyTracked name)
  | untracked {request : Request} (needs : request.needsScript = true)
      (untracked : request.name ∉ host.scriptNames) :
      Refused host request (.untracked request.name)
  | misplaced {name inserted : String} {span : Span} {document : Document}
      (found : host.store.find? name = some document)
      (misplaced : Text.Misplaced document.text span) :
      Refused host (.edit name span inserted) (.misplaced span document.size)

theorem refused_iff (hpolicy : host.store.policy = host.config.onDuplicate)
    (hchange : request.isChange = true) :
    (host.perform request).answer = .error cause ↔ host.Refused request cause := by
  constructor
  · intro herror
    have hstep := host.step_perform request
    -- as a variable, the outcome can take the form that each case gives it
    generalize host.perform request = outcome at hstep herror
    cases hstep with
    | duplicate found policy =>
        cases herror
        rw [hpolicy] at policy
        exact .duplicate (mem_scriptNames_iff.2 ⟨_, found⟩) policy
    | misplaced found misfits =>
        cases herror
        exact .misplaced found (Text.misplaced_iff.2 misfits)
    | untracked needs absent =>
        cases herror
        exact .untracked needs (not_mem_scriptNames_iff.2 absent)
    | asked => cases hchange
    | _ => cases herror
  · intro hrefused
    cases hrefused with
    | duplicate tracked policy =>
        obtain ⟨document, found⟩ := mem_scriptNames_iff.1 tracked
        rw [← hpolicy] at policy
        rw [(Step.duplicate found policy).perform_eq]
    | untracked needs untracked =>
        rw [(Step.untracked needs (not_mem_scriptNames_iff.1 untracked)).perform_eq]
    | misplaced found misplaced =>
        rw [(Step.misplaced found (Text.misplaced_iff.1 misplaced)).perform_eq]

/-- A refusal leaves the host as it is and is not reported as a change. -/
theorem Step.of_error (h : Step host request outcome) (herror : outcome.answer = .error cause) :
    outcome.host = host ∧ ∀ event ∈ outcome.events, event.level ≠ .debug := by
  cases h with
  | duplicate | misplaced | untracked => exact ⟨rfl, nofun⟩
  | @asked name question =>
      refine ⟨rfl, ?_⟩
      intro event hevent
      cases question with
      | deltaSince version =>
          rw [List.mem_singleton.1 hevent]
          exact nofun
      | _ => cases hevent
  | _ => cases herror

/-- A revision raises the version of its script by one and touches nothing else. -/
theorem Step.of_revision (h : Step host request outcome) (hrevision : request.isRevision = true)
    {answer : Answer} (hanswer : outcome.answer = .ok answer) :
    ∃ document next, host.store.find? request.name = some document ∧
      outcome.host.store.find? request.name = some next ∧
      next.version = document.version + 1 ∧ answer = .version next.version ∧
      outcome.host.scriptNames = host.scriptNames := by
  cases h with
  | replaced found =>
      cases hanswer
      have hname := Store.name_of_find? found
      exact ⟨_, _, found, find?_put hname, rfl, rfl, scriptNames_put found hname⟩
  | edited found fits =>
      cases hanswer
      have hname := Store.name_of_find? found
      exact ⟨_, _, found, find?_put hname, rfl, rfl, scriptNames_put found hname⟩
  | misplaced | untracked => cases hanswer
  | _ => cases hrevision

/-- A change of a host that has been reached in any way is refused for one of the known reasons, and
whenever one of them holds. A refusal leaves every script, the order of the names and the settings
as they are. A revision that succeeds answers with the version of its script, which it has raised by
one, and touches no other script. -/
theorem changes_all_or_nothing {config : Config} {host : Host} (h : Reached config host) :
    host.settings = (config.historyLimit, config.onDuplicate, config) ∧
      (∀ request cause, request.isChange = true →
        ((host.perform request).answer = .error cause ↔ host.Refused request cause)) ∧
      (∀ request cause, (host.perform request).answer = .error cause →
        (host.perform request).host = host ∧
          ∀ event ∈ (host.perform request).events, event.level ≠ .debug) ∧
      ∀ request answer, request.isRevision = true →
        (host.perform request).answer = .ok answer →
        let result := (host.perform request).host
        (∃ document next, host.store.find? request.name = some document ∧
          result.store.find? request.name = some next ∧
          next.version = document.version + 1 ∧ answer = .version next.version) ∧
        (∀ name, name ≠ request.name → result.store.find? name = host.store.find? name) ∧
        result.scriptNames = host.scriptNames ∧ result.settings = host.settings := by
  have hsettings : host.settings = (new config).settings := by
    obtain ⟨requests, rfl⟩ := h.exists_run
    exact settings_after _ _
  have hpolicy : host.store.policy = host.config.onDuplicate := by
    have hstore : host.store.policy = config.onDuplicate :=
      congrArg (fun settings => settings.2.1) hsettings
    have hconfig : host.config = config := congrArg (fun settings => settings.2.2) hsettings
    rw [hstore, hconfig]
  refine ⟨hsettings, fun request cause hchange => refused_iff hpolicy hchange, ?_, ?_⟩
  · intro request cause herror
    exact (host.step_perform request).of_error herror
  · intro request answer hrevision hanswer result
    have hstep := host.step_perform request
    obtain ⟨document, next, hfound, hnext, hversion, hanswer, hnames⟩ :=
      hstep.of_revision hrevision hanswer
    exact ⟨⟨document, next, hfound, hnext, hversion, hanswer⟩,
      fun name hname => hstep.find?_of_ne hname, hnames, hstep.settings_eq⟩

/-- The second character of the text takes two bytes, so a span can end inside it or behind it. -/
theorem changes_all_or_nothing_multibyte :
    let host := (new .empty).after [.add "f" "añb", .add "g" ""]
    Reached .empty host ∧
      (host.perform (.edit "f" ⟨1, 2⟩ "n")).answer = .error (.misplaced ⟨1, 2⟩ 4) ∧
      host.Refused (.edit "f" ⟨1, 2⟩ "n") (.misplaced ⟨1, 2⟩ 4) ∧
      (host.perform (.edit "f" ⟨1, 2⟩ "n")).host = host ∧
      (host.perform (.edit "f" ⟨1, 3⟩ "n")).answer = .ok (.version 2) ∧
      (host.perform (.edit "f" ⟨1, 3⟩ "n")).host.store.find? "g" = host.store.find? "g" := by
  intro host
  have hreached : Reached .empty host := reached_after .empty [.add "f" "añb", .add "g" ""]
  have herror : (host.perform (.edit "f" ⟨1, 2⟩ "n")).answer = .error (.misplaced ⟨1, 2⟩ 4) := by
    decide
  have hanswer : (host.perform (.edit "f" ⟨1, 3⟩ "n")).answer = .ok (.version 2) := by decide
  obtain ⟨-, hrefused, hsame, hrevised⟩ := changes_all_or_nothing hreached
  have hothers := (hrevised _ _ rfl hanswer).2.1
  exact ⟨hreached, herror, (hrefused _ _ rfl).1 herror, (hsame _ _ herror).1, hanswer,
    hothers "g" (by decide)⟩

end Host

end Scriptorium
