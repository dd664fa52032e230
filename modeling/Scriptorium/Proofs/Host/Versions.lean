import Mathlib.Data.List.Induction
import Scriptorium.Proofs.Document.Delta
import Scriptorium.Proofs.Host.Step

/-!
# Versions that were handed out

A version is handed out together with the text that the script has at that moment, and later the
host is asked what has changed since. It goes by the number alone. While a document lives, a number
stands for one text, and the answer is about that text. But a script that is registered anew begins
again at the first version, so the same number can come to stand for another text, and from then on
it is that one which the answer is about.
-/

namespace Scriptorium

/-- What a delta says about an older text and a newer one is true. -/
def Delta.Describes (old new : String) : Delta → Prop
  | .unchanged => old = new
  | .unknown => True
  | .changed change =>
      Text.Fits old change.span ∧ Text.Fits new change.newSpan ∧
        Text.splice old change.span (Text.slice new change.newSpan) = new

instance (old new : String) (delta : Delta) : Decidable (delta.Describes old new) :=
  match delta with
  | .unchanged => inferInstanceAs (Decidable (old = new))
  | .unknown => inferInstanceAs (Decidable True)
  | .changed _ => inferInstanceAs (Decidable (_ ∧ _ ∧ _))

namespace Document

variable {earlier document next : Document} {taken : List Splice} {version : Nat} {text : String}

theorem Since.exists_describes (h : Since earlier taken document) (hsound : document.Sound)
    (hsize : earlier.size < wordCount) :
    ∃ delta, document.deltaSince earlier.version = .ok delta ∧
      delta.Describes earlier.text document.text := by
  obtain ⟨delta, hdelta, hunchanged, -, hchanged⟩ := h.exists_deltaSince hsound hsize
  refine ⟨delta, hdelta, ?_⟩
  cases delta with
  | unchanged => exact (hunchanged rfl).2
  | unknown => trivial
  | changed change =>
      have hexact := (hchanged change rfl).2.1
      exact ⟨hexact.fits_old, hexact.fits_new, hexact.splice_eq⟩

/-- A document has come from one that had a version and a text. -/
def ComesFrom (document : Document) (version : Nat) (text : String) : Prop :=
  ∃ earlier taken, earlier.version = version ∧ earlier.text = text ∧ Since earlier taken document

theorem Sound.comesFrom (h : document.Sound) : document.ComesFrom document.version document.text :=
  ⟨document, [], rfl, rfl, .refl h⟩

theorem Sound.setOpen (h : document.Sound) (isOpen : Bool) : (document.setOpen isOpen).Sound :=
  ⟨h.version_eq, h.length_le, h.lines_eq⟩

theorem ComesFrom.setOpen (h : document.ComesFrom version text) (isOpen : Bool) :
    (document.setOpen isOpen).ComesFrom version text := by
  obtain ⟨earlier, taken, hversion, htext, hsince⟩ := h
  exact ⟨earlier, taken, hversion, htext,
    ⟨hsince.version_le, hsince.base_le, hsince.records_eq, hsince.leads⟩⟩

theorem ComesFrom.step {action : Action} (h : document.ComesFrom version text)
    (hsound : document.Sound) (hstep : Step document action next taken) :
    next.ComesFrom version text := by
  obtain ⟨earlier, past, hversion, htext, hsince⟩ := h
  exact ⟨earlier, past ++ taken, hversion, htext, hsince.step hsound hstep⟩

end Document

namespace Host

variable {host : Host} {request : Request} {outcome : Outcome} {name : String}
  {document next : Document} {version : Nat} {text : String}

theorem eq_of_find?_put (h : (host.put document).store.find? name = some next)
    (hname : document.name = name) : next = document := by
  rw [find?_put hname] at h
  exact (Option.some.inj h).symm

theorem Step.find?_cases (h : Step host request outcome)
    (hnext : outcome.host.store.find? name = some next) :
    host.store.find? name = some next ∨
      (∃ text, request = .add name text ∧ outcome.answer = .ok .done ∧
        next = .new name text host.store.limit) ∨
      ∃ document, host.store.find? name = some document ∧
        ((∃ isOpen, next = document.setOpen isOpen) ∨
          ∃ action taken, document.Step action next taken) := by
  by_cases hname : name = request.name
  · subst hname
    cases h with
    | @registered name text absent | @overwritten name text document found policy =>
        have hnew := eq_of_find?_put hnext rfl
        exact .inr (.inl ⟨text, rfl, rfl, hnew⟩)
    | @replaced name text document found =>
        have hname := Store.name_of_find? found
        obtain rfl := eq_of_find?_put hnext hname
        exact .inr (.inr ⟨document, found, .inr ⟨_, _, .replaced text⟩⟩)
    | @edited name inserted span document found fits =>
        have hname := Store.name_of_find? found
        obtain rfl := eq_of_find?_put hnext hname
        exact .inr (.inr ⟨document, found, .inr ⟨_, _, .accepted fits⟩⟩)
    | @switched name isOpen document found =>
        have hname := Store.name_of_find? found
        obtain rfl := eq_of_find?_put hnext hname
        exact .inr (.inr ⟨document, found, .inl ⟨isOpen, rfl⟩⟩)
    | @removed name document found =>
        have habsent := host.find?_erase name
        cases habsent.symm.trans hnext
    | duplicate | misplaced | untracked | asked => exact .inl hnext
  · rw [h.find?_of_ne hname] at hnext
    exact .inl hnext

/-- The documents of a host that has been reached are in order, and none has a version below the
first. -/
theorem sound_of_find? (config : Config) (requests : List Request)
    (hfound : ((new config).after requests).store.find? name = some document) :
    document.Sound ∧ 0 < document.version := by
  induction requests using List.reverseRecOn generalizing document with
  | nil => cases hfound
  | append_singleton requests request ih =>
      rw [after_concat] at hfound
      have hstep := ((new config).after requests).step_perform request
      rcases hstep.find?_cases hfound with
        hsame | ⟨text, -, -, rfl⟩ | ⟨before, hbefore, ⟨isOpen, rfl⟩ | ⟨action, taken, hstep⟩⟩
      · exact ih hsame
      · exact ⟨Document.sound_new _ _ _, Nat.one_pos⟩
      · obtain ⟨hsound, hpos⟩ := ih hbefore
        exact ⟨hsound.setOpen isOpen, hpos⟩
      · obtain ⟨hsound, hpos⟩ := ih hbefore
        exact ⟨hsound.step hstep, Nat.lt_of_lt_of_le hpos hstep.version_le.1⟩

/-! ### What a version stands for -/

/-- Who asks for the version and the text of a script gets these. -/
def Shows (host : Host) (name : String) (version : Nat) (text : String) : Prop :=
  host.reply name .version = .ok (.version version) ∧ host.reply name .text = .ok (.text text)

/-- Whenever a script has a version in the course of a run, it has one and the same text. -/
def StandsFor (host : Host) (requests : List Request) (name : String) (version : Nat)
    (text : String) : Prop :=
  ∀ past other, past <+: requests → (host.after past).Shows name version other → other = text

/-- A request of a run makes a new document for a name. -/
def Registers (host : Host) (requests : List Request) (name : String) : Prop :=
  ∃ past text, past ++ [.add name text] <+: requests ∧
    ((host.after past).perform (.add name text)).answer = .ok .done

/-- What is answered for a version is true of the text that it was handed out with. -/
def AnswersFor (host : Host) (name : String) (version : Nat) (text : String) : Prop :=
  (name ∉ host.scriptNames ∧ host.reply name (.deltaSince version) = .error (.untracked name)) ∨
    ∃ current latest, host.Shows name current latest ∧
      (current < version ∧
          host.reply name (.deltaSince version) = .error (.futureVersion version current) ∨
        ∃ delta, host.reply name (.deltaSince version) = .ok (.delta delta) ∧
          delta.Describes text latest)

theorem shows_of_find? (hfound : host.store.find? name = some document) :
    host.Shows name document.version document.text := by
  unfold Shows reply
  rw [Store.document_eq_ok hfound]
  exact ⟨rfl, rfl⟩

theorem shows_iff :
    host.Shows name version text ↔
      ∃ document, host.store.find? name = some document ∧ document.version = version ∧
        document.text = text := by
  constructor
  · rintro ⟨hversion, htext⟩
    cases hfind : host.store.find? name with
    | none =>
        rw [reply, Store.document_eq_error hfind] at hversion
        cases hversion
    | some document =>
        obtain ⟨hversion', htext'⟩ := shows_of_find? hfind
        rw [hversion] at hversion'
        rw [htext] at htext'
        cases hversion'
        cases htext'
        exact ⟨document, rfl, rfl, rfl⟩
  · rintro ⟨document, hfound, rfl, rfl⟩
    exact shows_of_find? hfound

theorem AnswersFor.describes {delta : Delta} {latest : String}
    (h : host.AnswersFor name version text)
    (hdelta : host.reply name (.deltaSince version) = .ok (.delta delta))
    (hlatest : host.reply name .text = .ok (.text latest)) : delta.Describes text latest := by
  rcases h with ⟨-, hanswer⟩ | ⟨current, latest', ⟨-, htext⟩, ⟨-, hanswer⟩ | ⟨delta', hanswer, h⟩⟩
  · cases hdelta.symm.trans hanswer
  · cases hdelta.symm.trans hanswer
  · cases hdelta.symm.trans hanswer
    cases hlatest.symm.trans htext
    exact h

theorem Registers.mono {requests past : List Request} (h : host.Registers past name)
    (hpast : past <+: requests) : host.Registers requests name := by
  obtain ⟨first, text, hfirst, hdone⟩ := h
  exact ⟨first, text, hfirst.trans hpast, hdone⟩

theorem StandsFor.of_concat {requests : List Request}
    (h : host.StandsFor (requests ++ [request]) name version text) :
    host.StandsFor requests name version text := by
  intro past other hpast
  exact h past other (hpast.trans (List.prefix_append _ _))

section Run

variable {config : Config} {before after : List Request}

theorem sound_of_find?_after
    (hfound : (((new config).after before).after after).store.find? name = some document) :
    document.Sound := by
  rw [← after_append] at hfound
  exact (sound_of_find? config (before ++ after) hfound).1

theorem Shows.comesFrom (h : ((new config).after before).Shows name version text)
    (hfound : ((new config).after before).store.find? name = some document) :
    document.ComesFrom version text := by
  obtain ⟨first, hfirst, rfl, rfl⟩ := shows_iff.1 h
  rw [hfirst] at hfound
  cases hfound
  exact (sound_of_find? config before hfirst).1.comesFrom

theorem comesFrom_of_not_registers
    (hshown : ((new config).after before).Shows name version text)
    (hregisters : ¬ ((new config).after before).Registers after name)
    (hfound : (((new config).after before).after after).store.find? name = some document) :
    document.ComesFrom version text := by
  induction after using List.reverseRecOn generalizing document with
  | nil => exact hshown.comesFrom hfound
  | append_singleton after request ih =>
      have hbefore : ¬ ((new config).after before).Registers after name :=
        fun h => hregisters (h.mono (List.prefix_append _ _))
      rw [after_concat] at hfound
      have hstep := (((new config).after before).after after).step_perform request
      rcases hstep.find?_cases hfound with
        hsame | ⟨text, rfl, hdone, -⟩ | ⟨older, holder, ⟨isOpen, rfl⟩ | ⟨action, taken, hnext⟩⟩
      · exact ih hbefore hsame
      -- only a registration makes a document that has not come from the one before
      · exact absurd ⟨after, text, List.prefix_rfl, hdone⟩ hregisters
      · exact (ih hbefore holder).setOpen isOpen
      · exact (ih hbefore holder).step (sound_of_find?_after holder) hnext

theorem standsFor_of_not_registers
    (hshown : ((new config).after before).Shows name version text)
    (hregisters : ¬ ((new config).after before).Registers after name) :
    ((new config).after before).StandsFor after name version text := by
  intro past other hpast hother
  obtain ⟨later, hlater, hversion, rfl⟩ := shows_iff.1 hother
  have hpastRegisters : ¬ ((new config).after before).Registers past name :=
    fun h => hregisters (h.mono hpast)
  obtain ⟨earlier, taken, hearlier, rfl, hsince⟩ :=
    comesFrom_of_not_registers hshown hpastRegisters hlater
  have hsound := sound_of_find?_after hlater
  exact (hsince.text_eq hsound (hearlier.trans hversion.symm)).symm

/-- As long as a version stands for one text, a document that has reached it comes from there,
even if it was registered in between. -/
theorem comesFrom_of_standsFor
    (hshown : ((new config).after before).Shows name version text)
    (hstands : ((new config).after before).StandsFor after name version text)
    (hfound : (((new config).after before).after after).store.find? name = some document)
    (hle : version ≤ document.version) : document.ComesFrom version text := by
  induction after using List.reverseRecOn generalizing document with
  | nil => exact hshown.comesFrom hfound
  | append_singleton after request ih =>
      have hsound := sound_of_find?_after hfound
      -- a document that has just got to the version has its text
      have hreached : document.version = version → document.ComesFrom version text := by
        rintro rfl
        have htext := hstands _ _ List.prefix_rfl (shows_of_find? hfound)
        rw [← htext]
        exact hsound.comesFrom
      rw [after_concat] at hfound
      have hstep := (((new config).after before).after after).step_perform request
      rcases hstep.find?_cases hfound with
        hsame | ⟨text, rfl, hdone, rfl⟩ | ⟨older, holder, ⟨isOpen, rfl⟩ | ⟨action, taken, hnext⟩⟩
      · exact ih hstands.of_concat hsame hle
      · -- a new document has the first version, and none that was handed out lies below it
        obtain ⟨first, hfirst, hversion, -⟩ := shows_iff.1 hshown
        have hpos := (sound_of_find? config before hfirst).2
        rw [hversion] at hpos
        exact hreached (Nat.le_antisymm hpos hle)
      · exact (ih hstands.of_concat holder hle).setOpen isOpen
      · by_cases hold : version ≤ older.version
        · have hcomes := ih hstands.of_concat holder hold
          exact hcomes.step (sound_of_find?_after holder) hnext
        · have hstep := hnext.version_le
          exact hreached (by omega)

end Run

theorem exists_answer (hfound : host.store.find? name = some document)
    (hsound : document.Sound) (hcomes : document.ComesFrom version text)
    (hsize : Text.size text < wordCount) :
    ∃ delta, host.reply name (.deltaSince version) = .ok (.delta delta) ∧
      delta.Describes text document.text := by
  obtain ⟨earlier, taken, rfl, rfl, hsince⟩ := hcomes
  obtain ⟨delta, hdelta, hdescribes⟩ := hsince.exists_describes hsound hsize
  refine ⟨delta, ?_, hdescribes⟩
  simp only [reply, Store.document_eq_ok hfound, bind, Except.bind, hdelta]
  rfl

/-- A version that was handed out stands for its text at least until its name is registered anew.
And as long as it does, whatever is answered to the question what has changed since is true of that
text: there is no such script any more, or it has not reached that version, or what is said of the
change leads from the old text to the one that the script has. -/
theorem answers_of_shown (config : Config) (before after : List Request) (name : String)
    (version : Nat) (text : String) (hsize : Text.size text < wordCount)
    (hshown : ((new config).after before).Shows name version text) :
    let host := (new config).after before
    (¬ host.Registers after name → host.StandsFor after name version text) ∧
      (host.StandsFor after name version text →
        (host.after after).AnswersFor name version text) := by
  intro host
  refine ⟨standsFor_of_not_registers hshown, ?_⟩
  intro hstands
  cases hfind : (host.after after).store.find? name with
  | none =>
      left
      refine ⟨not_mem_scriptNames_iff.2 hfind, ?_⟩
      rw [reply, Store.document_eq_error hfind]
      rfl
  | some document =>
      right
      refine ⟨document.version, document.text, shows_of_find? hfind, ?_⟩
      have hsound := sound_of_find?_after hfind
      by_cases hle : version ≤ document.version
      · right
        have hcomes := comesFrom_of_standsFor hshown hstands hfind hle
        exact exists_answer hfind hsound hcomes hsize
      · left
        have hlt : document.version < version := Nat.lt_of_not_le hle
        refine ⟨hlt, ?_⟩
        have hfuture : document.deltaSince version =
            .error (.futureVersion version document.version) := by
          rw [Document.deltaSince, History.since, if_pos hlt]
        simp only [reply, Store.document_eq_ok hfind, bind, Except.bind, hfuture]

/-- The name is registered anew, but its second version has the same text for a second time. -/
theorem answers_of_shown_renewed :
    let host := (new .empty).after [.add "f" "añb", .edit "f" ⟨1, 3⟩ "n"]
    let after : List Request :=
      [.remove "f", .add "f" "ab", .edit "f" ⟨1, 1⟩ "n", .edit "f" ⟨3, 3⟩ "é"]
    Text.size "anb" < wordCount ∧ host.Shows "f" 2 "anb" ∧ host.Registers after "f" ∧
      (host.after after).reply "f" (.deltaSince 2) = .ok (.delta (.changed ⟨⟨3, 3⟩, 2⟩)) ∧
      (host.after after).AnswersFor "f" 2 "anb" := by
  intro host after
  have hsize : Text.size "anb" < wordCount := by decide
  have hshown : host.Shows "f" 2 "anb" := ⟨by decide, by decide⟩
  have hregisters : host.Registers after "f" :=
    ⟨[.remove "f"], "ab", ⟨[.edit "f" ⟨1, 1⟩ "n", .edit "f" ⟨3, 3⟩ "é"], rfl⟩, by decide⟩
  have hstands : host.StandsFor after "f" 2 "anb" := by
    have hall : ∀ past ∈ after.inits,
        (host.after past).reply "f" .version = .ok (.version 2) →
          (host.after past).reply "f" .text = .ok (.text "anb") := by
      decide
    intro past other hpast hother
    have htext := hall past ((List.mem_inits past after).2 hpast) hother.1
    rw [hother.2] at htext
    cases htext
    rfl
  have hanswers := (answers_of_shown .empty [.add "f" "añb", .edit "f" ⟨1, 3⟩ "n"] after "f" 2 "anb"
    hsize hshown).2 hstands
  exact ⟨hsize, hshown, hregisters, by decide, hanswers⟩

/-- Where a name is registered anew, by removing it before or by overwriting it, a version can be
handed out with a second text. The host then finds nothing changed, or a change between other texts,
and is wrong about the first one. -/
theorem not_answersFor_of_reused :
    let removed := (new .empty).after [.add "f" "a"]
    let renewed := removed.after [.remove "f", .add "f" "b"]
    let first := (new { Config.empty with onDuplicate := .overwrite }).after
      [.add "f" "abc", .edit "f" ⟨0, 1⟩ "xy"]
    let second := first.after [.add "f" "q", .edit "f" ⟨1, 1⟩ "r", .edit "f" ⟨0, 1⟩ "s"]
    (removed.Shows "f" 1 "a" ∧ renewed.Shows "f" 1 "b" ∧
        renewed.reply "f" (.deltaSince 1) = .ok (.delta .unchanged) ∧
        ¬ renewed.AnswersFor "f" 1 "a") ∧
      first.Shows "f" 2 "xybc" ∧ second.Shows "f" 3 "sr" ∧
        second.reply "f" (.deltaSince 2) = .ok (.delta (.changed ⟨⟨0, 1⟩, 1⟩)) ∧
        ¬ second.AnswersFor "f" 2 "xybc" := by
  intro removed renewed first second
  have hrenewed : renewed.reply "f" (.deltaSince 1) = .ok (.delta .unchanged) := by decide
  have hsecond : second.reply "f" (.deltaSince 2) = .ok (.delta (.changed ⟨⟨0, 1⟩, 1⟩)) := by decide
  have htext : renewed.reply "f" .text = .ok (.text "b") := by decide
  have htext' : second.reply "f" .text = .ok (.text "sr") := by decide
  refine ⟨⟨⟨by decide, by decide⟩, ⟨by decide, htext⟩, hrenewed, ?_⟩, ⟨by decide, by decide⟩,
    ⟨by decide, htext'⟩, hsecond, ?_⟩
  · intro hanswers
    exact absurd (hanswers.describes hrenewed htext) (by decide)
  · intro hanswers
    exact absurd (hanswers.describes hsecond htext') (by decide)

end Host

end Scriptorium
