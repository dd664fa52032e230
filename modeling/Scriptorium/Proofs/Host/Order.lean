import Mathlib.Data.List.Induction
import Mathlib.Order.Bounds.Basic
import Scriptorium.Proofs.Host.Step

/-!
# The order of names

A name that comes in goes to the end of the list, and it stays where it is until it leaves. So at
every moment the names stand in the order of the requests that brought them in, each counted by the
last time that it was not there before.
-/

namespace Scriptorium.Host

variable {host : Host} {requests : List Request} {request : Request} {outcome : Outcome}
  {name : String} {i j : Nat}

/-- The request at an index of a run makes a name tracked that was not. -/
def Enters (host : Host) (requests : List Request) (name : String) (i : Nat) : Prop :=
  name ∉ (host.after (requests.take i)).scriptNames ∧
    name ∈ (host.after (requests.take (i + 1))).scriptNames

/-- No later request of the run makes it tracked again. -/
def EntersLast (host : Host) (requests : List Request) (name : String) (i : Nat) : Prop :=
  IsGreatest {j | host.Enters requests name j} i

theorem Enters.lt_length (h : host.Enters requests name i) : i < requests.length := by
  by_contra hlt
  obtain ⟨hbefore, hafter⟩ := h
  have hle : requests.length ≤ i := Nat.le_of_not_lt hlt
  rw [List.take_of_length_le hle] at hbefore
  rw [List.take_of_length_le (Nat.le_succ_of_le hle)] at hafter
  exact hbefore hafter

theorem enters_concat_iff (hlt : i < requests.length) :
    host.Enters (requests ++ [request]) name i ↔ host.Enters requests name i := by
  unfold Enters
  rw [List.take_append_of_le_length (Nat.le_of_lt hlt), List.take_append_of_le_length hlt]

theorem enters_concat_length :
    host.Enters (requests ++ [request]) name requests.length ↔
      name ∉ (host.after requests).scriptNames ∧
        name ∈ (host.after (requests ++ [request])).scriptNames := by
  have hlast : (requests ++ [request]).take (requests.length + 1) = requests ++ [request] :=
    List.take_of_length_le (by simp)
  unfold Enters
  rw [List.take_left, hlast]

theorem entersLast_concat_iff (hmem : name ∈ (host.after requests).scriptNames) :
    host.EntersLast (requests ++ [request]) name i ↔ host.EntersLast requests name i := by
  have hsame : ∀ j, host.Enters (requests ++ [request]) name j ↔ host.Enters requests name j := by
    intro j
    rcases Nat.lt_trichotomy j requests.length with hlt | rfl | hgt
    · exact enters_concat_iff hlt
    · rw [enters_concat_length]
      constructor
      -- the new request does not count for a name that is there already
      · rintro ⟨hnot, -⟩
        exact absurd hmem hnot
      · intro h
        exact absurd h.lt_length (Nat.lt_irrefl _)
    · constructor
      · intro h
        have hlt := h.lt_length
        rw [List.length_append, List.length_singleton] at hlt
        omega
      · intro h
        exact absurd h.lt_length (Nat.lt_asymm hgt)
  unfold EntersLast
  simp only [hsame]

theorem entersLast_length (hnot : name ∉ (host.after requests).scriptNames)
    (hmem : name ∈ (host.after (requests ++ [request])).scriptNames) :
    host.EntersLast (requests ++ [request]) name requests.length := by
  refine ⟨enters_concat_length.2 ⟨hnot, hmem⟩, ?_⟩
  intro j hj
  have hlt := hj.lt_length
  rw [List.length_append, List.length_singleton] at hlt
  exact Nat.le_of_lt_succ hlt

/-! ### What a request does to the names

They stay, or one more comes in by being added, or one leaves. -/

theorem Step.names_cases (h : Step host request outcome) :
    outcome.host.scriptNames = host.scriptNames ∨
      (∃ name text, request = .add name text ∧ name ∉ host.scriptNames ∧
        outcome.host.scriptNames = host.scriptNames ++ [name]) ∨
      outcome.host.scriptNames = host.scriptNames.filter (· ≠ request.name) := by
  cases h with
  | @registered name text absent =>
      refine .inr (.inl ⟨name, text, rfl, not_mem_scriptNames_iff.2 absent, ?_⟩)
      unfold scriptNames put
      rw [Store.names_put]
      simp only [Document.new, Store.contains_eq_false absent]
      rfl
  | overwritten found policy => exact .inl (scriptNames_put found rfl)
  | replaced found | edited found fits | switched found =>
      have hname := Store.name_of_find? found
      left
      exact scriptNames_put found hname
  | removed found => exact .inr (.inr (Store.names_erase _ _))
  | duplicate | misplaced | untracked | asked => exact .inl rfl

/-- In a run that starts without any name, each name has a last time of coming in, and the names
stand in the order of these times. -/
theorem entersLast_ordered (hempty : host.scriptNames = []) (requests : List Request) :
    (∀ name ∈ (host.after requests).scriptNames,
        ∃ i text, host.EntersLast requests name i ∧ requests[i]? = some (.add name text)) ∧
      (host.after requests).scriptNames.Pairwise fun a b =>
        ∀ i j, host.EntersLast requests a i → host.EntersLast requests b j → i < j := by
  induction requests using List.reverseRecOn with
  | nil => simp [hempty]
  | append_singleton requests request ih =>
      obtain ⟨hentered, hordered⟩ := ih
      -- what holds of the names before the request does so after it, as long as they stay
      have hkept : ∀ name ∈ (host.after requests).scriptNames, ∃ i text,
          host.EntersLast (requests ++ [request]) name i ∧
            (requests ++ [request])[i]? = some (.add name text) := by
        intro name hmem
        obtain ⟨i, text, hlast, hadd⟩ := hentered name hmem
        refine ⟨i, text, (entersLast_concat_iff hmem).2 hlast, ?_⟩
        rw [List.getElem?_append_left hlast.1.lt_length, hadd]
      have hstill : (host.after requests).scriptNames.Pairwise fun a b => ∀ i j,
          host.EntersLast (requests ++ [request]) a i →
            host.EntersLast (requests ++ [request]) b j → i < j := by
        refine hordered.imp_of_mem ?_
        intro a b ha hb hlt i j hi hj
        exact hlt i j ((entersLast_concat_iff ha).1 hi) ((entersLast_concat_iff hb).1 hj)
      rcases ((host.after requests).step_perform request).names_cases with
        hsame | ⟨name, text, rfl, hnot, hnew⟩ | hgone
      · rw [after_concat, hsame]
        exact ⟨hkept, hstill⟩
      · have hmem : name ∈ (host.after (requests ++ [.add name text])).scriptNames := by
          rw [after_concat, hnew]
          exact List.mem_append_right _ (List.mem_singleton_self name)
        have hlast := entersLast_length hnot hmem
        rw [after_concat, hnew]
        constructor
        · intro other hother
          rcases List.mem_append.1 hother with hold | hself
          · exact hkept other hold
          · rw [List.mem_singleton.1 hself]
            refine ⟨requests.length, text, hlast, ?_⟩
            rw [List.getElem?_append_right (Nat.le_refl _), Nat.sub_self]
            rfl
        · refine List.pairwise_append.2 ⟨hstill, List.pairwise_singleton _ _, ?_⟩
          intro a ha b hb i j hi hj
          -- the new name comes in behind all others, which came in before
          rw [List.mem_singleton.1 hb] at hj
          rw [hj.unique hlast]
          exact ((entersLast_concat_iff ha).1 hi).1.lt_length
      · rw [after_concat, hgone]
        constructor
        · intro name hmem
          exact hkept name (List.mem_filter.1 hmem).1
        · exact hstill.filter _

end Scriptorium.Host
