import Mathlib.Data.List.Induction
import Scriptorium.Host.Loading
import Scriptorium.Proofs.Host.Step

/-!
# Hosts that can be reached

Scripts come to a host by requests or from files. Loading them adds one after another, up to the
first that cannot be read or is refused, so a host that has loaded scripts is one that has met
requests to add them. What holds after every run of requests holds of every host.
-/

namespace Scriptorium.Host

variable {config : Config} {host : Host}

/-- The hosts that a configuration leads to. -/
inductive Reached (config : Config) : Host → Prop where
  | fresh : Reached config (new config)
  | performed {host : Host} (reached : Reached config host) (request : Request) :
      Reached config (host.perform request).host
  | loaded {host : Host} (reached : Reached config host) (top : Node) (root : String)
      (extensions : List String) :
      Reached config (host.loadScripts top root extensions).value.1

theorem perform_add_of_register {name text : String} {registered : Logged Store}
    (h : host.store.register name text = .ok registered) :
    (host.perform (.add name text)).host = { host with store := registered.value } := by
  rw [perform, h]
  rfl

theorem exists_run_of_registerFiles (host : Host) (top : Node) (root : String)
    (names : List String) :
    ∃ requests,
      { host with store := (host.store.registerFiles top root names).value.1 } =
        host.after requests := by
  induction names generalizing host with
  | nil => exact ⟨[], rfl⟩
  | cons name rest ih =>
      rw [Store.registerFiles]
      cases top.readScript root name with
      | error cause => exact ⟨[], rfl⟩
      | ok text =>
          dsimp only
          cases hregister : host.store.register name text with
          | error cause => exact ⟨[], rfl⟩
          | ok registered =>
              obtain ⟨requests, hrest⟩ := ih { host with store := registered.value }
              refine ⟨.add name text :: requests, ?_⟩
              rw [after_cons, perform_add_of_register hregister, ← hrest]
              rfl

theorem exists_run_of_loadScripts (host : Host) (top : Node) (root : String)
    (extensions : List String) :
    ∃ requests, (host.loadScripts top root extensions).value.1 = host.after requests := by
  unfold loadScripts Store.loadScripts
  cases top.scan root extensions with
  | error cause => exact ⟨[], rfl⟩
  | ok names =>
      obtain ⟨requests, hrun⟩ := host.exists_run_of_registerFiles top root names
      refine ⟨requests, ?_⟩
      rw [← hrun]
      -- whether all files were registered decides about the answer, not about the store
      dsimp only [Logged.map_value, Logged.andThen_value]
      split <;> rfl

theorem Reached.exists_run (h : Reached config host) :
    ∃ requests, host = (new config).after requests := by
  induction h with
  | fresh => exact ⟨[], rfl⟩
  | performed _ request ih =>
      obtain ⟨requests, rfl⟩ := ih
      exact ⟨requests ++ [request], (after_concat _ _ _).symm⟩
  | loaded _ top root extensions ih =>
      obtain ⟨requests, rfl⟩ := ih
      obtain ⟨more, hmore⟩ := exists_run_of_loadScripts _ top root extensions
      refine ⟨requests ++ more, ?_⟩
      rw [after_append, hmore]

theorem reached_after (config : Config) (requests : List Request) :
    Reached config ((new config).after requests) := by
  induction requests using List.reverseRecOn with
  | nil => exact .fresh
  | append_singleton requests request ih =>
      rw [after_concat]
      exact ih.performed request

/-- A host that starts with the scripts of its root is one of them. -/
theorem reached_of_load {top : Node} {extensions : List String}
    (h : (load config top extensions).value = .ok host) : Reached config host := by
  unfold load at h
  split at h
  · cases h
    exact .fresh
  · next root hroot =>
      generalize hload : (new config).loadScripts top root extensions = loaded at h
      obtain ⟨⟨last, result⟩, events⟩ := loaded
      cases result with
      | error cause => cases h
      | ok names =>
          cases h
          have hlast : ((new config).loadScripts top root extensions).value.1 = host := by
            rw [hload]
          rw [← hlast]
          exact .loaded .fresh top root extensions

end Scriptorium.Host
