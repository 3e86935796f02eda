import Mathlib.Tactic.Common

/-! Systems that take one step after another, chosen by an environment. A run
may be restricted to steps of some kind. Nothing here depends on a program. -/
namespace Net77.Base

/-- An initial state, and the effect of an event where it is possible. -/
structure System (σ ε : Type) where
  init : σ
  step : σ → ε → Option σ

variable {σ ε : Type} {sys : System σ ε} {allowed : σ → ε → Bool}

/-- A state in which a run of allowed steps can end. -/
inductive Reachable (sys : System σ ε) (allowed : σ → ε → Bool) : σ → Prop where
  | init : Reachable sys allowed sys.init
  | step {s s' : σ} {e : ε} (reached : Reachable sys allowed s) (can : allowed s e = true)
      (hstep : sys.step s e = some s') : Reachable sys allowed s'

/-- What every allowed step preserves holds in every state of such a run. -/
theorem Reachable.invariant {inv : σ → Prop} {s : σ} (h : Reachable sys allowed s)
    (hinit : inv sys.init)
    (hstep : ∀ s e s', inv s → allowed s e = true → sys.step s e = some s' → inv s') : inv s := by
  induction h with
  | init => exact hinit
  | step _ can hnext ih => exact hstep _ _ _ ih can hnext

/-- The end of a given run. -/
def System.run (sys : System σ ε) (allowed : σ → ε → Bool) : σ → List ε → Option σ
  | s, [] => some s
  | s, e :: events =>
    if allowed s e then (sys.step s e).bind fun s' => sys.run allowed s' events else none

theorem System.run_cons {s last : σ} {e : ε} {events : List ε}
    (h : sys.run allowed s (e :: events) = some last) :
    ∃ next, sys.step s e = some next ∧ sys.run allowed next events = some last := by
  unfold run at h
  split at h
  · exact Option.bind_eq_some_iff.mp h
  · contradiction

theorem Reachable.run {s s' : σ} {events : List ε} (h : Reachable sys allowed s)
    (hrun : sys.run allowed s events = some s') : Reachable sys allowed s' := by
  induction events generalizing s with
  | nil =>
    cases Option.some.inj hrun
    exact h
  | cons e events ih =>
    unfold System.run at hrun
    split at hrun
    · rename_i can
      obtain ⟨next, hnext, hrun⟩ := Option.bind_eq_some_iff.mp hrun
      exact ih (h.step can hnext) hrun
    · contradiction

/-- A run that is carried out leads to a state. -/
theorem System.reachable_of_run (sys : System σ ε) (allowed : σ → ε → Bool) (events : List ε)
    (holds : σ → Bool)
    (h : (sys.run allowed sys.init events).map holds = some true) :
    ∃ s, Reachable sys allowed s ∧ holds s = true := by
  obtain ⟨s, hrun, hholds⟩ := Option.map_eq_some_iff.mp h
  exact ⟨s, Reachable.init.run hrun, hholds⟩

/-- The same system with a log of what its steps emit. -/
def System.logged {τ : Type} (sys : System σ ε) (emit : σ → ε → List τ) :
    System (σ × List τ) ε where
  init := (sys.init, [])
  step s e := (sys.step s.1 e).map fun s' => (s', s.2 ++ emit s.1 e)

end Net77.Base
