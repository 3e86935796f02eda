import Mathlib.Data.Nat.Init
import Net77.Base.Transition

/-! Infinite runs of a system, in which a thread that can go on is let go on some
time. What must happen eventually follows from what one step can do. Nothing
here depends on a program. -/
namespace Net77.Base

variable {σ ε : Type} {sys : System σ ε} {allowed : σ → ε → Bool}

/-- An infinite run of allowed steps. `none` stands for a moment in which
nothing happens. -/
structure Execution (sys : System σ ε) (allowed : σ → ε → Bool) where
  state : Nat → σ
  event : Nat → Option ε
  starts : state 0 = sys.init
  idles : ∀ k, event k = none → state (k + 1) = state k
  goesOn : ∀ k e, event k = some e →
    allowed (state k) e = true ∧ sys.step (state k) e = some (state (k + 1))

namespace Execution

variable (run : Execution sys allowed)

theorem reachable (k : Nat) : Reachable sys allowed (run.state k) := by
  induction k with
  | zero =>
    rw [run.starts]
    exact .init
  | succ k ih =>
    cases hevent : run.event k with
    | none =>
      rw [run.idles k hevent]
      exact ih
    | some e =>
      obtain ⟨can, hstep⟩ := run.goesOn k e hevent
      exact ih.step can hstep

/-- What every step keeps stays from some moment on. -/
theorem stays (inv : σ → Prop) {k k' : Nat} (hle : k ≤ k') (h : inv (run.state k))
    (hstep : ∀ s e s', Reachable sys allowed s → inv s → allowed s e = true →
      sys.step s e = some s' → inv s') : inv (run.state k') := by
  induction k', hle using Nat.le_induction with
  | base => exact h
  | succ j _ ih =>
    cases hevent : run.event j with
    | none =>
      rw [run.idles j hevent]
      exact ih
    | some e =>
      obtain ⟨can, hnext⟩ := run.goesOn j e hevent
      exact hstep _ _ _ (run.reachable j) ih can hnext

/-- Again and again, the thread takes a step or cannot take one. -/
def Fair (steps : ε → Prop) (enabled : σ → Prop) : Prop :=
  ∀ k, ∃ k' ≥ k, (∃ e, run.event k' = some e ∧ steps e) ∨ ¬ enabled (run.state k')

/-- Whenever `before` holds, `after` holds at that moment or later. -/
def LeadsTo (before after : σ → Prop) : Prop :=
  ∀ k, before (run.state k) → ∃ k' ≥ k, after (run.state k')

variable {run} {before between after : σ → Prop}

theorem LeadsTo.trans (h : run.LeadsTo before between) (h' : run.LeadsTo between after) :
    run.LeadsTo before after := by
  intro k hbefore
  obtain ⟨j, hj, hbetween⟩ := h k hbefore
  obtain ⟨k', hk', hafter⟩ := h' j hbetween
  exact ⟨k', Nat.le_trans hj hk', hafter⟩

/-- A thread that stays able to do it brings it about, when nobody undoes what it
waits for. -/
theorem leadsTo_of_fair {steps : ε → Prop} {enabled : σ → Prop} (hfair : run.Fair steps enabled)
    (henabled : ∀ s, Reachable sys allowed s → before s → enabled s)
    (hkeeps : ∀ s e s', Reachable sys allowed s → before s → allowed s e = true →
      sys.step s e = some s' → before s' ∨ after s')
    (hdoes : ∀ s e s', Reachable sys allowed s → before s → allowed s e = true → steps e →
      sys.step s e = some s' → after s') : run.LeadsTo before after := by
  intro k hbefore
  by_contra hnever
  have hnot : ∀ j ≥ k, ¬ after (run.state j) := fun j hj hafter => hnever ⟨j, hj, hafter⟩
  have hwaits : ∀ j ≥ k, before (run.state j) := by
    intro j hj
    induction j, hj using Nat.le_induction with
    | base => exact hbefore
    | succ j hj ih =>
      cases hevent : run.event j with
      | none =>
        rw [run.idles j hevent]
        exact ih
      | some e =>
        obtain ⟨can, hstep⟩ := run.goesOn j e hevent
        rcases hkeeps _ _ _ (run.reachable j) ih can hstep with hstill | hdone
        · exact hstill
        · exact absurd hdone (hnot (j + 1) (Nat.le_succ_of_le hj))
  obtain ⟨j, hj, ⟨e, hevent, hsteps⟩ | hdisabled⟩ := hfair k
  · obtain ⟨can, hstep⟩ := run.goesOn j e hevent
    exact hnot (j + 1) (Nat.le_succ_of_le hj)
      (hdoes _ _ _ (run.reachable j) (hwaits j hj) can hsteps hstep)
  · exact hdisabled (henabled _ (run.reachable j) (hwaits j hj))

/-- A distance that keeps getting smaller reaches its end. -/
theorem leadsTo_of_rank (rank : σ → Nat)
    (h : ∀ m, run.LeadsTo (fun s => before s ∧ rank s = m)
      fun s => after s ∨ before s ∧ rank s < m) : run.LeadsTo before after := by
  have hall : ∀ m k, before (run.state k) → rank (run.state k) = m →
      ∃ k' ≥ k, after (run.state k') := by
    intro m
    induction m using Nat.strong_induction_on with
    | _ m ih =>
      intro k hbefore hrank
      obtain ⟨j, hj, hafter | ⟨hbefore, hless⟩⟩ := h m k ⟨hbefore, hrank⟩
      · exact ⟨j, hj, hafter⟩
      · obtain ⟨k', hk', hafter⟩ := ih _ hless j hbefore rfl
        exact ⟨k', Nat.le_trans hj hk', hafter⟩
  exact fun k hbefore => hall _ k hbefore rfl

end Execution

/-- The states that a list of events leads through, in the last of which the
system remains. -/
def System.states (sys : System σ ε) (s : σ) : List ε → Nat → σ
  | [], _ => s
  | _ :: _, 0 => s
  | e :: events, k + 1 => sys.states ((sys.step s e).getD s) events k

theorem System.states_zero (sys : System σ ε) (s : σ) (events : List ε) :
    sys.states s events 0 = s := by
  cases events <;> rfl

theorem System.states_step {s last : σ} {events : List ε}
    (h : sys.run allowed s events = some last) (k : Nat) :
    (∀ e, events[k]? = some e → allowed (sys.states s events k) e = true ∧
        sys.step (sys.states s events k) e = some (sys.states s events (k + 1))) ∧
      (events[k]? = none → sys.states s events k = last ∧
        sys.states s events (k + 1) = last) := by
  induction events generalizing s k with
  | nil =>
    cases Option.some.inj h
    refine ⟨fun e he => ?_, fun _ => ⟨rfl, rfl⟩⟩
    rw [List.getElem?_nil] at he
    contradiction
  | cons e events ih =>
    unfold System.run at h
    split at h
    · rename_i can
      obtain ⟨next, hnext, h⟩ := Option.bind_eq_some_iff.mp h
      have hgetD : (sys.step s e).getD s = next := by
        rw [hnext]
        rfl
      cases k with
      | zero =>
        refine ⟨?_, fun hnone => by contradiction⟩
        intro e' he'
        cases Option.some.inj he'
        refine ⟨can, ?_⟩
        show sys.step s e = some (sys.states ((sys.step s e).getD s) events 0)
        rw [hgetD, sys.states_zero, hnext]
      | succ k =>
        rw [List.getElem?_cons_succ]
        show (∀ e', events[k]? = some e' →
            allowed (sys.states ((sys.step s e).getD s) events k) e' = true ∧ _) ∧ _
        have hrest := ih h k
        rw [← hgetD] at hrest
        exact hrest
    · contradiction

/-- A finite run, after which nothing happens any more. -/
def System.execute (sys : System σ ε) (allowed : σ → ε → Bool) (events : List ε) {last : σ}
    (h : sys.run allowed sys.init events = some last) : Execution sys allowed where
  state := sys.states sys.init events
  event k := events[k]?
  starts := sys.states_zero sys.init events
  idles k hevent := by
    obtain ⟨hbefore, hafter⟩ := (System.states_step h k).2 hevent
    rw [hbefore, hafter]
  goesOn k e hevent := (System.states_step h k).1 e hevent

/-- A thread that can do nothing at the end was treated fairly. -/
theorem System.execute_fair {events : List ε} {last : σ}
    (h : sys.run allowed sys.init events = some last) {steps : ε → Prop} {enabled : σ → Prop}
    (hlast : ¬ enabled last) : (sys.execute allowed events h).Fair steps enabled := by
  intro k
  refine ⟨k + events.length, Nat.le_add_right _ _, .inr ?_⟩
  have hnone : events[k + events.length]? = none :=
    List.getElem?_eq_none (Nat.le_add_left _ _)
  show ¬ enabled (sys.states sys.init events (k + events.length))
  rw [((System.states_step h (k + events.length)).2 hnone).1]
  exact hlast

end Net77.Base
