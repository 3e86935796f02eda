import Mathlib.Data.List.Infix
import Mathlib.Tactic.Common

/-! Things that are acquired and have to be given back, seen through the log of
what happened to them. Nothing here depends on a program. -/
namespace Net77.Base

variable {κ : Type}

/-- A key is handed out, given back, or found to be no longer there. -/
inductive Entry (κ : Type) where
  | acquire (key : κ)
  | release (key : κ)
  | forfeit (key : κ)
  deriving DecidableEq, Repr

def Entry.key : Entry κ → κ
  | .acquire key | .release key | .forfeit key => key

/-- The history of a single key. Whenever it was acquired, the next entry gives
it back or forfeits it, and nothing else happens to it until it is acquired again. -/
inductive Settled (key : κ) : List (Entry κ) → Prop where
  | nil : Settled key []
  | released {log : List (Entry κ)} (rest : Settled key log) :
      Settled key (.acquire key :: .release key :: log)
  | forfeited {log : List (Entry κ)} (rest : Settled key log) :
      Settled key (.acquire key :: .forfeit key :: log)

theorem Settled.append {key : κ} {first second : List (Entry κ)} (hfirst : Settled key first)
    (hsecond : Settled key second) : Settled key (first ++ second) := by
  induction hfirst with
  | nil => exact hsecond
  | released rest ih => exact ih.released
  | forfeited rest ih => exact ih.forfeited

variable [DecidableEq κ]

/-- Nothing is left over, and nothing was given back twice. -/
def Balanced (log : List (Entry κ)) : Prop :=
  ∀ key, Settled key (log.filter fun entry => entry.key = key)

namespace Balanced

theorem nil : Balanced ([] : List (Entry κ)) := by
  intro key
  exact .nil

theorem append {first second : List (Entry κ)} (hfirst : Balanced first)
    (hsecond : Balanced second) : Balanced (first ++ second) := by
  intro key
  rw [List.filter_append]
  exact (hfirst key).append (hsecond key)

theorem released (key : κ) : Balanced [.acquire key, .release key] := by
  intro other
  by_cases heq : key = other
  · subst heq
    simpa [Entry.key] using Settled.nil.released
  · simpa [Entry.key, heq] using Settled.nil

theorem forfeited (key : κ) : Balanced [.acquire key, .forfeit key] := by
  intro other
  by_cases heq : key = other
  · subst heq
    simpa [Entry.key] using Settled.nil.forfeited
  · simpa [Entry.key, heq] using Settled.nil

end Balanced

/-- The last that happened to the key is that it was acquired. -/
def Held (key : κ) (log : List (Entry κ)) : Prop :=
  (log.filter fun entry => entry.key = key).getLast? = some (.acquire key)

/-- Nothing is given back more than once: whenever a key was acquired, the next
entry, if there is one, gives it back or forfeits it. -/
def Orderly (log : List (Entry κ)) : Prop :=
  ∀ key, Settled key (log.filter fun entry => entry.key = key) ∨
    ∃ front, Settled key front ∧ (log.filter fun entry => entry.key = key) = front ++ [.acquire key]

omit [DecidableEq κ] in
theorem Settled.getLast?_ne {key : κ} {log : List (Entry κ)} (h : Settled key log) :
    log.getLast? ≠ some (.acquire key) := by
  induction h with
  | nil => simp
  | released rest ih =>
    rename_i log
    cases log with
    | nil => simp
    | cons entry log => simpa using ih
  | forfeited rest ih =>
    rename_i log
    cases log with
    | nil => simp
    | cons entry log => simpa using ih

theorem Balanced.not_held {log : List (Entry κ)} (h : Balanced log) (key : κ) : ¬ Held key log :=
  (h key).getLast?_ne

theorem Balanced.orderly {log : List (Entry κ)} (h : Balanced log) : Orderly log :=
  fun key => .inl (h key)

section Acquired

variable {log : List (Entry κ)} {key : κ}

theorem Balanced.held_acquire (key : κ) (log : List (Entry κ)) :
    Held key (log ++ [.acquire key]) := by
  unfold Held
  rw [List.filter_append, List.getLast?_append]
  simp [Entry.key]

theorem Balanced.orderly_acquire (h : Balanced log) (key : κ) :
    Orderly (log ++ [.acquire key]) := by
  intro other
  rw [List.filter_append]
  by_cases heq : key = other
  · subst heq
    exact .inr ⟨_, h key, by simp [Entry.key]⟩
  · refine .inl ?_
    simpa [Entry.key, heq] using h other

theorem held_append_acquire {other : κ} :
    Held other (log ++ [.acquire key]) ↔ key = other ∨ Held other log := by
  unfold Held
  rw [List.filter_append, List.getLast?_append]
  by_cases heq : key = other
  · subst heq
    simp [Entry.key]
  · simp [Entry.key, heq]

theorem held_append_release {other : κ} :
    Held other (log ++ [.release key]) ↔ key ≠ other ∧ Held other log := by
  unfold Held
  rw [List.filter_append, List.getLast?_append]
  by_cases heq : key = other
  · subst heq
    simp [Entry.key]
  · simp [Entry.key, heq]

/-- A key that nobody holds can be handed out. -/
theorem Orderly.acquire (h : Orderly log) (free : ¬ Held key log) :
    Orderly (log ++ [.acquire key]) := by
  intro other
  rw [List.filter_append]
  by_cases heq : key = other
  · subst heq
    rcases h key with hsettled | ⟨front, -, hfront⟩
    · exact .inr ⟨_, hsettled, by simp [Entry.key]⟩
    · refine absurd ?_ free
      unfold Held
      rw [hfront, List.getLast?_concat]
  · simpa [Entry.key, heq] using h other

/-- A key that is held can be given back. -/
theorem Orderly.release (h : Orderly log) (held : Held key log) :
    Orderly (log ++ [.release key]) := by
  intro other
  rw [List.filter_append]
  by_cases heq : key = other
  · subst heq
    rcases h key with hsettled | ⟨front, hsettled, hfront⟩
    · exact absurd held hsettled.getLast?_ne
    · refine .inl ?_
      rw [hfront]
      simpa [Entry.key] using hsettled.append Settled.nil.released
  · simpa [Entry.key, heq] using h other

end Acquired

end Net77.Base
