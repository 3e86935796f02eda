import Mathlib.Data.List.Infix
import Mathlib.Tactic.Common

/-! Results of calls that may fail, the errors they avoid, and runs of a predicate over
a list. Nothing here depends on a program. -/
namespace Net77.Base

section Bind

variable {ε α β : Type}

@[simp] theorem ok_bind (a : α) (next : α → Except ε β) : (Except.ok a >>= next) = next a := rfl

@[simp] theorem pure_eq_ok (a : α) : (pure a : Except ε α) = .ok a := rfl

/-- Peels one call off a sequence that returned. -/
theorem bind_eq_ok {call : Except ε α} {next : α → Except ε β} {b : β} :
    (call >>= next) = .ok b ↔ ∃ a, call = .ok a ∧ next a = .ok b := by
  cases call with
  | error e => simp [bind, Except.bind]
  | ok a => simp

/-- A sequence fails in its first call, or behind it. -/
theorem bind_eq_error {call : Except ε α} {next : α → Except ε β} {e : ε} :
    (call >>= next) = .error e ↔
      call = .error e ∨ ∃ a, call = .ok a ∧ next a = .error e := by
  cases call with
  | error e' => simp [bind, Except.bind]
  | ok a => simp

/-- A call for each index, one after the other. -/
def forEach : {n : Nat} → (Fin n → Except ε α) → Except ε (Fin n → α)
  | 0, _ => pure Fin.elim0
  | _ + 1, call => do
    let first ← call 0
    let rest ← forEach fun i => call i.succ
    pure (Fin.cases first rest)

theorem forEach_eq_ok {n : Nat} {call : Fin n → Except ε α} {results : Fin n → α} :
    forEach call = .ok results ↔ ∀ i, call i = .ok (results i) := by
  induction n with
  | zero =>
    refine iff_of_true ?_ fun i => i.elim0
    exact congrArg Except.ok (funext fun i => i.elim0)
  | succ n ih =>
    unfold forEach
    constructor
    · intro h
      obtain ⟨first, hfirst, h⟩ := bind_eq_ok.mp h
      obtain ⟨rest, hrest, h⟩ := bind_eq_ok.mp h
      cases Except.ok.inj h
      intro i
      induction i using Fin.cases with
      | zero => exact hfirst
      | succ i => exact ih.mp hrest i
    · intro h
      rw [h 0, ok_bind, ih.mpr fun i => h i.succ, ok_bind]
      apply congrArg Except.ok
      funext i
      induction i using Fin.cases with
      | zero => rfl
      | succ i => rfl

end Bind

section Avoids

variable {ε α β : Type} {bad : ε → Prop}

/-- The call does not end with an error of a certain kind. -/
def Avoids (bad : ε → Prop) : Except ε α → Prop
  | .ok _ => True
  | .error e => ¬ bad e

@[simp] theorem avoids_ok (a : α) : Avoids bad (Except.ok a : Except ε α) := trivial

/-- A sequence avoids what its first call avoids and what follows avoids wherever that
call has led it. -/
theorem avoids_bind {call : Except ε α} {next : α → Except ε β} :
    Avoids bad (call >>= next) ↔ Avoids bad call ∧ ∀ a, call = .ok a → Avoids bad (next a) := by
  cases call with
  | error e =>
    apply Iff.symm
    apply and_iff_left
    intro a ha
    contradiction
  | ok a =>
    rw [ok_bind]
    constructor
    · intro h
      refine ⟨avoids_ok a, ?_⟩
      intro b hb
      cases Except.ok.inj hb
      exact h
    · rintro ⟨-, h⟩
      exact h a rfl

theorem avoids_forEach {n : Nat} {call : Fin n → Except ε α} (h : ∀ i, Avoids bad (call i)) :
    Avoids bad (forEach call) := by
  induction n with
  | zero => exact avoids_ok _
  | succ n ih =>
    refine avoids_bind.mpr ⟨h 0, fun first _ => ?_⟩
    exact avoids_bind.mpr ⟨ih fun i => h i.succ, fun rest _ => avoids_ok _⟩

end Avoids

section Runs

variable {α : Type} {p : α → Bool}

/-- A run that is cut off by an element outside `p` covers every shorter list
of elements of `p` that the same list starts with. -/
theorem run_covers {front run : List α} {s : α} {u v : List α}
    (hfront : ∀ a ∈ front, p a = true) (hs : p s = false)
    (h : front ++ u = run ++ s :: v) : front <+: run := by
  induction front generalizing run with
  | nil => exact List.nil_prefix
  | cons a front ih =>
    cases run with
    | nil =>
      have ha : a = s := (List.cons.inj h).1
      have := hfront a (by simp)
      rw [ha, hs] at this
      contradiction
    | cons b run =>
      obtain ⟨hab, htail⟩ := List.cons.inj h
      rw [hab, List.cons_prefix_cons]
      exact ⟨rfl, ih (fun c hc => hfront c (List.mem_cons_of_mem a hc)) htail⟩

/-- A list starts with a run and goes on with an element of another kind, if at all. -/
theorem exists_run (p : α → Bool) (xs : List α) : ∃ run rest, xs = run ++ rest ∧
    (∀ a ∈ run, p a = true) ∧ ∀ c more, rest = c :: more → p c = false := by
  induction xs with
  | nil => exact ⟨[], [], rfl, by simp, by simp⟩
  | cons a xs ih =>
    by_cases ha : p a = true
    · obtain ⟨run, rest, rfl, hrun, hrest⟩ := ih
      exact ⟨a :: run, rest, rfl, List.forall_mem_cons.mpr ⟨ha, hrun⟩, hrest⟩
    · refine ⟨[], a :: xs, rfl, by simp, ?_⟩
      intro c more h
      rw [← (List.cons.inj h).1]
      simpa using ha

variable {run rest : List α} {c : α}

/-- A run ends at the first element of another kind. -/
theorem takeWhile_run (hrun : ∀ a ∈ run, p a = true) (hc : p c = false) :
    (run ++ c :: rest).takeWhile p = run := by
  rw [List.takeWhile_append_of_pos hrun, List.takeWhile_cons_of_neg (by simp [hc]),
    List.append_nil]

theorem dropWhile_run (hrun : ∀ a ∈ run, p a = true) (hc : p c = false) :
    (run ++ c :: rest).dropWhile p = c :: rest := by
  rw [List.dropWhile_append_of_pos hrun, List.dropWhile_cons_of_neg (by simp [hc])]

end Runs

end Net77.Base
