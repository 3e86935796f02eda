import Net77.Base.Results

/-! Objects that are used through calls, which may fail. What is asked of the
calls of a run is asked of each one in the state in which it is made, and one
object refines another if it does so call by call. Nothing here depends on a
program. -/
namespace Net77.Base

variable {σ τ κ ρ ε : Type}

/-- `p` holds of every call of a run, as far as the run gets. -/
def EveryCall (run : σ → κ → Except ε (σ × ρ)) (p : σ → κ → Prop) : σ → List κ → Prop
  | _, [] => True
  | s, call :: calls => p s call ∧ ∀ s' r, run s call = .ok (s', r) → EveryCall run p s' calls

instance decidableEveryCall (run : σ → κ → Except ε (σ × ρ)) (p : σ → κ → Prop)
    [∀ s call, Decidable (p s call)] :
    (s : σ) → (calls : List κ) → Decidable (EveryCall run p s calls)
  | _, [] => inferInstanceAs (Decidable True)
  | s, call :: calls =>
    match h : run s call with
    | .error _ => decidable_of_iff (p s call) ⟨fun hp => ⟨hp, fun s' r hrun => by
        rw [h] at hrun
        contradiction⟩, fun hp => hp.1⟩
    | .ok (next, _) =>
      have := decidableEveryCall run p next calls
      decidable_of_iff (p s call ∧ EveryCall run p next calls) ⟨fun hp => ⟨hp.1, fun s' r hrun => by
        rw [h] at hrun
        cases Except.ok.inj hrun
        exact hp.2⟩, fun hp => ⟨hp.1, hp.2 next _ h⟩⟩

/-- A function as an object whose calls always return. -/
def total (spec : τ → κ → τ × ρ) : τ → κ → Except Empty (τ × ρ) := fun t call => .ok (spec t call)

/-- The calls of a run do, one by one, what `spec` says, and the states stay
related. -/
def Follows (run : σ → κ → Except ε (σ × ρ)) (spec : τ → κ → τ × ρ) (rel : σ → τ → Prop) :
    σ → τ → List κ → Prop
  | s, t, [] => rel s t
  | s, t, call :: calls => rel s t ∧ ∃ s', run s call = .ok (s', (spec t call).2) ∧
      Follows run spec rel s' (spec t call).1 calls

/-- `run` does what `spec` says wherever `pre` holds, and stays related to it. -/
def Refines (run : σ → κ → Except ε (σ × ρ)) (spec : τ → κ → τ × ρ) (pre : τ → κ → Prop)
    (rel : σ → τ → Prop) : Prop :=
  ∀ s t call, rel s t → pre t call →
    ∃ s', run s call = .ok (s', (spec t call).2) ∧ rel s' (spec t call).1

section Runs

variable {run : σ → κ → Except ε (σ × ρ)} {spec : τ → κ → τ × ρ} {pre : τ → κ → Prop}
  {rel : σ → τ → Prop} {calls : List κ} {s : σ} {t : τ}

theorem EveryCall.and {p q : τ → κ → Prop} (hp : EveryCall (total spec) p t calls)
    (hq : EveryCall (total spec) q t calls) :
    EveryCall (total spec) (fun t call => p t call ∧ q t call) t calls := by
  induction calls generalizing t with
  | nil => trivial
  | cons call calls ih =>
    refine ⟨⟨hp.1, hq.1⟩, ?_⟩
    intro t' r hcall
    exact ih (hp.2 t' r hcall) (hq.2 t' r hcall)

theorem Follows.related (h : Follows run spec rel s t calls) : rel s t := by
  cases calls with
  | nil => exact h
  | cons call calls => exact h.1

/-- The states of a run have what related states have. -/
theorem Follows.imp {rel' : σ → τ → Prop} (h : Follows run spec rel s t calls)
    (himp : ∀ s t, rel s t → rel' s t) : Follows run spec rel' s t calls := by
  induction calls generalizing s t with
  | nil => exact himp s t h
  | cons call calls ih =>
    obtain ⟨hrel, s', hrun, hfollows⟩ := h
    exact ⟨himp s t hrel, s', hrun, ih hfollows⟩

theorem Refines.follows (h : Refines run spec pre rel) (hrel : rel s t)
    (hpre : EveryCall (total spec) pre t calls) : Follows run spec rel s t calls := by
  induction calls generalizing s t with
  | nil => exact hrel
  | cons call calls ih =>
    obtain ⟨s', hrun, hrel'⟩ := h s t call hrel hpre.1
    exact ⟨hrel, s', hrun, ih hrel' (hpre.2 _ _ rfl)⟩

/-- What every call needs that does what `spec` says, every call of such a run has. -/
theorem Follows.everyCall (h : Follows run spec rel s t calls)
    (hpre : EveryCall (total spec) pre t calls) {needs : τ → κ → Prop}
    (hneeds : ∀ s t call s', rel s t → pre t call → run s call = .ok (s', (spec t call).2) →
      rel s' (spec t call).1 → needs t call) : EveryCall (total spec) needs t calls := by
  induction calls generalizing s t with
  | nil => trivial
  | cons call calls ih =>
    obtain ⟨hrel, s', hrun, hfollows⟩ := h
    refine ⟨hneeds s t call s' hrel hpre.1 hrun hfollows.related, ?_⟩
    intro t' r hcall
    rw [congrArg Prod.fst (Except.ok.inj hcall)] at hfollows
    exact ih hfollows (hpre.2 t' r hcall)

end Runs

end Net77.Base
