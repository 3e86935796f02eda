import Net77.Base.Ledger
import Net77.Base.Results

/-! Calls that may fail and that keep a log of what they acquire and give back, also when
they fail. Nothing here depends on a program. -/
namespace Net77.Base

/-- The result of a call, and its log as far as it got. -/
structure Logged (κ ε α : Type) where
  log : List (Entry κ)
  result : Except ε α

namespace Logged

variable {κ ε α β : Type}

instance : Monad (Logged κ ε) where
  pure a := ⟨[], .ok a⟩
  bind call next :=
    match call.result with
    | .ok a => ⟨call.log ++ (next a).log, (next a).result⟩
    | .error e => ⟨call.log, .error e⟩

/-- A call that acquires nothing. -/
def lift (result : Except ε α) : Logged κ ε α := ⟨[], result⟩

/-- One entry of the log. -/
def emit (entry : Entry κ) : Logged κ ε Unit := ⟨[entry], .ok ()⟩

@[simp] theorem lift_ok_bind (a : α) (next : α → Logged κ ε β) :
    (lift (.ok a) >>= next) = next a := rfl

@[simp] theorem lift_error_bind (e : ε) (next : α → Logged κ ε β) :
    (lift (.error e) >>= next) = ⟨[], .error e⟩ := rfl

@[simp] theorem emit_bind (entry : Entry κ) (next : Unit → Logged κ ε β) :
    (emit entry >>= next) = ⟨entry :: (next ()).log, (next ()).result⟩ := rfl

theorem bind_of_ok {call : Logged κ ε α} {a : α} (h : call.result = .ok a)
    (next : α → Logged κ ε β) :
    (call >>= next) = ⟨call.log ++ (next a).log, (next a).result⟩ := by
  show (match call.result with
    | .ok a => ⟨call.log ++ (next a).log, (next a).result⟩
    | .error e => ⟨call.log, .error e⟩ : Logged κ ε β) = _
  rw [h]

theorem bind_of_error {call : Logged κ ε α} {e : ε} (h : call.result = .error e)
    (next : α → Logged κ ε β) : (call >>= next) = ⟨call.log, .error e⟩ := by
  show (match call.result with
    | .ok a => ⟨call.log ++ (next a).log, (next a).result⟩
    | .error e => ⟨call.log, .error e⟩ : Logged κ ε β) = _
  rw [h]

/-- The log does not change the result. -/
theorem result_bind (call : Logged κ ε α) (next : α → Logged κ ε β) :
    (call >>= next).result = (call.result >>= fun a => (next a).result) := by
  cases h : call.result with
  | ok a => rw [bind_of_ok h]; rfl
  | error e => rw [bind_of_error h]; rfl

end Logged

end Net77.Base
