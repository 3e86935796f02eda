import Mathlib.Data.Multiset.AddSub
import Net77.Base.Logged

/-! Who has what was acquired. A call is given some keys, whatever else is held by others,
and says in the end which of them are left. Nothing here depends on a program. -/
namespace Net77.Base

variable {κ ε α β γ δ : Type}

section Owning

variable [DecidableEq κ] {owned : Multiset κ} {past : List (Entry κ)} {key : κ}

/-- The keys that are held, each with a single owner. -/
structure Owning (owned : Multiset κ) (past : List (Entry κ)) : Prop where
  nodup : owned.Nodup
  held : ∀ key, Held key past ↔ key ∈ owned
  orderly : Orderly past

namespace Owning

theorem nil : Owning 0 ([] : List (Entry κ)) where
  nodup := Multiset.nodup_zero
  held key := iff_of_false (Balanced.nil.not_held key) (Multiset.notMem_zero key)
  orderly := Balanced.nil.orderly

theorem acquire (h : Owning owned past) (hfree : ¬ Held key past) :
    Owning (key ::ₘ owned) (past ++ [.acquire key]) where
  nodup := Multiset.nodup_cons.mpr ⟨fun hmem => hfree ((h.held key).mpr hmem), h.nodup⟩
  held other := by
    rw [held_append_acquire, h.held, Multiset.mem_cons]
    exact or_congr_left eq_comm
  orderly := h.orderly.acquire hfree

theorem release (h : Owning (key ::ₘ owned) past) : Owning owned (past ++ [.release key]) where
  nodup := (Multiset.nodup_cons.mp h.nodup).2
  held other := by
    obtain ⟨hnot, -⟩ := Multiset.nodup_cons.mp h.nodup
    rw [held_append_release, h.held, Multiset.mem_cons]
    constructor
    · rintro ⟨hne, heq | hmem⟩
      · exact absurd heq.symm hne
      · exact hmem
    · intro hmem
      exact ⟨fun heq => hnot (heq ▸ hmem), .inr hmem⟩
  orderly := h.orderly.release ((h.held key).mpr (Multiset.mem_cons_self key owned))

/-- Without owners all has been given back. -/
theorem balanced (h : Owning 0 past) : Balanced past := by
  intro key
  rcases h.orderly key with hsettled | ⟨front, -, hfront⟩
  · exact hsettled
  · refine absurd ((h.held key).mp ?_) (Multiset.notMem_zero key)
    unfold Held
    rw [hfront, List.getLast?_concat]

end Owning

/-- An environment that never hands out what is still held. -/
structure Allocator (κ : Type) [DecidableEq κ] where
  choose : List (Entry κ) → κ
  unheld : ∀ past, ¬ Held (choose past) past

/-- The highest key of a log. -/
def highest : List (Entry Nat) → Nat
  | [] => 0
  | entry :: past => max entry.key (highest past)

theorem key_le_highest {past : List (Entry Nat)} {entry : Entry Nat} (h : entry ∈ past) :
    entry.key ≤ highest past := by
  induction past with
  | nil => exact absurd h List.not_mem_nil
  | cons first past ih =>
    rcases List.mem_cons.mp h with rfl | h
    · exact Nat.le_max_left _ _
    · exact (ih h).trans (Nat.le_max_right _ _)

/-- It hands out one key after the other. -/
def Allocator.ascending : Allocator Nat where
  choose past := highest past + 1
  unheld past := by
    intro hheld
    have hmem := List.mem_of_mem_filter (List.mem_of_getLast? hheld)
    exact absurd (key_le_highest hmem) (Nat.not_succ_le_self _)

end Owning

/-- A call that comes after what is logged already. -/
def Traced (κ ε α : Type) : Type := List (Entry κ) → Logged κ ε α

namespace Traced

instance : Monad (Traced κ ε) where
  pure a _ := ⟨[], .ok a⟩
  bind call next past :=
    match (call past).result with
    | .ok a => ⟨(call past).log ++ (next a (past ++ (call past).log)).log,
        (next a (past ++ (call past).log)).result⟩
    | .error e => ⟨(call past).log, .error e⟩

/-- A call that does not look at the past. -/
def ofLogged (call : Logged κ ε α) : Traced κ ε α := fun _ => call

def lift (result : Except ε α) : Traced κ ε α := ofLogged (.lift result)

def release (key : κ) : Traced κ ε Unit := ofLogged (.emit (.release key))

/-- The call with the key that it gets if it acquires one. -/
def placed [DecidableEq κ] (allocator : Allocator κ) (call : κ → Traced κ ε α) :
    Traced κ ε α := fun past => call (allocator.choose past) past

def acquire [DecidableEq κ] (allocator : Allocator κ) : Traced κ ε κ :=
  placed allocator fun key => ofLogged ⟨[.acquire key], .ok key⟩

/-- A call whose error the caller looks at. -/
def attempt (call : Traced κ ε α) : Traced κ ε (Except ε α) :=
  fun past => ⟨(call past).log, .ok (call past).result⟩

variable {call : Traced κ ε α} {past : List (Entry κ)}

theorem bind_of_ok {a : α} (h : (call past).result = .ok a) (next : α → Traced κ ε β) :
    (call >>= next) past = ⟨(call past).log ++ (next a (past ++ (call past).log)).log,
      (next a (past ++ (call past).log)).result⟩ := by
  show (match (call past).result with
    | .ok a => ⟨(call past).log ++ (next a (past ++ (call past).log)).log,
        (next a (past ++ (call past).log)).result⟩
    | .error e => ⟨(call past).log, .error e⟩ : Logged κ ε β) = _
  rw [h]

theorem bind_of_error {e : ε} (h : (call past).result = .error e) (next : α → Traced κ ε β) :
    (call >>= next) past = ⟨(call past).log, .error e⟩ := by
  show (match (call past).result with
    | .ok a => ⟨(call past).log ++ (next a (past ++ (call past).log)).log,
        (next a (past ++ (call past).log)).result⟩
    | .error e => ⟨(call past).log, .error e⟩ : Logged κ ε β) = _
  rw [h]

theorem ofLogged_bind (call : Logged κ ε α) (next : α → Logged κ ε β) :
    ofLogged (call >>= next) = (ofLogged call >>= fun a => ofLogged (next a)) := by
  funext past
  cases h : call.result with
  | ok a =>
    rw [bind_of_ok (show (ofLogged call past).result = .ok a from h)]
    exact Logged.bind_of_ok h next
  | error e =>
    rw [bind_of_error (show (ofLogged call past).result = .error e from h)]
    exact Logged.bind_of_error h next

@[simp] theorem lift_ok_bind (a : α) (next : α → Traced κ ε β) :
    (lift (.ok a) >>= next) = next a := by
  funext past
  rw [bind_of_ok (show (lift (.ok a) past).result = .ok a from rfl)]
  show (⟨[] ++ (next a (past ++ [])).log, (next a (past ++ [])).result⟩ : Logged κ ε β) = _
  rw [List.nil_append, List.append_nil]

@[simp] theorem pure_bind (a : α) (next : α → Traced κ ε β) : (pure a >>= next) = next a :=
  lift_ok_bind a next

end Traced

/-- The call computes what one does that says nothing about its keys. -/
def Agrees (forget : α → β) (call : Traced κ ε α) (plain : Except ε β) : Prop :=
  ∀ past, (call past).result.map forget = plain

namespace Agrees

variable {forget : α → β} {call : Traced κ ε α} {plain : Except ε β}

theorem pure (forget : α → β) (a : α) :
    Agrees forget (Pure.pure a : Traced κ ε α) (.ok (forget a)) := fun _ => rfl

theorem lift (result : Except ε α) : Agrees id (Traced.lift result : Traced κ ε α) result := by
  intro past
  cases result <;> rfl

/-- What comes next may rely on what the call computes. -/
theorem bind_of_ok {forget' : γ → δ} {next : α → Traced κ ε γ} {plainNext : β → Except ε δ}
    (h : Agrees forget call plain)
    (hnext : ∀ a, plain = .ok (forget a) → Agrees forget' (next a) (plainNext (forget a))) :
    Agrees forget' (call >>= next) (plain >>= plainNext) := by
  intro past
  have hcall := h past
  cases hresult : (call past).result with
  | error e =>
    rw [hresult] at hcall
    rw [Traced.bind_of_error hresult, ← hcall]
    rfl
  | ok a =>
    rw [hresult] at hcall
    have hagrees := hnext a hcall.symm
    rw [Traced.bind_of_ok hresult, ← hcall]
    exact hagrees _

theorem bind {forget' : γ → δ} {next : α → Traced κ ε γ} {plainNext : β → Except ε δ}
    (h : Agrees forget call plain) (hnext : ∀ a, Agrees forget' (next a) (plainNext (forget a))) :
    Agrees forget' (call >>= next) (plain >>= plainNext) :=
  bind_of_ok h fun a _ => hnext a

theorem attempt (h : Agrees forget call plain) :
    Agrees (Except.map forget) call.attempt (.ok plain : Except ε (Except ε β)) :=
  fun past => congrArg Except.ok (h past)

/-- What is only done to a key does not change a result. -/
theorem skip {α : Type} {first : Traced κ ε α} {next : α → Traced κ ε γ} {forget' : γ → δ}
    {plain : Except ε δ} (hfirst : ∀ past, ∃ a, (first past).result = .ok a)
    (hnext : ∀ a, Agrees forget' (next a) plain) : Agrees forget' (first >>= next) plain := by
  intro past
  obtain ⟨a, ha⟩ := hfirst past
  rw [Traced.bind_of_ok ha]
  exact hnext a _

end Agrees

section Disposes

variable [DecidableEq κ]

/-- Of the keys that the call is given and those that it acquires, it leaves what `post` says
of its result, and it touches no others. -/
def Disposes (given : Multiset κ) (call : Traced κ ε α)
    (post : Except ε α → Multiset κ → Prop) : Prop :=
  ∀ frame past, Owning (given + frame) past →
    ∃ left, post (call past).result left ∧ Owning (left + frame) (past ++ (call past).log)

namespace Disposes

variable {given : Multiset κ} {call : Traced κ ε α} {post : Except ε α → Multiset κ → Prop}

theorem mono {post' : Except ε α → Multiset κ → Prop} (h : Disposes given call post)
    (himp : ∀ result left, post result left → post' result left) : Disposes given call post' := by
  intro frame past howning
  obtain ⟨left, hpost, howning⟩ := h frame past howning
  exact ⟨left, himp _ left hpost, howning⟩

/-- What is known of every result. -/
theorem and_result (h : Disposes given call post) {p : Except ε α → Prop}
    (hp : ∀ past, p (call past).result) :
    Disposes given call fun result left => post result left ∧ p result := by
  intro frame past howning
  obtain ⟨left, hpost, howning⟩ := h frame past howning
  exact ⟨left, ⟨hpost, hp past⟩, howning⟩

/-- A call that does to the keys what another one does. -/
theorem of_same_log (h : Disposes given call post) {call' : Traced κ ε β}
    {post' : Except ε β → Multiset κ → Prop}
    (hsame : ∀ past left, post (call past).result left →
      (call' past).log = (call past).log ∧ post' (call' past).result left) :
    Disposes given call' post' := by
  intro frame past howning
  obtain ⟨left, hpost, howning⟩ := h frame past howning
  obtain ⟨hlog, hpost⟩ := hsame past left hpost
  rw [← hlog] at howning
  exact ⟨left, hpost, howning⟩

theorem attempt (h : Disposes given call post) :
    Disposes given call.attempt fun (result : Except ε (Except ε α)) left =>
      ∃ inner, result = .ok inner ∧ post inner left := by
  intro frame past howning
  obtain ⟨left, hpost, howning⟩ := h frame past howning
  exact ⟨left, ⟨_, rfl, hpost⟩, howning⟩

/-- The keys of somebody else stay. -/
theorem frame (h : Disposes given call post) (others : Multiset κ) :
    Disposes (given + others) call fun result left =>
      ∃ own, post result own ∧ left = own + others := by
  intro frame past howning
  rw [Multiset.add_assoc] at howning
  obtain ⟨own, hpost, howning⟩ := h (others + frame) past howning
  rw [← Multiset.add_assoc] at howning
  exact ⟨own + others, ⟨own, hpost, rfl⟩, howning⟩

theorem lift {result : Except ε α} (h : post result given) :
    Disposes given (Traced.lift result) post := by
  intro frame past howning
  refine ⟨given, h, ?_⟩
  show Owning (given + frame) (past ++ [])
  rwa [List.append_nil]

theorem pure {a : α} (h : post (.ok a) given) : Disposes given (Pure.pure a) post := lift h

theorem bind {next : α → Traced κ ε β} {post' : Except ε β → Multiset κ → Prop}
    (h : Disposes given call post)
    (hnext : ∀ a left, post (.ok a) left → Disposes left (next a) post')
    (herror : ∀ e left, post (.error e) left → post' (.error e) left) :
    Disposes given (call >>= next) post' := by
  intro frame past howning
  obtain ⟨left, hpost, howning⟩ := h frame past howning
  cases hresult : (call past).result with
  | error e =>
    rw [hresult] at hpost
    rw [Traced.bind_of_error hresult]
    exact ⟨left, herror e left hpost, howning⟩
  | ok a =>
    rw [hresult] at hpost
    obtain ⟨left', hpost', howning⟩ := hnext a left hpost frame _ howning
    rw [Traced.bind_of_ok hresult, ← List.append_assoc]
    exact ⟨left', hpost', howning⟩

theorem release {key : κ} {post : Except ε Unit → Multiset κ → Prop} (h : post (.ok ()) given) :
    Disposes (key ::ₘ given) (Traced.release key) post := by
  intro frame past howning
  rw [Multiset.cons_add] at howning
  exact ⟨given, h, howning.release⟩

theorem acquire {allocator : Allocator κ} {post : Except ε κ → Multiset κ → Prop}
    (h : ∀ key, post (.ok key) (key ::ₘ given)) :
    Disposes given (Traced.acquire allocator) post := by
  intro frame past howning
  refine ⟨allocator.choose past ::ₘ given, h _, ?_⟩
  rw [Multiset.cons_add]
  exact howning.acquire (allocator.unheld past)

/-- A call that acquires first is one that is given its key. -/
theorem placed_acquire {allocator : Allocator κ} {next : κ → Logged κ ε α}
    (h : ∀ key, Disposes (key ::ₘ given) (.ofLogged (next key)) post) :
    Disposes given
      (.placed allocator fun key => .ofLogged (.emit (.acquire key) >>= fun _ => next key)) post := by
  intro frame past howning
  have hacquired := howning.acquire (allocator.unheld past)
  rw [← Multiset.cons_add] at hacquired
  obtain ⟨left, hpost, howning⟩ := h _ frame _ hacquired
  refine ⟨left, hpost, ?_⟩
  rw [List.append_assoc] at howning
  exact howning

end Disposes

end Disposes

end Net77.Base
