import Net77.ThreadPool

/-! `threadPoolDestroy` waits for a worker that can still get to its
acknowledgement, as long as the signal does not come between the worker's test
of `killed` and its `condWait`. -/
namespace Net77

open Net77.Base

variable {n : Nat} {α : Type}

namespace ThreadPoolWorker

variable {worker worker' : ThreadPoolWorker α}

/-- The worker has seen that it is not killed and is on its way to `condWait`. -/
def goesToWait (worker : ThreadPoolWorker α) : Bool :=
  match worker.stage with
  | .lock | .wait => true
  | _ => false

/-- What the other threads can do to a worker, apart from `threadPoolDestroy`,
and what it does itself. -/
inductive Moves (worker : ThreadPoolWorker α) : ThreadPoolWorker α → Prop where
  | stays : Moves worker worker
  | steps {worker' : ThreadPoolWorker α} (h : worker.step = some worker') : Moves worker worker'
  | signalled : Moves worker worker.condSignal
  | pushed (data : Option α) :
      Moves worker { worker with jobsList := linkedListPushBack worker.jobsList data }

/-- The worker is killed and will not sleep again before its acknowledgement. -/
structure Ending (worker : ThreadPoolWorker α) : Prop where
  killed : worker.killed = true
  awake : worker.blocked = false
  staysAwake : worker.goesToWait = false

theorem Moves.killed (h : Moves worker worker') (hkilled : worker.killed = true) :
    worker'.killed = true := by
  cases h with
  | stays => exact hkilled
  | pushed data => exact hkilled
  | signalled =>
    unfold condSignal
    split <;> exact hkilled
  | steps hstep =>
    unfold step at hstep
    split at hstep
    case h_6 =>
      dsimp only at hstep
      split at hstep <;> (cases Option.some.inj hstep; exact hkilled)
    all_goals first
      | contradiction
      | (cases Option.some.inj hstep; exact hkilled)

theorem Moves.ending (h : Moves worker worker') (hending : worker.Ending) : worker'.Ending := by
  have hkilled := h.killed hending.killed
  obtain ⟨stage, jobsList, killed, killAck, handled, freed⟩ := worker
  obtain ⟨rfl, hawake, hstays⟩ := hending
  cases h with
  | stays => exact ⟨rfl, hawake, hstays⟩
  | pushed data => exact ⟨rfl, hawake, hstays⟩
  | signalled =>
    cases stage with
    | waiting => contradiction
    | lock | wait => contradiction
    | _ => exact ⟨rfl, rfl, rfl⟩
  | steps hstep =>
    cases stage with
    | waiting | lock | wait | ended => contradiction
    | pop =>
      unfold step at hstep
      dsimp only at hstep
      split at hstep
      · cases Option.some.inj hstep
        exact ⟨rfl, rfl, rfl⟩
      · cases Option.some.inj hstep
        exact ⟨rfl, rfl, rfl⟩
    | test | woken | run | unlock | ack =>
      -- the test finds `killed` set
      cases Option.some.inj hstep
      exact ⟨rfl, rfl, rfl⟩

end ThreadPoolWorker

namespace ThreadPool

variable {pool pool' : ThreadPool n α}

theorem moves_setWorker {i : Fin n} {worker : ThreadPoolWorker α}
    (h : (pool.workers i).Moves worker) (j : Fin n) :
    (pool.workers j).Moves ((pool.setWorker i worker).workers j) := by
  by_cases hne : j = i
  · subst hne
    rw [setWorker_self]
    exact h
  · rw [setWorker_of_ne pool hne]
    exact .stays

/-- A call of `threadPoolDispatchWork` moves workers, and nothing else. -/
theorem stepCall_moves {i : Nat} {call : DispatchCall n α}
    (h : pool.stepCall i call = some pool') : pool'.destroy = pool.destroy ∧
      ∀ j, (pool.workers j).Moves (pool'.workers j) := by
  unfold stepCall at h
  split at h
  · split at h
    · dsimp only at h
      split at h
      · contradiction
      · cases Option.some.inj h
        exact ⟨rfl, fun j => .stays⟩
    · cases Option.some.inj h
      exact ⟨rfl, fun j => .stays⟩
  · dsimp only at h
    split at h
    · contradiction
    · cases Option.some.inj h
      exact ⟨rfl, moves_setWorker (.pushed call.data)⟩
  · dsimp only at h
    split at h
    · contradiction
    · cases Option.some.inj h
      exact ⟨rfl, moves_setWorker .signalled⟩
  · contradiction

/-- `threadPoolDestroy` spins on a worker that sleeps, with its signal sent. -/
def Hangs (pool : ThreadPool n α) : Prop :=
  ∃ i, pool.destroy = .spin i ∧ (pool.workers i).blocked = true

/-- Where the event is the `condSignal` of `threadPoolDestroy`, its worker is not
on the way to `condWait`. -/
def killArrives (pool : ThreadPool n α) : PoolEvent n α → Bool
  | .destroy =>
    match pool.destroy with
    | .signal i => !(pool.workers i).goesToWait
    | _ => true
  | _ => true

/-- The worker that is being destroyed is killed, and awake once it is signalled. -/
def Acknowledges (pool : ThreadPool n α) : Prop :=
  (∀ i, pool.destroy = .signal i → (pool.workers i).killed = true) ∧
    ∀ i, pool.destroy = .spin i → (pool.workers i).Ending

theorem Acknowledges.elsewhere (hsignal : ∀ i, pool.destroy ≠ .signal i)
    (hspin : ∀ i, pool.destroy ≠ .spin i) : pool.Acknowledges :=
  ⟨fun i h => absurd h (hsignal i), fun i h => absurd h (hspin i)⟩

theorem Acknowledges.not_hangs (h : pool.Acknowledges) : ¬ pool.Hangs := by
  rintro ⟨i, hspin, hblocked⟩
  rw [(h.2 i hspin).awake] at hblocked
  contradiction

theorem Acknowledges.moves (h : pool.Acknowledges) (hdestroy : pool'.destroy = pool.destroy)
    (hmoves : ∀ j, (pool.workers j).Moves (pool'.workers j)) : pool'.Acknowledges := by
  constructor
  · intro i hsignal
    rw [hdestroy] at hsignal
    exact (hmoves i).killed (h.1 i hsignal)
  · intro i hspin
    rw [hdestroy] at hspin
    exact (hmoves i).ending (h.2 i hspin)

/-- Once signalled, a worker that is not on its way to `condWait` is awake. -/
theorem ending_condSignal {worker : ThreadPoolWorker α} (hkilled : worker.killed = true)
    (harrives : worker.goesToWait = false) : worker.condSignal.Ending := by
  obtain ⟨stage, jobsList, killed, killAck, handled, freed⟩ := worker
  cases stage with
  | lock | wait => contradiction
  | _ => exact ⟨hkilled, rfl, rfl⟩

theorem Acknowledges.stepDestroy (h : pool.Acknowledges)
    (harrives : pool.killArrives .destroy = true) (hstep : pool.stepDestroy = some pool') :
    pool'.Acknowledges := by
  unfold ThreadPool.stepDestroy at hstep
  cases hdestroy : pool.destroy with
  | notCalled =>
    rw [hdestroy] at hstep
    cases Option.some.inj hstep
    exact .elsewhere (by simp) (by simp)
  | kill i =>
    rw [hdestroy] at hstep
    dsimp only at hstep
    split at hstep
    · rename_i hi
      cases Option.some.inj hstep
      refine ⟨?_, fun j h => by contradiction⟩
      intro j hj
      cases hj
      show ((pool.setWorker ⟨i, hi⟩ _).workers ⟨i, hi⟩).killed = true
      rw [setWorker_self]
    · cases Option.some.inj hstep
      exact .elsewhere (by simp) (by simp)
  | signal i =>
    rw [hdestroy] at hstep
    cases Option.some.inj hstep
    refine ⟨fun j h => by contradiction, ?_⟩
    intro j hj
    cases hj
    show ((pool.setWorker i _).workers i).Ending
    rw [setWorker_self]
    apply ending_condSignal (h.1 i hdestroy)
    simpa [killArrives, hdestroy] using harrives
  | spin i =>
    rw [hdestroy] at hstep
    dsimp only at hstep
    split at hstep
    · cases Option.some.inj hstep
      exact .elsewhere (by simp) (by simp)
    · cases Option.some.inj hstep
      exact h
  | free i =>
    rw [hdestroy] at hstep
    cases Option.some.inj hstep
    exact .elsewhere (by simp) (by simp)
  | returned =>
    rw [hdestroy] at hstep
    contradiction

variable [NeZero n]

/-- An event that is not a step of `threadPoolDestroy` moves workers only. -/
theorem step_moves {event : PoolEvent n α} (hother : event ≠ .destroy)
    (h : pool.step event = some pool') : pool'.destroy = pool.destroy ∧
      ∀ j, (pool.workers j).Moves (pool'.workers j) := by
  cases event with
  | worker i =>
    obtain ⟨worker, hworker, rfl⟩ := Option.map_eq_some_iff.mp h
    exact ⟨rfl, moves_setWorker (.steps hworker)⟩
  | spuriousWakeup i =>
    unfold step at h
    dsimp only at h
    split at h
    · cases Option.some.inj h
      exact ⟨rfl, moves_setWorker .signalled⟩
    · contradiction
  | dispatch data =>
    cases Option.some.inj h
    exact ⟨rfl, fun j => .stays⟩
  | call i =>
    unfold step at h
    dsimp only at h
    split at h
    · exact stepCall_moves h
    · contradiction
  | destroy => contradiction

theorem Acknowledges.step (h : pool.Acknowledges) {event : PoolEvent n α}
    (harrives : pool.killArrives event = true) (hstep : pool.step event = some pool') :
    pool'.Acknowledges := by
  by_cases hdestroy : event = .destroy
  · subst hdestroy
    exact h.stepDestroy harrives hstep
  · obtain ⟨hsame, hmoves⟩ := step_moves hdestroy hstep
    exact h.moves hsame hmoves

/-- In every run in which each kill signal finds its worker outside the gap in
front of `condWait`, destroying the pool does not hang. -/
theorem not_hangs_of_killArrives {pool : ThreadPool n α}
    (h : Reachable (system n α) killArrives pool) : ¬ pool.Hangs := by
  apply Acknowledges.not_hangs
  apply h.invariant
  · exact .elsewhere (by simp [system]) (by simp [system])
  · intro s e s' hacknowledges harrives hstep
    exact hacknowledges.step harrives hstep

/-- A worker that sleeps is killed, wakes up and acknowledges it. -/
def wakingRun : List (PoolEvent 2 Nat) :=
  List.replicate 3 (.worker 0) ++ List.replicate 3 .destroy ++ List.replicate 5 (.worker 0)

theorem not_hangs_wakingRun : ∃ pool, Reachable (system 2 Nat) killArrives pool ∧
    (pool.workers 0).killAck = true ∧ ¬ pool.Hangs := by
  obtain ⟨pool, hreached, hholds⟩ := System.reachable_of_run (system 2 Nat) killArrives
    wakingRun (fun pool => (pool.workers 0).killAck) (by decide)
  exact ⟨pool, hreached, hholds, not_hangs_of_killArrives hreached⟩

/-- The worker tests `killed`, is killed and signalled, and then goes to sleep. -/
def sleepingRun : List (PoolEvent 1 Unit) :=
  [.worker 0] ++ List.replicate 3 .destroy ++ List.replicate 2 (.worker 0)

/-- The destroyer spins, and nobody will wake the worker. -/
theorem sleepingRun_hangs : ¬ ∀ pool : ThreadPool 1 Unit,
    Reachable (system 1 Unit) (fun _ _ => true) pool → ¬ pool.Hangs := by
  intro hall
  obtain ⟨pool, hreached, hholds⟩ := System.reachable_of_run (system 1 Unit)
    (fun _ _ => true) sleepingRun
    (fun pool => (pool.workers 0).blocked &&
      match pool.destroy with
      | .spin _ => true
      | _ => false)
    (by decide)
  rw [Bool.and_eq_true] at hholds
  obtain ⟨hblocked, hspin⟩ := hholds
  apply hall pool hreached
  cases hdestroy : pool.destroy with
  | spin i =>
    have hi : i = 0 := Subsingleton.elim i 0
    exact ⟨i, hdestroy, by rw [hi]; exact hblocked⟩
  | _ =>
    rw [hdestroy] at hspin
    contradiction

end ThreadPool

end Net77
