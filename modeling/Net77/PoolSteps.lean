import Net77.ThreadPool

/-! What one step of a thread pool does, said once: a case for each thing that a
worker, a call of `threadPoolDispatchWork` or `threadPoolDestroy` can do next. -/
namespace Net77

variable {n : Nat} {α : Type}

namespace ThreadPoolWorker

variable {worker worker' : ThreadPoolWorker α}

/-- Where a worker is after its next step, apart from `pop` and `run`. -/
def nextStage (worker : ThreadPoolWorker α) : Option (WorkerStage α) :=
  match worker.stage with
  | .test => some (if worker.killed then .ack else .lock)
  | .lock => some .wait
  | .wait => some .waiting
  | .woken => some .pop
  | .unlock => some .test
  | _ => none

/-- One step of `threadPoolWorker`. -/
inductive Steps (worker : ThreadPoolWorker α) : ThreadPoolWorker α → Prop where
  | goes {stage : WorkerStage α} (h : worker.nextStage = some stage) :
      Steps worker { worker with stage }
  | popsNothing (hstage : worker.stage = .pop) (h : worker.jobsList = []) :
      Steps worker { worker with stage := .unlock }
  | popsNull {jobsList : List (Option α)} (hstage : worker.stage = .pop)
      (h : worker.jobsList = none :: jobsList) :
      Steps worker { worker with jobsList, stage := .unlock }
  | starts {data : α} {jobsList : List (Option α)} (hstage : worker.stage = .pop)
      (h : worker.jobsList = some data :: jobsList) :
      Steps worker { worker with jobsList, stage := .run data }
  | finishes {data : α} (hstage : worker.stage = .run data) :
      Steps worker { worker with handled := worker.handled ++ [data], stage := .unlock }
  | acknowledges (hstage : worker.stage = .ack) :
      Steps worker { worker with killAck := true, stage := .ended }

theorem steps_of_step (h : worker.step = some worker') : worker.Steps worker' := by
  obtain ⟨stage, jobsList, killed, killAck, handled, freed⟩ := worker
  cases stage with
  | waiting | ended => contradiction
  | test | lock | wait | woken | unlock =>
    cases Option.some.inj h
    exact .goes rfl
  | pop =>
    cases jobsList with
    | nil =>
      cases Option.some.inj h
      exact .popsNothing rfl rfl
    | cons data jobsList =>
      cases data with
      | none =>
        cases Option.some.inj h
        exact .popsNull rfl rfl
      | some data =>
        cases Option.some.inj h
        exact .starts rfl rfl
  | run data =>
    cases Option.some.inj h
    exact .finishes rfl
  | ack =>
    cases Option.some.inj h
    exact .acknowledges rfl

/-- A worker never adds to its list. -/
theorem Steps.jobsList_le (h : worker.Steps worker') :
    worker'.jobsList.length ≤ worker.jobsList.length := by
  cases h with
  | goes | popsNothing | finishes | acknowledges => exact Nat.le_refl _
  | popsNull _ hlist | starts _ hlist =>
    rw [hlist]
    exact Nat.le_succ _

@[simp] theorem condSignal_fields (worker : ThreadPoolWorker α) :
    worker.condSignal.jobsList = worker.jobsList ∧ worker.condSignal.killed = worker.killed ∧
      worker.condSignal.killAck = worker.killAck ∧ worker.condSignal.handled = worker.handled ∧
        worker.condSignal.freed = worker.freed := by
  unfold condSignal
  split <;> exact ⟨rfl, rfl, rfl, rfl, rfl⟩

end ThreadPoolWorker

namespace ThreadPool

/-- What holds of every worker, after one of them has changed. -/
theorem forall_setWorker {pool : ThreadPool n α} {P : Fin n → ThreadPoolWorker α → Prop}
    (h : ∀ j, P j (pool.workers j)) {i : Fin n} {worker : ThreadPoolWorker α} (hi : P i worker)
    (j : Fin n) : P j ((pool.setWorker i worker).workers j) := by
  by_cases hne : j = i
  · subst hne
    rw [setWorker_self]
    exact hi
  · rw [setWorker_of_ne pool hne]
    exact h j

/-- The stage of a call that has measured the list of worker `j`. -/
def measure (pool : ThreadPool n α) (j : Fin n) (workerIdx : Fin n) (minJobs : Nat) :
    DispatchStage n :=
  let jobs := (pool.workers j).jobsList.length
  if jobs < minJobs then .scan (j + 1) j jobs else .scan (j + 1) workerIdx minJobs

/-- The pool after a call has pushed its data to a worker. -/
def pushed (pool : ThreadPool n α) (workerIdx : Fin n) (data : Option α) : ThreadPool n α :=
  let worker := pool.workers workerIdx
  pool.setWorker workerIdx
    { worker with jobsList := linkedListPushBack worker.jobsList data }

/-- One step of a call of `threadPoolDispatchWork`. -/
inductive CallSteps (pool : ThreadPool n α) (i : Nat) (call : DispatchCall n α) :
    ThreadPool n α → Prop where
  | measures {j : Nat} {workerIdx : Fin n} {minJobs : Nat}
      (hstage : call.stage = .scan j workerIdx minJobs) (hj : j < n)
      (hlive : (pool.workers ⟨j, hj⟩).freed = false) :
      CallSteps pool i call (pool.setStage i call (pool.measure ⟨j, hj⟩ workerIdx minJobs))
  | chooses {j : Nat} {workerIdx : Fin n} {minJobs : Nat}
      (hstage : call.stage = .scan j workerIdx minJobs) (hj : n ≤ j) :
      CallSteps pool i call (pool.setStage i call (.push workerIdx))
  | pushes {workerIdx : Fin n} (hstage : call.stage = .push workerIdx)
      (hlive : (pool.workers workerIdx).freed = false) :
      CallSteps pool i call
        ((pool.pushed workerIdx call.data).setStage i call (.signal workerIdx))
  | signals {workerIdx : Fin n} (hstage : call.stage = .signal workerIdx)
      (hlive : (pool.workers workerIdx).freed = false) :
      CallSteps pool i call ((pool.setWorker workerIdx
        (pool.workers workerIdx).condSignal).setStage i call .returned)

/-- One step of `threadPoolDestroy`. -/
inductive DestroySteps (pool : ThreadPool n α) : ThreadPool n α → Prop where
  | called (hstage : pool.destroy = .notCalled) :
      DestroySteps pool { pool with destroy := .kill 0 }
  | kills {i : Nat} (hstage : pool.destroy = .kill i) (hi : i < n) :
      DestroySteps pool { pool.setWorker ⟨i, hi⟩ { pool.workers ⟨i, hi⟩ with killed := true } with
        destroy := .signal ⟨i, hi⟩ }
  | signals {i : Fin n} (hstage : pool.destroy = .signal i) :
      DestroySteps pool { pool.setWorker i (pool.workers i).condSignal with destroy := .spin i }
  | spins {i : Fin n} (hstage : pool.destroy = .spin i)
      (hack : (pool.workers i).killAck = false) : DestroySteps pool pool
  | leaves {i : Fin n} (hstage : pool.destroy = .spin i)
      (hack : (pool.workers i).killAck = true) :
      DestroySteps pool { pool with destroy := .free i }
  | frees {i : Fin n} (hstage : pool.destroy = .free i) :
      DestroySteps pool { pool.setWorker i { pool.workers i with jobsList := [], freed := true } with
        destroy := .kill (i.val + 1) }
  | returns {i : Nat} (hstage : pool.destroy = .kill i) (hi : n ≤ i) :
      DestroySteps pool { pool with destroy := .returned }

/-- One step of the pool. -/
inductive Steps [NeZero n] (pool : ThreadPool n α) :
    PoolEvent n α → ThreadPool n α → Prop where
  | worker {i : Fin n} {worker : ThreadPoolWorker α} (h : (pool.workers i).step = some worker) :
      Steps pool (.worker i) (pool.setWorker i worker)
  | wakesUp {i : Fin n} (h : (pool.workers i).blocked = true) :
      Steps pool (.spuriousWakeup i) (pool.setWorker i (pool.workers i).condSignal)
  | dispatch (data : Option α) : Steps pool (.dispatch data)
      { pool with calls := pool.calls ++ [⟨data, .scan 0 0 (decSize 0)⟩] }
  | call {i : Nat} {call : DispatchCall n α} {pool' : ThreadPool n α}
      (hcall : pool.calls[i]? = some call) (h : pool.CallSteps i call pool') :
      Steps pool (.call i) pool'
  | destroy {pool' : ThreadPool n α} (h : pool.DestroySteps pool') : Steps pool .destroy pool'

variable {pool pool' : ThreadPool n α}

theorem callSteps_of_stepCall {i : Nat} {call : DispatchCall n α}
    (h : pool.stepCall i call = some pool') : pool.CallSteps i call pool' := by
  unfold stepCall at h
  cases hstage : call.stage with
  | scan j workerIdx minJobs =>
    rw [hstage] at h
    dsimp only at h
    split at h
    · rename_i hj
      split at h
      · contradiction
      · rename_i hlive
        cases Option.some.inj h
        exact .measures hstage hj (Bool.eq_false_iff.mpr hlive)
    · rename_i hj
      cases Option.some.inj h
      exact .chooses hstage (Nat.le_of_not_lt hj)
  | push workerIdx =>
    rw [hstage] at h
    dsimp only at h
    split at h
    · contradiction
    · rename_i hlive
      cases Option.some.inj h
      exact .pushes hstage (Bool.eq_false_iff.mpr hlive)
  | signal workerIdx =>
    rw [hstage] at h
    dsimp only at h
    split at h
    · contradiction
    · rename_i hlive
      cases Option.some.inj h
      exact .signals hstage (Bool.eq_false_iff.mpr hlive)
  | returned =>
    rw [hstage] at h
    contradiction

theorem destroySteps_of_stepDestroy (h : pool.stepDestroy = some pool') :
    pool.DestroySteps pool' := by
  unfold stepDestroy at h
  cases hstage : pool.destroy with
  | notCalled =>
    rw [hstage] at h
    cases Option.some.inj h
    exact .called hstage
  | kill i =>
    rw [hstage] at h
    dsimp only at h
    split at h
    · rename_i hi
      cases Option.some.inj h
      exact .kills hstage hi
    · rename_i hi
      cases Option.some.inj h
      exact .returns hstage (Nat.le_of_not_lt hi)
  | signal i =>
    rw [hstage] at h
    cases Option.some.inj h
    exact .signals hstage
  | spin i =>
    rw [hstage] at h
    dsimp only at h
    split at h
    · rename_i hack
      cases Option.some.inj h
      exact .leaves hstage hack
    · rename_i hack
      cases Option.some.inj h
      exact .spins hstage (Bool.eq_false_iff.mpr hack)
  | free i =>
    rw [hstage] at h
    cases Option.some.inj h
    exact .frees hstage
  | returned =>
    rw [hstage] at h
    contradiction

theorem steps_of_step [NeZero n] {event : PoolEvent n α} (h : pool.step event = some pool') :
    pool.Steps event pool' := by
  cases event with
  | worker i =>
    obtain ⟨worker, hworker, rfl⟩ := Option.map_eq_some_iff.mp h
    exact .worker hworker
  | spuriousWakeup i =>
    unfold step at h
    dsimp only at h
    split at h
    · rename_i hblocked
      cases Option.some.inj h
      exact .wakesUp hblocked
    · contradiction
  | dispatch data =>
    cases Option.some.inj h
    exact .dispatch data
  | call i =>
    unfold step at h
    dsimp only at h
    split at h
    · rename_i call hcall
      exact .call hcall (callSteps_of_stepCall h)
    · contradiction
  | destroy => exact .destroy (destroySteps_of_stepDestroy h)

end ThreadPool

end Net77
