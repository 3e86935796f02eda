import Mathlib.Algebra.GroupWithZero.Nat
import Mathlib.Logic.Function.Basic
import Net77.Base.Transition
import Net77.Memory

/-! `lib/thread_pool.c` for a pool with workers. Every access to a list is one
step, because the list has a mutex. Data that is NULL is `none`. -/
namespace Net77

open Net77.Base

/-- Where a thread is in `threadPoolWorker`. No other thread takes the mutex of
its `wake_cond`, so it never waits for that. -/
inductive WorkerStage (α : Type) where
  | test
  | lock
  | wait
  | waiting
  | woken
  | pop
  | run (data : α)
  | unlock
  | ack
  | ended

/-- `handled` is the data that the handler has returned from, and `freed` says
that the list and the condition are destroyed. -/
structure ThreadPoolWorker (α : Type) where
  stage : WorkerStage α
  jobsList : List (Option α)
  killed : Bool
  killAck : Bool
  handled : List α
  freed : Bool

def linkedListPushBack {α : Type} (list : List (Option α)) (data : Option α) : List (Option α) :=
  list ++ [data]

/-- NULL where the list is empty. -/
def linkedListPopFront {α : Type} : List (Option α) → Option α × List (Option α)
  | [] => (none, [])
  | data :: list => (data, list)

namespace ThreadPoolWorker

variable {α : Type}

def new : ThreadPoolWorker α := ⟨.test, [], false, false, [], false⟩

/-- Blocked in `condWait`. -/
def blocked (worker : ThreadPoolWorker α) : Bool :=
  match worker.stage with
  | .waiting => true
  | _ => false

/-- `condSignal`, which nobody remembers unless the worker waits for it. -/
def condSignal (worker : ThreadPoolWorker α) : ThreadPoolWorker α :=
  match worker.stage with
  | .waiting => { worker with stage := .woken }
  | _ => worker

/-- The next step of `threadPoolWorker`. -/
def step (worker : ThreadPoolWorker α) : Option (ThreadPoolWorker α) :=
  match worker.stage with
  | .test => some { worker with stage := if worker.killed then .ack else .lock }
  | .lock => some { worker with stage := .wait }
  | .wait => some { worker with stage := .waiting }
  | .waiting => none
  | .woken => some { worker with stage := .pop }
  | .pop =>
    let (data, jobsList) := linkedListPopFront worker.jobsList
    match data with
    | some data => some { worker with jobsList, stage := .run data }
    | none => some { worker with jobsList, stage := .unlock }
  | .run data => some { worker with handled := worker.handled ++ [data], stage := .unlock }
  | .unlock => some { worker with stage := .test }
  | .ack => some { worker with killAck := true, stage := .ended }
  | .ended => none

end ThreadPoolWorker

/-- Where a call of `threadPoolDispatchWork` is. -/
inductive DispatchStage (n : Nat) where
  | scan (i : Nat) (workerIdx : Fin n) (minJobs : Nat)
  | push (workerIdx : Fin n)
  | signal (workerIdx : Fin n)
  | returned

structure DispatchCall (n : Nat) (α : Type) where
  data : Option α
  stage : DispatchStage n

/-- Where `threadPoolDestroy` is. -/
inductive DestroyStage (n : Nat) where
  | notCalled
  | kill (i : Nat)
  | signal (i : Fin n)
  | spin (i : Fin n)
  | free (i : Fin n)
  | returned

structure ThreadPool (n : Nat) (α : Type) where
  workers : Fin n → ThreadPoolWorker α
  calls : List (DispatchCall n α)
  destroy : DestroyStage n

/-- What the scheduler lets happen next: a step of a worker or of a call, a new
call, or a wake-up without a signal, which `pthread_cond_wait` may have. -/
inductive PoolEvent (n : Nat) (α : Type) where
  | worker (i : Fin n)
  | spuriousWakeup (i : Fin n)
  | dispatch (data : Option α)
  | call (i : Nat)
  | destroy

namespace ThreadPool

variable {n : Nat} {α : Type}

def setWorker (pool : ThreadPool n α) (i : Fin n) (worker : ThreadPoolWorker α) :
    ThreadPool n α :=
  { pool with workers := Function.update pool.workers i worker }

@[simp] theorem setWorker_self (pool : ThreadPool n α) (i : Fin n) (worker : ThreadPoolWorker α) :
    (pool.setWorker i worker).workers i = worker := by
  simp [setWorker]

@[simp] theorem setWorker_of_ne (pool : ThreadPool n α) {i j : Fin n} (h : j ≠ i)
    (worker : ThreadPoolWorker α) : (pool.setWorker i worker).workers j = pool.workers j := by
  simp [setWorker, h]

def setStage (pool : ThreadPool n α) (i : Nat) (call : DispatchCall n α)
    (stage : DispatchStage n) : ThreadPool n α :=
  { pool with calls := pool.calls.set i { call with stage } }

@[simp] theorem setStage_workers (pool : ThreadPool n α) (i : Nat) (call : DispatchCall n α)
    (stage : DispatchStage n) : (pool.setStage i call stage).workers = pool.workers := rfl

/-- The calls of some kind, after one of them has gone on. -/
theorem countP_setStage {pool : ThreadPool n α} {i : Nat} {call : DispatchCall n α}
    (hcall : pool.calls[i]? = some call) (stage : DispatchStage n) (p : DispatchCall n α → Bool) :
    (pool.setStage i call stage).calls.countP p + (if p call then 1 else 0) =
      pool.calls.countP p + (if p { call with stage } then 1 else 0) := by
  obtain ⟨hlt, hget⟩ := List.getElem?_eq_some_iff.mp hcall
  have hle := List.boole_getElem_le_countP (p := p) hlt
  rw [hget] at hle
  unfold setStage
  dsimp only
  rw [List.countP_set hlt, hget]
  omega

/-- The next step of a call of `threadPoolDispatchWork`. -/
def stepCall (pool : ThreadPool n α) (i : Nat) (call : DispatchCall n α) :
    Option (ThreadPool n α) :=
  match call.stage with
  | .scan j workerIdx minJobs =>
    if h : j < n then
      let worker := pool.workers ⟨j, h⟩
      if worker.freed then none
      else
        let jobs := worker.jobsList.length
        some (pool.setStage i call
          (if jobs < minJobs then .scan (j + 1) ⟨j, h⟩ jobs else .scan (j + 1) workerIdx minJobs))
    else some (pool.setStage i call (.push workerIdx))
  | .push workerIdx =>
    let worker := pool.workers workerIdx
    if worker.freed then none
    else
      let worker := { worker with jobsList := linkedListPushBack worker.jobsList call.data }
      some ((pool.setWorker workerIdx worker).setStage i call (.signal workerIdx))
  | .signal workerIdx =>
    let worker := pool.workers workerIdx
    if worker.freed then none
    else some ((pool.setWorker workerIdx worker.condSignal).setStage i call .returned)
  | .returned => none

/-- The next step of `threadPoolDestroy`. -/
def stepDestroy (pool : ThreadPool n α) : Option (ThreadPool n α) :=
  match pool.destroy with
  | .notCalled => some { pool with destroy := .kill 0 }
  | .kill i =>
    if h : i < n then
      let worker := { pool.workers ⟨i, h⟩ with killed := true }
      some { pool.setWorker ⟨i, h⟩ worker with destroy := .signal ⟨i, h⟩ }
    else some { pool with destroy := .returned }
  | .signal i =>
    some { pool.setWorker i (pool.workers i).condSignal with destroy := .spin i }
  | .spin i => some (if (pool.workers i).killAck then { pool with destroy := .free i } else pool)
  | .free i =>
    let worker := { pool.workers i with jobsList := [], freed := true }
    some { pool.setWorker i worker with destroy := .kill (i.val + 1) }
  | .returned => none

variable [NeZero n]

def step (pool : ThreadPool n α) : PoolEvent n α → Option (ThreadPool n α)
  | .worker i => (pool.workers i).step.map (pool.setWorker i)
  | .spuriousWakeup i =>
    if (pool.workers i).blocked then some (pool.setWorker i (pool.workers i).condSignal) else none
  | .dispatch data => some { pool with calls := pool.calls ++ [⟨data, .scan 0 0 (decSize 0)⟩] }
  | .call i =>
    match pool.calls[i]? with
    | some call => pool.stepCall i call
    | none => none
  | .destroy => pool.stepDestroy

/-- `newThreadPool`, with its threads running. -/
def system (n : Nat) [NeZero n] (α : Type) : System (ThreadPool n α) (PoolEvent n α) where
  init := ⟨fun _ => .new, [], .notCalled⟩
  step := step

end ThreadPool

end Net77
