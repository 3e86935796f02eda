import Net77.Base.Places
import Net77.ThreadPool

/-! Where the jobs of a thread pool are. Every job that was handed to
`threadPoolDispatchWork` is in one place, and a worker takes its jobs in the
order in which they were pushed. -/
namespace Net77

open Net77.Base

variable {n : Nat} {α : Type} [DecidableEq α]

/-- The call still holds the job: it has not pushed it yet. -/
def DispatchCall.holds (d : α) (call : DispatchCall n α) : Bool :=
  match call.stage with
  | .scan _ _ _ | .push _ => call.data = some d
  | _ => false

/-- The job that the next step of the call pushes, and where. -/
def DispatchCall.pushes (call : DispatchCall n α) : List (Fin n × Option α) :=
  match call.stage with
  | .push workerIdx => [(workerIdx, call.data)]
  | _ => []

def DispatchCall.isFor (d : α) (call : DispatchCall n α) : Bool := call.data = some d

namespace ThreadPoolWorker

variable {worker worker' : ThreadPoolWorker α}

/-- The job that the handler is running. -/
def running (worker : ThreadPoolWorker α) : List α :=
  match worker.stage with
  | .run data => [data]
  | _ => []

/-- The jobs that the handler was called with, in that order. -/
def started (worker : ThreadPoolWorker α) : List α := worker.handled ++ worker.running

/-- How often the job is with the worker. -/
def copies (d : α) (worker : ThreadPoolWorker α) : Nat :=
  worker.jobsList.count (some d) + worker.running.count d + worker.handled.count d

/-- All that matters about a worker's jobs stays as it is. -/
structure Keeps (worker worker' : ThreadPoolWorker α) : Prop where
  copies : ∀ d, worker'.copies d = worker.copies d
  taken : worker'.started.map some ++ worker'.jobsList =
    worker.started.map some ++ worker.jobsList
  nonNull : none ∉ worker'.jobsList

omit [DecidableEq α] in
theorem running_condSignal (worker : ThreadPoolWorker α) :
    worker.condSignal.running = worker.running ∧
      worker.condSignal.handled = worker.handled ∧
      worker.condSignal.jobsList = worker.jobsList := by
  obtain ⟨stage, jobsList, killed, killAck, handled, freed⟩ := worker
  cases stage <;> exact ⟨rfl, rfl, rfl⟩

theorem condSignal_keeps (h : none ∉ worker.jobsList) : worker.Keeps worker.condSignal := by
  obtain ⟨hrunning, hhandled, hjobs⟩ := running_condSignal worker
  constructor
  · intro d
    rw [copies, copies, hrunning, hhandled, hjobs]
  · rw [started, started, hrunning, hhandled, hjobs]
  · rw [hjobs]
    exact h

/-- A worker takes the first job of its list, and it finishes the one it runs. -/
theorem step_keeps (h : none ∉ worker.jobsList) (hstep : worker.step = some worker') :
    worker.Keeps worker' := by
  obtain ⟨stage, jobsList, killed, killAck, handled, freed⟩ := worker
  cases stage with
  | waiting | ended => contradiction
  | test | lock | wait | woken | unlock | ack =>
    cases Option.some.inj hstep
    refine ⟨?_, ?_, h⟩
    · intro d
      cases killed <;> rfl
    · cases killed <;> rfl
  | pop =>
    cases jobsList with
    | nil =>
      cases Option.some.inj hstep
      exact ⟨fun d => rfl, rfl, h⟩
    | cons data jobsList =>
      cases data with
      | none =>
        exfalso
        exact h (List.mem_cons_self ..)
      | some data =>
        cases Option.some.inj hstep
        refine ⟨?_, ?_, ?_⟩
        · intro d
          simp only [copies, running, List.count_cons, List.count_nil]
          by_cases heq : data = d
          · simp [heq]
          · simp [heq]
        · simp [started, running]
        · intro hmem
          exact h (List.mem_cons_of_mem _ hmem)
  | run data =>
    cases Option.some.inj hstep
    refine ⟨?_, ?_, h⟩
    · intro d
      simp only [copies, running, List.count_append, List.count_nil]
      omega
    · simp [started, running]

theorem copies_push (worker : ThreadPoolWorker α) (data : Option α) (d : α) :
    copies d { worker with jobsList := linkedListPushBack worker.jobsList data } =
      worker.copies d + if data = some d then 1 else 0 := by
  simp only [copies, linkedListPushBack, List.count_append, List.count_singleton, beq_iff_eq]
  have hrunning : running { worker with jobsList := worker.jobsList ++ [data] } =
    worker.running := rfl
  rw [hrunning]
  omega

end ThreadPoolWorker

/-- Where a job can be. -/
inductive JobPlace (n : Nat) where
  | dispatcher
  | queued (i : Fin n)
  | running (i : Fin n)
  | finished (i : Fin n)
  deriving DecidableEq

/-- The worker that has the job. -/
def JobPlace.worker {n : Nat} : JobPlace n → Option (Fin n)
  | .dispatcher => none
  | .queued i | .running i | .finished i => some i

namespace ThreadPool

variable {pool pool' : ThreadPool n α}

/-- How often a job is at a place. -/
def copies (pool : ThreadPool n α) (d : α) : JobPlace n → Nat
  | .dispatcher => pool.calls.countP (DispatchCall.holds d)
  | .queued i => (pool.workers i).jobsList.count (some d)
  | .running i => (pool.workers i).running.count d
  | .finished i => (pool.workers i).handled.count d

/-- The jobs that an event pushes, with the workers they go to. -/
def pushes (pool : ThreadPool n α) : PoolEvent n α → List (Fin n × Option α)
  | .call i => pool.calls[i]?.elim [] DispatchCall.pushes
  | _ => []

/-- The jobs pushed to one worker, in that order. -/
def pushedTo (i : Fin n) (log : List (Fin n × Option α)) : List (Option α) :=
  (log.filter fun entry => entry.1 = i).map Prod.snd

/-- New calls come with data of their own that is not NULL, and nobody calls
`threadPoolDestroy`. -/
def dispatchesNew (pool : ThreadPool n α) : PoolEvent n α → Bool
  | .dispatch data => data.isSome && pool.calls.all fun call => call.data ≠ data
  | .destroy => false
  | _ => true

/-- Nothing is lost or doubled, and every list is what is left of the pushed jobs. -/
structure Accounted (pool : ThreadPool n α) (log : List (Fin n × Option α)) : Prop where
  isSome : ∀ call ∈ pool.calls, call.data ≠ none
  nodup : (pool.calls.map DispatchCall.data).Nodup
  nonNull : ∀ i, none ∉ (pool.workers i).jobsList
  copies : ∀ d, pool.calls.countP (DispatchCall.isFor d) =
    pool.calls.countP (DispatchCall.holds d) + ∑ i, (pool.workers i).copies d
  taken : ∀ i, pushedTo i log =
    (pool.workers i).started.map some ++ (pool.workers i).jobsList

omit [DecidableEq α] in
theorem setStage_data {i : Nat} {call : DispatchCall n α} (hcall : pool.calls[i]? = some call)
    (stage : DispatchStage n) :
    (pool.setStage i call stage).calls.map DispatchCall.data =
      pool.calls.map DispatchCall.data := by
  unfold setStage
  dsimp only
  rw [List.map_set]
  apply List.ext_getElem?
  intro j
  rw [List.getElem?_set]
  split
  · rename_i heq
    subst heq
    obtain ⟨hlt, hget⟩ := List.getElem?_eq_some_iff.mp hcall
    rw [List.getElem?_map, hcall, List.length_map, if_pos hlt]
    rfl
  · rfl

omit [DecidableEq α] in
theorem pushedTo_append (i : Fin n) (log more : List (Fin n × Option α)) :
    pushedTo i (log ++ more) = pushedTo i log ++ pushedTo i more := by
  unfold pushedTo
  rw [List.filter_append, List.map_append]

namespace Accounted

variable {log : List (Fin n × Option α)}

/-- A worker goes on by itself. -/
theorem setWorker (h : pool.Accounted log) {i : Fin n} {worker : ThreadPoolWorker α}
    (hkeeps : (pool.workers i).Keeps worker) : (pool.setWorker i worker).Accounted log := by
  refine ⟨h.isSome, h.nodup, ?_, ?_, ?_⟩
  · intro j
    by_cases hne : j = i
    · subst hne
      rw [setWorker_self]
      exact hkeeps.nonNull
    · rw [setWorker_of_ne pool hne]
      exact h.nonNull j
  · intro d
    have hsum := sum_update pool.workers (ThreadPoolWorker.copies d) i worker
    rw [hkeeps.copies d] at hsum
    have hcopies := h.copies d
    unfold ThreadPool.setWorker
    dsimp only
    omega
  · intro j
    by_cases hne : j = i
    · subst hne
      rw [setWorker_self, h.taken j]
      exact hkeeps.taken.symm
    · rw [setWorker_of_ne pool hne]
      exact h.taken j

/-- A call goes on, and keeps or does not have its job. -/
theorem setStage (h : pool.Accounted log) {i : Nat} {call : DispatchCall n α}
    (hcall : pool.calls[i]? = some call) (stage : DispatchStage n)
    (hholds : ∀ d, DispatchCall.holds d { call with stage } = call.holds d) :
    (pool.setStage i call stage).Accounted log := by
  have hdata := setStage_data hcall stage
  refine ⟨?_, by rw [hdata]; exact h.nodup, h.nonNull, ?_, h.taken⟩
  · intro other hmem
    have hmem : other.data ∈ pool.calls.map DispatchCall.data := by
      rw [← hdata]
      exact List.mem_map_of_mem hmem
    obtain ⟨before, hbefore, hsame⟩ := List.mem_map.mp hmem
    rw [← hsame]
    exact h.isSome before hbefore
  · intro d
    have hfor := countP_setStage hcall stage (DispatchCall.isFor d)
    have hheld := countP_setStage hcall stage (DispatchCall.holds d)
    have hsame : DispatchCall.isFor d { call with stage } = call.isFor d := rfl
    rw [hsame] at hfor
    rw [hholds d] at hheld
    have hcopies := h.copies d
    rw [setStage_workers]
    omega

/-- The job moves from the call to the list of the worker. -/
theorem push (h : pool.Accounted log) {i : Nat} {call : DispatchCall n α} {workerIdx : Fin n}
    (hcall : pool.calls[i]? = some call) (hstage : call.stage = .push workerIdx) :
    ((pool.setWorker workerIdx { pool.workers workerIdx with
        jobsList := linkedListPushBack (pool.workers workerIdx).jobsList call.data }).setStage i
        call (.signal workerIdx)).Accounted (log ++ [(workerIdx, call.data)]) := by
  have hcall' : (pool.setWorker workerIdx { pool.workers workerIdx with
      jobsList := linkedListPushBack (pool.workers workerIdx).jobsList call.data }).calls[i]? =
        some call := hcall
  have hdata := setStage_data hcall' (.signal workerIdx)
  have hsome : call.data ≠ none := h.isSome call (List.mem_of_getElem? hcall)
  refine ⟨?_, by rw [hdata]; exact h.nodup, ?_, ?_, ?_⟩
  · intro other hmem
    have hmem : other.data ∈ pool.calls.map DispatchCall.data := by
      rw [show pool.calls.map DispatchCall.data = _ from hdata.symm]
      exact List.mem_map_of_mem hmem
    obtain ⟨before, hbefore, hsame⟩ := List.mem_map.mp hmem
    rw [← hsame]
    exact h.isSome before hbefore
  · intro j
    rw [setStage_workers]
    by_cases hne : j = workerIdx
    · subst hne
      rw [setWorker_self]
      intro hmem
      rcases List.mem_append.mp hmem with hold | hnew
      · exact h.nonNull j hold
      · exact hsome (List.mem_singleton.mp hnew).symm
    · rw [setWorker_of_ne pool hne]
      exact h.nonNull j
  · intro d
    have hfor := countP_setStage hcall' (.signal workerIdx) (DispatchCall.isFor d)
    have hheld := countP_setStage hcall' (.signal workerIdx) (DispatchCall.holds d)
    have hsum := sum_update pool.workers (ThreadPoolWorker.copies d) workerIdx
      { pool.workers workerIdx with
        jobsList := linkedListPushBack (pool.workers workerIdx).jobsList call.data }
    have hcopies := h.copies d
    rw [ThreadPoolWorker.copies_push] at hsum
    have hsame : DispatchCall.isFor d { call with stage := .signal workerIdx } = call.isFor d := rfl
    have hbefore : call.holds d = decide (call.data = some d) := by
      rw [DispatchCall.holds, hstage]
    have hafter : DispatchCall.holds d { call with stage := .signal workerIdx } = false := rfl
    rw [hsame] at hfor
    rw [hbefore, hafter] at hheld
    rw [setStage_workers]
    simp only [decide_eq_true_eq, Bool.false_eq_true, if_false] at hheld
    unfold ThreadPool.setWorker at *
    dsimp only at *
    omega
  · intro j
    rw [setStage_workers, pushedTo_append, h.taken j]
    by_cases hne : j = workerIdx
    · subst hne
      rw [setWorker_self]
      simp [pushedTo, linkedListPushBack, ThreadPoolWorker.started, ThreadPoolWorker.running]
    · rw [setWorker_of_ne pool hne]
      simp [pushedTo, Ne.symm hne]

theorem stepCall (h : pool.Accounted log) {i : Nat} {call : DispatchCall n α}
    (hcall : pool.calls[i]? = some call) (hstep : pool.stepCall i call = some pool') :
    pool'.Accounted (log ++ pool.pushes (.call i)) := by
  obtain ⟨data, stage⟩ := call
  unfold ThreadPool.stepCall at hstep
  have hpushes : pool.pushes (.call i) = DispatchCall.pushes ⟨data, stage⟩ := by
    show pool.calls[i]?.elim [] DispatchCall.pushes = _
    rw [hcall]
    rfl
  rw [hpushes]
  cases stage with
  | scan j workerIdx minJobs =>
    rw [DispatchCall.pushes, List.append_nil]
    dsimp only at hstep
    split at hstep
    · split at hstep
      · contradiction
      · cases Option.some.inj hstep
        apply h.setStage hcall
        intro d
        split <;> rfl
    · cases Option.some.inj hstep
      exact h.setStage hcall _ fun d => rfl
  | push workerIdx =>
    dsimp only at hstep
    split at hstep
    · contradiction
    · cases Option.some.inj hstep
      exact h.push hcall rfl
  | signal workerIdx =>
    rw [DispatchCall.pushes, List.append_nil]
    dsimp only at hstep
    split at hstep
    · contradiction
    · cases Option.some.inj hstep
      have hkeeps := ThreadPoolWorker.condSignal_keeps (h.nonNull workerIdx)
      exact (h.setWorker hkeeps).setStage hcall _ fun d => rfl
  | returned => contradiction

variable [NeZero n]

theorem step (h : pool.Accounted log) {event : PoolEvent n α}
    (hnew : pool.dispatchesNew event = true) (hstep : pool.step event = some pool') :
    pool'.Accounted (log ++ pool.pushes event) := by
  cases event with
  | worker i =>
    obtain ⟨worker, hworker, rfl⟩ := Option.map_eq_some_iff.mp hstep
    rw [show pool.pushes (.worker i) = [] from rfl, List.append_nil]
    exact h.setWorker (ThreadPoolWorker.step_keeps (h.nonNull i) hworker)
  | spuriousWakeup i =>
    rw [show pool.pushes (.spuriousWakeup i) = [] from rfl, List.append_nil]
    unfold ThreadPool.step at hstep
    dsimp only at hstep
    split at hstep
    · cases Option.some.inj hstep
      exact h.setWorker (ThreadPoolWorker.condSignal_keeps (h.nonNull i))
    · contradiction
  | dispatch data =>
    cases Option.some.inj hstep
    rw [show pool.pushes (.dispatch data) = [] from rfl, List.append_nil]
    unfold dispatchesNew at hnew
    simp only [Bool.and_eq_true, List.all_eq_true, decide_eq_true_eq] at hnew
    obtain ⟨hsome, hfresh⟩ := hnew
    refine ⟨?_, ?_, h.nonNull, ?_, h.taken⟩
    · intro call hmem
      rcases List.mem_append.mp hmem with hold | hlast
      · exact h.isSome call hold
      · rw [List.mem_singleton.mp hlast]
        intro hnone
        rw [show data = none from hnone] at hsome
        contradiction
    · rw [List.map_append, List.nodup_append]
      refine ⟨h.nodup, List.nodup_singleton _, ?_⟩
      intro a ha b hb heq
      obtain ⟨call, hcall, rfl⟩ := List.mem_map.mp ha
      exact hfresh call hcall (heq.trans (List.mem_singleton.mp hb))
    · intro d
      have hcopies := h.copies d
      rw [List.countP_append, List.countP_append]
      dsimp only
      have hlast : [(⟨data, .scan 0 0 (decSize 0)⟩ : DispatchCall n α)].countP
          (DispatchCall.isFor d) = [(⟨data, .scan 0 0 (decSize 0)⟩ : DispatchCall n α)].countP
          (DispatchCall.holds d) := rfl
      rw [hlast]
      omega
  | call i =>
    unfold ThreadPool.step at hstep
    dsimp only at hstep
    split at hstep
    · rename_i call hcall
      exact h.stepCall hcall hstep
    · contradiction
  | destroy => contradiction

end Accounted

/-- The job is in exactly one place, and there once. -/
def OnePlace (pool : ThreadPool n α) (d : α) : Prop :=
  ∃ place, pool.copies d place = 1 ∧ ∀ other ≠ place, pool.copies d other = 0

/-- The places with a worker share its jobs. -/
theorem copies_le {place : JobPlace n} {i : Fin n} (h : place.worker = some i) (d : α) :
    pool.copies d place ≤ (pool.workers i).copies d := by
  cases place with
  | dispatcher => contradiction
  | queued j | running j | finished j =>
    cases Option.some.inj h
    simp only [copies, ThreadPoolWorker.copies]
    omega

theorem copies_add_le {place other : JobPlace n} {i : Fin n} (hne : other ≠ place)
    (hplace : place.worker = some i) (hother : other.worker = some i) (d : α) :
    pool.copies d place + pool.copies d other ≤ (pool.workers i).copies d := by
  cases place with
  | dispatcher => contradiction
  | queued j | running j | finished j =>
    cases Option.some.inj hplace
    cases other with
    | dispatcher => contradiction
    | queued k | running k | finished k =>
      cases Option.some.inj hother
      first
        | contradiction
        | simp only [copies, ThreadPoolWorker.copies]; omega

/-- A job that one worker has once and the others have not. -/
theorem onePlace_of_worker {d : α} {i : Fin n}
    (hheld : pool.copies d .dispatcher = 0) (hi : (pool.workers i).copies d = 1)
    (hothers : ∀ j ≠ i, (pool.workers j).copies d = 0) : pool.OnePlace d := by
  obtain ⟨place, hworker, hone⟩ : ∃ place : JobPlace n, place.worker = some i ∧
      pool.copies d place = 1 := by
    unfold ThreadPoolWorker.copies at hi
    rcases (by omega : (pool.workers i).jobsList.count (some d) = 1 ∨
        (pool.workers i).running.count d = 1 ∨ (pool.workers i).handled.count d = 1) with
      hone | hone | hone
    · exact ⟨.queued i, rfl, hone⟩
    · exact ⟨.running i, rfl, hone⟩
    · exact ⟨.finished i, rfl, hone⟩
  refine ⟨place, hone, ?_⟩
  intro other hne
  cases hother : other.worker with
  | none =>
    cases other with
    | dispatcher => exact hheld
    | queued j | running j | finished j => contradiction
  | some j =>
    by_cases heq : j = i
    · subst heq
      have hboth : pool.copies d place + pool.copies d other ≤ (pool.workers j).copies d :=
        copies_add_le hne hworker hother d
      omega
    · exact Nat.le_zero.mp ((copies_le hother d).trans (hothers j heq).le)

/-- A job that its dispatcher has once and the workers have not. -/
theorem onePlace_of_dispatcher {d : α} (hheld : pool.copies d .dispatcher = 1)
    (hworkers : ∀ i, (pool.workers i).copies d = 0) : pool.OnePlace d := by
  refine ⟨.dispatcher, hheld, ?_⟩
  intro other hne
  cases hother : other.worker with
  | none =>
    cases other with
    | dispatcher => contradiction
    | queued j | running j | finished j => contradiction
  | some i => exact Nat.le_zero.mp ((copies_le hother d).trans (hworkers i).le)

theorem Accounted.onePlace {log : List (Fin n × Option α)} (h : pool.Accounted log)
    {call : DispatchCall n α} (hmem : call ∈ pool.calls) {d : α} (hdata : call.data = some d) :
    pool.OnePlace d := by
  have hone : pool.calls.countP (DispatchCall.isFor d) = 1 := by
    have hcount := List.count_eq_one_of_mem h.nodup (List.mem_map_of_mem hmem)
    rw [hdata, List.count, List.countP_map] at hcount
    rw [← hcount]
    apply List.countP_congr
    intro other _
    simp [DispatchCall.isFor]
  have htotal := h.copies d
  rw [hone] at htotal
  by_cases hheld : pool.calls.countP (DispatchCall.holds d) = 0
  · rw [hheld, Nat.zero_add] at htotal
    obtain ⟨i, hi, hothers⟩ := place_of_sum_eq_one htotal.symm
    exact onePlace_of_worker hheld hi hothers
  · have hhere : pool.calls.countP (DispatchCall.holds d) = 1 := by omega
    have hnobody : ∑ i, (pool.workers i).copies d = 0 := by omega
    exact onePlace_of_dispatcher hhere
      fun i => Finset.sum_eq_zero_iff.mp hnobody i (Finset.mem_univ i)

theorem accounted_of_reachable [NeZero n] {s : ThreadPool n α × List (Fin n × Option α)}
    (h : Reachable ((system n α).logged pushes) (fun s => dispatchesNew s.1) s) :
    s.1.Accounted s.2 := by
  apply h.invariant
  · refine ⟨?_, ?_, ?_, ?_, ?_⟩
    · intro call hmem
      contradiction
    · exact List.nodup_nil
    · intro i hmem
      contradiction
    · intro d
      show 0 = 0 + ∑ i : Fin n, ThreadPoolWorker.copies d (ThreadPoolWorker.new : ThreadPoolWorker α)
      simp [ThreadPoolWorker.copies, ThreadPoolWorker.new, ThreadPoolWorker.running]
    · intro i
      rfl
  · intro s e s' haccounted hnew hstep
    obtain ⟨pool', hpool, rfl⟩ := Option.map_eq_some_iff.mp hstep
    exact haccounted.step hnew hpool

/-- In every run, every job that was handed over is in one place, and each worker
takes the jobs of its list in the order in which they were pushed. -/
theorem jobs_accounted [NeZero n] {pool : ThreadPool n α} {log : List (Fin n × Option α)}
    (h : Reachable ((system n α).logged pushes) (fun s => dispatchesNew s.1) (pool, log)) :
    (∀ call ∈ pool.calls, ∃ d, call.data = some d ∧ pool.OnePlace d) ∧
      ∀ i, pushedTo i log =
        (pool.workers i).started.map some ++ (pool.workers i).jobsList := by
  have haccounted : pool.Accounted log := accounted_of_reachable h
  constructor
  · intro call hmem
    cases hdata : call.data with
    | none =>
      exfalso
      exact haccounted.isSome call hmem hdata
    | some d => exact ⟨d, rfl, haccounted.onePlace hmem hdata⟩
  · exact haccounted.taken

/-- Three calls at a time for two workers, one of which has finished a job. -/
def busyRun : List (PoolEvent 2 Nat) :=
  List.replicate 3 (.worker 0) ++ [.dispatch (some 7), .dispatch (some 8), .dispatch (some 9)] ++
    List.replicate 5 (.call 0) ++ List.replicate 4 (.call 1) ++ List.replicate 3 (.worker 0)

theorem jobs_accounted_busyRun : ∃ pool log,
    Reachable ((system 2 Nat).logged pushes) (fun s => dispatchesNew s.1) (pool, log) ∧
      (pool.workers 0).handled = [7] ∧
      (∀ call ∈ pool.calls, ∃ d, call.data = some d ∧ pool.OnePlace d) ∧
        ∀ i, pushedTo i log =
          (pool.workers i).started.map some ++ (pool.workers i).jobsList := by
  obtain ⟨⟨pool, log⟩, hreached, hholds⟩ := System.reachable_of_run
    ((system 2 Nat).logged pushes) (fun s => dispatchesNew s.1) busyRun
    (fun s => (s.1.workers 0).handled = [7]) (by decide)
  exact ⟨pool, log, hreached, by simpa using hholds, jobs_accounted hreached⟩

end ThreadPool

end Net77
