import Net77.ThreadPool

/-! A worker that waits has no jobs, as long as no signal for it is lost. -/
namespace Net77

open Net77.Base

variable {n : Nat} {α : Type}

/-- The call has pushed its data and not yet signalled it. -/
def DispatchCall.signals (i : Fin n) (call : DispatchCall n α) : Bool :=
  match call.stage with
  | .signal workerIdx => workerIdx = i
  | _ => false

/-- The job that a wake-up is for, from the wake-up on until it is popped. -/
def ThreadPoolWorker.due (worker : ThreadPoolWorker α) : Nat :=
  match worker.stage with
  | .woken | .pop => 1
  | _ => 0

namespace ThreadPoolWorker

variable {worker worker' : ThreadPoolWorker α}

/-- A step of a worker takes no more than one job, and that one was due. -/
theorem step_due (h : worker.step = some worker') : worker'.killed = worker.killed ∧
    ∀ k, worker.jobsList.length ≤ k + worker.due →
      worker'.jobsList.length ≤ k + worker'.due := by
  obtain ⟨stage, jobsList, killed, killAck, handled, freed⟩ := worker
  cases stage with
  | waiting | ended => contradiction
  | pop =>
    cases jobsList with
    | nil =>
      cases Option.some.inj h
      exact ⟨rfl, fun k _ => Nat.zero_le _⟩
    | cons data jobsList =>
      have hpop (k : Nat) (hk : (data :: jobsList).length ≤ k + 1) : jobsList.length ≤ k := by
        rw [List.length_cons] at hk
        omega
      cases data with
      | none =>
        cases Option.some.inj h
        exact ⟨rfl, hpop⟩
      | some data =>
        cases Option.some.inj h
        exact ⟨rfl, hpop⟩
  | test =>
    cases Option.some.inj h
    refine ⟨rfl, fun k hk => ?_⟩
    cases killed <;> exact hk
  | lock | wait | woken | run | unlock | ack =>
    cases Option.some.inj h
    exact ⟨rfl, fun k hk => hk⟩

theorem condSignal_killed (worker : ThreadPoolWorker α) :
    worker.condSignal.killed = worker.killed := by
  unfold condSignal
  split <;> rfl

theorem condSignal_jobsList (worker : ThreadPoolWorker α) :
    worker.condSignal.jobsList = worker.jobsList := by
  unfold condSignal
  split <;> rfl

theorem due_le_condSignal (worker : ThreadPoolWorker α) : worker.due ≤ worker.condSignal.due := by
  unfold condSignal
  split
  · rename_i hwaiting
    rw [due, hwaiting]
    exact Nat.zero_le _
  · exact Nat.le_refl _

/-- A signal that arrives makes a job due. -/
theorem condSignal_due (h : worker.blocked = true) :
    worker.due = 0 ∧ worker.condSignal.due = 1 := by
  obtain ⟨stage, jobsList, killed, killAck, handled, freed⟩ := worker
  cases stage with
  | waiting => exact ⟨rfl, rfl⟩
  | _ => contradiction

end ThreadPoolWorker

namespace ThreadPool

/-- A worker that is alive and asleep, with nobody about to signal it, has no job. -/
def NoneLeftBehind (pool : ThreadPool n α) : Prop :=
  ∀ i, (pool.workers i).killed = false → (pool.workers i).blocked = true →
    (∀ call ∈ pool.calls, call.signals i = false) → (pool.workers i).jobsList = []

/-- Where the event is a `condSignal` of `threadPoolDispatchWork`, it finds its
worker waiting, unless that has been killed. -/
def signalArrives (pool : ThreadPool n α) : PoolEvent n α → Bool
  | .call i =>
    match pool.calls[i]? with
    | some call =>
      match call.stage with
      | .signal workerIdx =>
        (pool.workers workerIdx).killed || (pool.workers workerIdx).blocked
      | _ => true
    | none => true
  | _ => true

/-- Every job of a worker that is alive has its wake-up ahead. -/
def Expected (pool : ThreadPool n α) : Prop :=
  ∀ i, (pool.workers i).killed = false →
    (pool.workers i).jobsList.length ≤
      pool.calls.countP (DispatchCall.signals i) + (pool.workers i).due

theorem Expected.noneLeftBehind {pool : ThreadPool n α} (h : pool.Expected) :
    pool.NoneLeftBehind := by
  intro i halive hblocked hquiet
  have hexpected := h i halive
  have hcount : pool.calls.countP (DispatchCall.signals i) = 0 := by
    rw [List.countP_eq_zero]
    intro call hmem
    simp [hquiet call hmem]
  have hdue := (ThreadPoolWorker.condSignal_due hblocked).1
  exact List.length_eq_zero_iff.mp (by omega)

/-- It is enough to look at the worker that an event is about. -/
theorem Expected.of_worker {pool pool' : ThreadPool n α} (h : pool.Expected) (i : Fin n)
    (hothers : ∀ j ≠ i, pool'.workers j = pool.workers j ∧
      pool.calls.countP (DispatchCall.signals j) ≤ pool'.calls.countP (DispatchCall.signals j))
    (hi : (pool'.workers i).killed = false → (pool'.workers i).jobsList.length ≤
      pool'.calls.countP (DispatchCall.signals i) + (pool'.workers i).due) : pool'.Expected := by
  intro j halive
  by_cases heq : j = i
  · subst heq
    exact hi halive
  · obtain ⟨hworker, hcount⟩ := hothers j heq
    rw [hworker] at halive ⊢
    have hexpected := h j halive
    omega

theorem Expected.setWorker {pool : ThreadPool n α} (h : pool.Expected) {i : Fin n}
    {worker : ThreadPoolWorker α}
    (hi : worker.killed = false → worker.jobsList.length ≤
      pool.calls.countP (DispatchCall.signals i) + worker.due) :
    (pool.setWorker i worker).Expected := by
  apply h.of_worker i
  · intro j hne
    exact ⟨setWorker_of_ne pool hne worker, Nat.le_refl _⟩
  · rw [setWorker_self]
    exact hi

/-- A wake-up more does no harm. -/
theorem Expected.condSignal {pool : ThreadPool n α} (h : pool.Expected) (i : Fin n) :
    (pool.setWorker i (pool.workers i).condSignal).Expected := by
  apply h.setWorker
  intro halive
  rw [ThreadPoolWorker.condSignal_killed] at halive
  rw [ThreadPoolWorker.condSignal_jobsList]
  have hexpected := h i halive
  have hdue := ThreadPoolWorker.due_le_condSignal (pool.workers i)
  omega

section Steps

variable {pool pool' : ThreadPool n α} {i : Nat} {call : DispatchCall n α}

/-- A call that is not about to signal, neither before nor after. -/
theorem Expected.stepScan (h : pool.Expected) (hcall : pool.calls[i]? = some call)
    (hbefore : ∀ k, DispatchCall.signals k call = false) {stage : DispatchStage n}
    (hafter : ∀ k, DispatchCall.signals k { call with stage } = false) :
    (pool.setStage i call stage).Expected := by
  intro k halive
  have hnew := countP_setStage hcall stage (DispatchCall.signals k)
  rw [hafter k, hbefore k] at hnew
  rw [setStage_workers] at halive ⊢
  have hexpected := h k halive
  simp at hnew
  omega

/-- A pushed job has the signal of its call ahead. -/
theorem Expected.stepPush (h : pool.Expected) {workerIdx : Fin n}
    (hcall : pool.calls[i]? = some call) (hstage : call.stage = .push workerIdx) :
    ((pool.setWorker workerIdx { pool.workers workerIdx with
      jobsList := linkedListPushBack (pool.workers workerIdx).jobsList call.data }).setStage
        i call (.signal workerIdx)).Expected := by
  have hnew := countP_setStage hcall (.signal workerIdx)
  apply h.of_worker workerIdx
  · intro j hne
    have hother := hnew (DispatchCall.signals j)
    simp [DispatchCall.signals, hstage, hne.symm] at hother
    exact ⟨setWorker_of_ne pool hne _, hother.ge⟩
  · rw [setStage_workers, setWorker_self]
    intro halive
    have hexpected := h workerIdx halive
    have hself := hnew (DispatchCall.signals workerIdx)
    simp [DispatchCall.signals, hstage] at hself
    have hlen (list : List (Option α)) : (linkedListPushBack list call.data).length =
        list.length + 1 := List.length_append
    show (linkedListPushBack (pool.workers workerIdx).jobsList call.data).length ≤
      (pool.setStage i _ (.signal workerIdx)).calls.countP _ + (pool.workers workerIdx).due
    rw [hlen, hself]
    omega

/-- The signal arrives, and one call less has to come. -/
theorem Expected.stepSignal (h : pool.Expected) {workerIdx : Fin n}
    (hcall : pool.calls[i]? = some call) (hstage : call.stage = .signal workerIdx)
    (harrives : pool.signalArrives (.call i) = true) :
    ((pool.setWorker workerIdx (pool.workers workerIdx).condSignal).setStage
      i call .returned).Expected := by
  have hnew := countP_setStage hcall .returned
  apply h.of_worker workerIdx
  · intro j hne
    have hother := hnew (DispatchCall.signals j)
    simp [DispatchCall.signals, hstage, hne.symm] at hother
    exact ⟨setWorker_of_ne pool hne _, hother.ge⟩
  · rw [setStage_workers, setWorker_self, ThreadPoolWorker.condSignal_killed,
      ThreadPoolWorker.condSignal_jobsList]
    intro halive
    have hexpected := h workerIdx halive
    have hself := hnew (DispatchCall.signals workerIdx)
    simp [DispatchCall.signals, hstage] at hself
    have hblocked : (pool.workers workerIdx).blocked = true := by
      simpa [signalArrives, hcall, hstage, halive] using harrives
    obtain ⟨hbefore, hafter⟩ := ThreadPoolWorker.condSignal_due hblocked
    show (pool.workers workerIdx).jobsList.length ≤
      (pool.setStage i _ .returned).calls.countP _ + _
    omega

theorem Expected.stepCall (h : pool.Expected) (hcall : pool.calls[i]? = some call)
    (harrives : pool.signalArrives (.call i) = true) (hstep : pool.stepCall i call = some pool') :
    pool'.Expected := by
  unfold ThreadPool.stepCall at hstep
  cases hstage : call.stage with
  | scan j workerIdx minJobs =>
    have hbefore : ∀ k, DispatchCall.signals k call = false := by
      intro k
      rw [DispatchCall.signals, hstage]
    rw [hstage] at hstep
    dsimp only at hstep
    split at hstep
    · split at hstep
      · contradiction
      · cases Option.some.inj hstep
        apply h.stepScan hcall hbefore
        intro k
        split <;> rfl
    · cases Option.some.inj hstep
      exact h.stepScan hcall hbefore fun k => rfl
  | push workerIdx =>
    rw [hstage] at hstep
    dsimp only at hstep
    split at hstep
    · contradiction
    · cases Option.some.inj hstep
      exact h.stepPush hcall hstage
  | signal workerIdx =>
    rw [hstage] at hstep
    dsimp only at hstep
    split at hstep
    · contradiction
    · cases Option.some.inj hstep
      exact h.stepSignal hcall hstage harrives
  | returned =>
    rw [hstage] at hstep
    contradiction

theorem Expected.stepDestroy (h : pool.Expected) (hstep : pool.stepDestroy = some pool') :
    pool'.Expected := by
  unfold ThreadPool.stepDestroy at hstep
  split at hstep
  · cases Option.some.inj hstep
    exact h
  · split at hstep
    · cases Option.some.inj hstep
      refine h.setWorker fun halive => ?_
      contradiction
    · cases Option.some.inj hstep
      exact h
  · cases Option.some.inj hstep
    exact h.condSignal _
  · cases Option.some.inj hstep
    split <;> exact h
  · cases Option.some.inj hstep
    exact h.setWorker fun _ => Nat.zero_le _
  · contradiction

variable [NeZero n]

theorem Expected.step (h : pool.Expected) {event : PoolEvent n α}
    (harrives : pool.signalArrives event = true) (hstep : pool.step event = some pool') :
    pool'.Expected := by
  cases event with
  | worker i =>
    obtain ⟨worker, hworker, rfl⟩ := Option.map_eq_some_iff.mp hstep
    obtain ⟨hkilled, hdue⟩ := ThreadPoolWorker.step_due hworker
    apply h.setWorker
    intro halive
    rw [hkilled] at halive
    exact hdue _ (h i halive)
  | spuriousWakeup i =>
    unfold ThreadPool.step at hstep
    dsimp only at hstep
    split at hstep
    · cases Option.some.inj hstep
      exact h.condSignal i
    · contradiction
  | dispatch data =>
    cases Option.some.inj hstep
    intro i halive
    have hexpected := h i halive
    rw [List.countP_append]
    dsimp only
    omega
  | call i =>
    unfold ThreadPool.step at hstep
    dsimp only at hstep
    split at hstep
    · rename_i call hcall
      exact h.stepCall hcall harrives hstep
    · contradiction
  | destroy => exact h.stepDestroy hstep

end Steps

/-- In every run in which each signal finds its worker waiting, no job is left
behind by a worker that sleeps. -/
theorem noneLeftBehind_of_signalArrives [NeZero n] {pool : ThreadPool n α}
    (h : Reachable (system n α) signalArrives pool) : pool.NoneLeftBehind := by
  apply Expected.noneLeftBehind
  apply h.invariant
  · intro i _
    exact Nat.zero_le _
  · intro s e s' hexpected harrives hstep
    exact hexpected.step harrives hstep

/-- A job for a worker that already waits. -/
def promptRun : List (PoolEvent 2 Nat) :=
  List.replicate 3 (.worker 0) ++ [.dispatch (some 7)] ++ List.replicate 5 (.call 0) ++
    List.replicate 7 (.worker 0)

theorem noneLeftBehind_promptRun : ∃ pool, Reachable (system 2 Nat) signalArrives pool ∧
    (pool.workers 0).handled = [7] ∧ pool.NoneLeftBehind := by
  obtain ⟨pool, hreached, hholds⟩ := System.reachable_of_run (system 2 Nat) signalArrives
    promptRun (fun pool => (pool.workers 0).handled = [7]) (by decide)
  exact ⟨pool, hreached, by simpa using hholds, noneLeftBehind_of_signalArrives hreached⟩

/-- A job that is dispatched while the only worker is not waiting yet. -/
def earlyRun : List (PoolEvent 1 Unit) :=
  [.dispatch (some ())] ++ List.replicate 4 (.call 0) ++ List.replicate 3 (.worker 0)

/-- The worker sleeps with the job in its list. -/
theorem earlyRun_leaves_job : ¬ ∀ pool : ThreadPool 1 Unit,
    Reachable (system 1 Unit) (fun _ _ => true) pool → pool.NoneLeftBehind := by
  intro hall
  obtain ⟨pool, hreached, hholds⟩ := System.reachable_of_run (system 1 Unit)
    (fun _ _ => true) earlyRun
    (fun pool => !(pool.workers 0).killed && (pool.workers 0).blocked &&
      pool.calls.all (fun call => !call.signals 0) && !(pool.workers 0).jobsList.isEmpty)
    (by decide)
  simp only [Bool.and_eq_true, Bool.not_eq_true', List.all_eq_true] at hholds
  obtain ⟨⟨⟨halive, hblocked⟩, hquiet⟩, hjob⟩ := hholds
  have hempty := hall pool hreached 0 halive hblocked hquiet
  rw [hempty] at hjob
  contradiction

end ThreadPool

end Net77
