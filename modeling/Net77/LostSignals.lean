import Net77.JobPlaces
import Net77.LostWakeups
import Net77.PoolBalance

/-! What it costs when signals are lost. A worker that sleeps has at most as many
jobs as signals for it came while it was not waiting, so that this is also how many
jobs a pool leaves undone when it has come to rest. -/
namespace Net77

open Net77.Base

variable {n : Nat} {α : Type}

namespace ThreadPool

variable {pool pool' : ThreadPool n α} {lost : List (Fin n)}

/-- The worker whose signal is lost when the call takes its next step. -/
def loses (pool : ThreadPool n α) (call : DispatchCall n α) : List (Fin n) :=
  match call.stage with
  | .signal workerIdx =>
    if (pool.workers workerIdx).killed || (pool.workers workerIdx).blocked then []
    else [workerIdx]
  | _ => []

/-- The worker whose signal is lost with this event. -/
def lostSignals (pool : ThreadPool n α) : PoolEvent n α → List (Fin n)
  | .call i => pool.calls[i]?.elim [] pool.loses
  | _ => []

/-- Every job of a worker that is alive has a wake-up ahead or a lost signal behind. -/
def Explained (pool : ThreadPool n α) (lost : List (Fin n)) : Prop :=
  ∀ i, (pool.workers i).killed = false → (pool.workers i).jobsList.length ≤
    pool.calls.countP (DispatchCall.signals i) + (pool.workers i).due + lost.count i

theorem Explained.setWorker (h : pool.Explained lost) {i : Fin n} {worker : ThreadPoolWorker α}
    (hi : worker.killed = false → (pool.workers i).killed = false ∧
      ∀ k, (pool.workers i).jobsList.length ≤ k + (pool.workers i).due →
        worker.jobsList.length ≤ k + worker.due) :
    (pool.setWorker i worker).Explained lost := by
  apply forall_setWorker (P := fun j worker => worker.killed = false →
    worker.jobsList.length ≤ pool.calls.countP (DispatchCall.signals j) + worker.due +
      lost.count j) h
  intro halive
  obtain ⟨hbefore, hle⟩ := hi halive
  have hexplained := h i hbefore
  have hafter := hle (pool.calls.countP (DispatchCall.signals i) + lost.count i) (by omega)
  omega

theorem Explained.condSignal (h : pool.Explained lost) (i : Fin n) :
    (pool.setWorker i (pool.workers i).condSignal).Explained lost := by
  apply h.setWorker
  intro halive
  rw [ThreadPoolWorker.condSignal_killed] at halive
  rw [ThreadPoolWorker.condSignal_jobsList]
  exact ⟨halive, fun k hk =>
    hk.trans (Nat.add_le_add_left (ThreadPoolWorker.due_le_condSignal _) _)⟩

/-- A call goes on that does not signal, neither before nor after. -/
theorem Explained.setStage (h : pool.Explained lost) {i : Nat} {call : DispatchCall n α}
    (hcall : pool.calls[i]? = some call) {stage : DispatchStage n}
    (hbefore : ∀ k, DispatchCall.signals k call = false)
    (hafter : ∀ k, DispatchCall.signals k { call with stage } = false) :
    (pool.setStage i call stage).Explained lost := by
  intro k halive
  have hcount := countP_setStage hcall stage (DispatchCall.signals k)
  rw [hafter k, hbefore k] at hcount
  have hexplained := h k halive
  simp only [Bool.false_eq_true, if_false, Nat.add_zero] at hcount
  rw [hcount]
  exact hexplained

theorem Explained.callSteps (h : pool.Explained lost) {i : Nat} {call : DispatchCall n α}
    (hcall : pool.calls[i]? = some call) (hstep : pool.CallSteps i call pool') :
    pool'.Explained (lost ++ pool.lostSignals (.call i)) := by
  have hlost : pool.lostSignals (.call i) = pool.loses call := by
    show pool.calls[i]?.elim [] pool.loses = _
    rw [hcall]
    rfl
  rw [hlost, loses]
  cases hstep with
  | @measures j workerIdx minJobs hstage hj _ =>
    rw [hstage, List.append_nil]
    obtain ⟨chosen, hnext, -⟩ := pool.measure_eq ⟨j, hj⟩ workerIdx minJobs
    rw [hnext]
    apply h.setStage hcall _ fun _ => rfl
    intro k
    rw [DispatchCall.signals, hstage]
  | chooses hstage hj =>
    rw [hstage, List.append_nil]
    apply h.setStage hcall _ fun _ => rfl
    intro k
    rw [DispatchCall.signals, hstage]
  | @pushes workerIdx hstage _ =>
    rw [hstage, List.append_nil]
    intro k
    have hcall' : (pool.pushed workerIdx call.data).calls[i]? = some call := hcall
    have hcount := countP_setStage hcall' (.signal workerIdx) (DispatchCall.signals k)
    have hexplained := h k
    rw [show (pool.pushed workerIdx call.data).calls = pool.calls from rfl] at hcount
    generalize ((pool.pushed workerIdx call.data).setStage i call
      (.signal workerIdx)).calls.countP (DispatchCall.signals k) = signals at hcount ⊢
    rw [setStage_workers, pushed]
    have hbefore : call.signals k = false := by
      rw [DispatchCall.signals, hstage]
    have hafter : DispatchCall.signals k { call with stage := .signal workerIdx } =
      decide (workerIdx = k) := rfl
    rw [hbefore, hafter] at hcount
    simp only [Bool.false_eq_true, if_false, Nat.add_zero, decide_eq_true_eq] at hcount
    by_cases hne : k = workerIdx
    · subst hne
      rw [setWorker_self]
      intro halive
      have hexplained := hexplained halive
      show (linkedListPushBack (pool.workers k).jobsList call.data).length ≤
        signals + (pool.workers k).due + lost.count k
      rw [linkedListPushBack, List.length_append, List.length_singleton]
      rw [if_pos rfl] at hcount
      omega
    · rw [setWorker_of_ne pool hne]
      rw [if_neg (Ne.symm hne)] at hcount
      rw [hcount]
      exact hexplained
  | @signals workerIdx hstage _ =>
    rw [hstage]
    dsimp only
    intro k
    have hcall' : (pool.setWorker workerIdx (pool.workers workerIdx).condSignal).calls[i]? =
      some call := hcall
    have hcount := countP_setStage hcall' .returned (DispatchCall.signals k)
    have hexplained := h k
    have hbefore : call.signals k = decide (workerIdx = k) := by
      rw [DispatchCall.signals, hstage]
    have hafter : DispatchCall.signals k { call with stage := .returned } = false := rfl
    rw [hbefore, hafter] at hcount
    rw [show (pool.setWorker workerIdx (pool.workers workerIdx).condSignal).calls =
      pool.calls from rfl] at hcount
    simp only [Bool.false_eq_true, if_false, Nat.add_zero, decide_eq_true_eq] at hcount
    generalize ((pool.setWorker workerIdx (pool.workers workerIdx).condSignal).setStage i call
      .returned).calls.countP (DispatchCall.signals k) = signals at hcount ⊢
    rw [setStage_workers, List.count_append]
    by_cases hne : k = workerIdx
    · subst hne
      rw [setWorker_self, ThreadPoolWorker.condSignal_killed,
        ThreadPoolWorker.condSignal_jobsList]
      intro halive
      have hexplained := hexplained halive
      rw [if_pos rfl] at hcount
      cases hblocked : (pool.workers k).blocked with
      | true =>
        obtain ⟨hbefore, hafter⟩ := ThreadPoolWorker.condSignal_due hblocked
        omega
      | false =>
        have hdue := ThreadPoolWorker.due_le_condSignal (pool.workers k)
        simp only [halive, Bool.or_self, Bool.false_eq_true, if_false, List.count_singleton_self]
        omega
    · rw [setWorker_of_ne pool hne]
      rw [if_neg (Ne.symm hne), Nat.add_zero] at hcount
      rw [hcount]
      intro halive
      exact (hexplained halive).trans (Nat.add_le_add_left (Nat.le_add_right _ _) _)

theorem Explained.step [NeZero n] (h : pool.Explained lost) {event : PoolEvent n α}
    (hstep : pool.Steps event pool') : pool'.Explained (lost ++ pool.lostSignals event) := by
  cases hstep with
  | @worker i worker hworker =>
    rw [show pool.lostSignals (.worker i) = [] from rfl, List.append_nil]
    obtain ⟨hkilled, hdue⟩ := ThreadPoolWorker.step_due hworker
    apply h.setWorker
    intro halive
    rw [hkilled] at halive
    exact ⟨halive, hdue⟩
  | wakesUp =>
    rw [show pool.lostSignals (.spuriousWakeup _) = [] from rfl, List.append_nil]
    exact h.condSignal _
  | dispatch data =>
    rw [show pool.lostSignals (.dispatch _) = [] from rfl, List.append_nil]
    intro i halive
    have hexplained := h i halive
    rw [List.countP_append]
    dsimp only
    omega
  | call hcall hcalls => exact h.callSteps hcall hcalls
  | destroy hdestroy =>
    rw [show pool.lostSignals .destroy = [] from rfl, List.append_nil]
    cases hdestroy with
    | called | spins | leaves | returns => exact h
    | kills => exact h.setWorker fun halive => by contradiction
    | signals => exact h.condSignal _
    | frees => exact h.setWorker fun halive => ⟨halive, fun k _ => Nat.zero_le _⟩

/-- Data that is not NULL is dispatched, and nobody calls `threadPoolDestroy`. -/
def dispatchesJobs : PoolEvent n α → Bool
  | .dispatch data => data.isSome
  | .destroy => false
  | _ => true

/-- How many jobs the workers were ever given. -/
def given (pool : ThreadPool n α) : Nat :=
  ∑ i, ((pool.workers i).started.length + (pool.workers i).jobsList.length)

theorem given_setWorker (pool : ThreadPool n α) (i : Fin n) (worker : ThreadPoolWorker α) :
    (pool.setWorker i worker).given +
        ((pool.workers i).started.length + (pool.workers i).jobsList.length) =
      pool.given + (worker.started.length + worker.jobsList.length) :=
  sum_update pool.workers (fun worker => worker.started.length + worker.jobsList.length) i worker

theorem given_pushed (pool : ThreadPool n α) (workerIdx : Fin n) (data : Option α) :
    (pool.pushed workerIdx data).given = pool.given + 1 := by
  have hsum := pool.given_setWorker workerIdx { pool.workers workerIdx with
    jobsList := linkedListPushBack (pool.workers workerIdx).jobsList data }
  have hstarted : ThreadPoolWorker.started { pool.workers workerIdx with
    jobsList := linkedListPushBack (pool.workers workerIdx).jobsList data } =
      (pool.workers workerIdx).started := rfl
  rw [hstarted, linkedListPushBack, List.length_append, List.length_singleton] at hsum
  unfold pushed
  dsimp only [linkedListPushBack] at hsum ⊢
  omega

/-- Every call that has pushed has left a job with a worker. -/
structure Counted (pool : ThreadPool n α) : Prop where
  alive : ∀ i, (pool.workers i).killed = false
  nonNull : ∀ i, none ∉ (pool.workers i).jobsList
  data : ∀ call ∈ pool.calls, call.data ≠ none
  calls : pool.calls.length = pool.calls.countP DispatchCall.unpushed + pool.given

theorem Counted.setWorker (h : pool.Counted) {i : Fin n} {worker : ThreadPoolWorker α}
    (halive : worker.killed = false) (hnonNull : none ∉ worker.jobsList)
    (hjobs : worker.started.length + worker.jobsList.length =
      (pool.workers i).started.length + (pool.workers i).jobsList.length) :
    (pool.setWorker i worker).Counted := by
  refine ⟨forall_setWorker (P := fun _ worker => worker.killed = false) h.alive halive,
    forall_setWorker (P := fun _ worker => none ∉ worker.jobsList) h.nonNull hnonNull, h.data, ?_⟩
  have hsum := pool.given_setWorker i worker
  have hcalls : (pool.setWorker i worker).calls = pool.calls := rfl
  rw [hcalls, h.calls]
  omega

theorem Counted.condSignal (h : pool.Counted) (i : Fin n) :
    (pool.setWorker i (pool.workers i).condSignal).Counted := by
  obtain ⟨hrunning, hhandled, hjobs⟩ :=
    ThreadPoolWorker.running_condSignal (pool.workers i)
  apply h.setWorker
  · simpa using h.alive i
  · simpa using h.nonNull i
  · rw [ThreadPoolWorker.started, hrunning, hhandled, hjobs]
    rfl

theorem Counted.worker (h : pool.Counted) {i : Fin n} {worker : ThreadPoolWorker α}
    (hstep : (pool.workers i).step = some worker) : (pool.setWorker i worker).Counted := by
  classical
  have hkeeps := ThreadPoolWorker.step_keeps (h.nonNull i) hstep
  have htaken := congrArg List.length hkeeps.taken
  rw [List.length_append, List.length_append, List.length_map, List.length_map] at htaken
  exact h.setWorker ((ThreadPoolWorker.step_due hstep).1.trans (h.alive i)) hkeeps.nonNull htaken

/-- A call goes on. -/
theorem Counted.setStage (h : pool.Counted) {i : Nat} {call : DispatchCall n α}
    (hcall : pool.calls[i]? = some call) {stage : DispatchStage n}
    (hsame : DispatchCall.unpushed { call with stage } = call.unpushed) :
    (pool.setStage i call stage).Counted := by
  refine ⟨h.alive, h.nonNull, ?_, ?_⟩
  · intro other hmem
    rcases List.mem_or_eq_of_mem_set hmem with hold | rfl
    · exact h.data other hold
    · exact h.data call (List.mem_of_getElem? hcall)
  · have hcount := countP_setStage hcall stage DispatchCall.unpushed
    rw [hsame] at hcount
    rw [Nat.add_right_cancel hcount]
    exact List.length_set.trans h.calls

theorem Counted.callSteps (h : pool.Counted) {i : Nat} {call : DispatchCall n α}
    (hcall : pool.calls[i]? = some call) (hstep : pool.CallSteps i call pool') :
    pool'.Counted := by
  have hdata := h.data call (List.mem_of_getElem? hcall)
  cases hstep with
  | @measures j workerIdx minJobs hstage hj _ =>
    obtain ⟨chosen, hnext, -⟩ := pool.measure_eq ⟨j, hj⟩ workerIdx minJobs
    rw [hnext]
    apply h.setStage hcall
    rw [DispatchCall.unpushed, DispatchCall.unpushed, hstage]
  | chooses hstage hj =>
    apply h.setStage hcall
    rw [DispatchCall.unpushed, DispatchCall.unpushed, hstage]
  | @pushes workerIdx hstage _ =>
    have hcall' : (pool.pushed workerIdx call.data).calls[i]? = some call := hcall
    have hcount := countP_setStage hcall' (.signal workerIdx) DispatchCall.unpushed
    have hbefore : call.unpushed = true := by
      rw [DispatchCall.unpushed, hstage]
    have hafter : DispatchCall.unpushed { call with stage := .signal workerIdx } = false := rfl
    rw [hbefore, hafter] at hcount
    have hcalls := h.calls
    refine ⟨?_, ?_, ?_, ?_⟩
    · exact forall_setWorker (P := fun _ worker => worker.killed = false) h.alive
        (h.alive workerIdx)
    · apply forall_setWorker (P := fun _ worker => none ∉ worker.jobsList) h.nonNull
      show none ∉ (pool.workers workerIdx).jobsList ++ [call.data]
      simp [h.nonNull workerIdx, hdata.symm]
    · intro other hmem
      rcases List.mem_or_eq_of_mem_set hmem with hold | rfl
      · exact h.data other hold
      · exact hdata
    · have hlength : ((pool.pushed workerIdx call.data).setStage i call
          (.signal workerIdx)).calls.length = pool.calls.length := List.length_set
      have hgiven : ((pool.pushed workerIdx call.data).setStage i call
          (.signal workerIdx)).given = pool.given + 1 := pool.given_pushed workerIdx call.data
      have hcalls' : (pool.pushed workerIdx call.data).calls = pool.calls := rfl
      rw [hcalls'] at hcount
      simp only [Bool.false_eq_true, if_false, if_true, Nat.add_zero] at hcount
      rw [hlength, hgiven]
      omega
  | @signals workerIdx hstage _ =>
    have hcall' : (pool.setWorker workerIdx (pool.workers workerIdx).condSignal).calls[i]? =
      some call := hcall
    apply (h.condSignal workerIdx).setStage hcall'
    rw [DispatchCall.unpushed, DispatchCall.unpushed, hstage]

theorem Counted.step [NeZero n] (h : pool.Counted) {event : PoolEvent n α}
    (hjobs : dispatchesJobs event = true) (hstep : pool.Steps event pool') : pool'.Counted := by
  cases hstep with
  | worker hworker => exact h.worker hworker
  | wakesUp => exact h.condSignal _
  | dispatch data =>
    refine ⟨h.alive, h.nonNull, ?_, ?_⟩
    · intro call hmem
      rcases List.mem_append.mp hmem with hold | hnew
      · exact h.data call hold
      · rw [List.mem_singleton.mp hnew]
        intro hnone
        rw [show data = none from hnone] at hjobs
        contradiction
    · have hcalls := h.calls
      rw [List.countP_append, List.length_append, List.length_singleton]
      show pool.calls.length + 1 = pool.calls.countP DispatchCall.unpushed + 1 + pool.given
      omega
  | call hcall hcalls => exact h.callSteps hcall hcalls
  | destroy => contradiction

theorem sum_count (lost : List (Fin n)) : ∑ i, lost.count i = lost.length := by
  have hsum := Multiset.sum_count_eq_card (s := Finset.univ) (m := (lost : Multiset (Fin n)))
    fun i _ => Finset.mem_univ i
  simpa using hsum

theorem explained_of_reachable [NeZero n] {s : ThreadPool n α × List (Fin n)}
    (h : Reachable ((system n α).logged lostSignals) (fun _ => dispatchesJobs) s) :
    s.1.Explained s.2 ∧ s.1.Counted := by
  apply h.invariant
  · refine ⟨fun i _ => Nat.zero_le _, fun _ => rfl, fun _ => List.not_mem_nil,
      fun call hmem => absurd hmem List.not_mem_nil, ?_⟩
    simp [System.logged, system, given, ThreadPoolWorker.new, ThreadPoolWorker.started,
      ThreadPoolWorker.running]
  · rintro ⟨pool, lost⟩ event s' ⟨hexplained, hcounted⟩ hjobs hstep
    obtain ⟨next, hnext, rfl⟩ := Option.map_eq_some_iff.mp hstep
    exact ⟨hexplained.step (steps_of_step hnext), hcounted.step hjobs (steps_of_step hnext)⟩

/-- In every run without `threadPoolDestroy`, when all calls have returned and all
workers sleep, the jobs that were dispatched are handled except for at most as many
as signals were lost. -/
theorem handled_of_rest [NeZero n] {pool : ThreadPool n α} {lost : List (Fin n)}
    (h : Reachable ((system n α).logged lostSignals) (fun _ => dispatchesJobs) (pool, lost))
    (hreturned : ∀ call ∈ pool.calls, call.stage = .returned)
    (hasleep : ∀ i, (pool.workers i).blocked = true) :
    pool.calls.length ≤ ∑ i, (pool.workers i).handled.length + lost.length := by
  have hboth : pool.Explained lost ∧ pool.Counted := explained_of_reachable h
  obtain ⟨hexplained, hcounted⟩ := hboth
  have hpushed : pool.calls.countP DispatchCall.unpushed = 0 := by
    rw [List.countP_eq_zero]
    intro call hmem
    simp [DispatchCall.unpushed, hreturned call hmem]
  have hworker (i : Fin n) : (pool.workers i).started.length + (pool.workers i).jobsList.length ≤
      (pool.workers i).handled.length + lost.count i := by
    have hquiet : pool.calls.countP (DispatchCall.signals i) = 0 := by
      rw [List.countP_eq_zero]
      intro call hmem
      simp [DispatchCall.signals, hreturned call hmem]
    have hdue := (ThreadPoolWorker.condSignal_due (hasleep i)).1
    have hleft := hexplained i (hcounted.alive i)
    have hidle : (pool.workers i).running = [] := by
      have hblocked := hasleep i
      unfold ThreadPoolWorker.blocked at hblocked
      unfold ThreadPoolWorker.running
      split at hblocked
      · rename_i hstage
        rw [hstage]
      · contradiction
    rw [ThreadPoolWorker.started, hidle, List.append_nil]
    omega
  calc pool.calls.length = pool.given := by rw [hcounted.calls, hpushed, Nat.zero_add]
    _ ≤ ∑ i, ((pool.workers i).handled.length + lost.count i) :=
      Finset.sum_le_sum fun i _ => hworker i
    _ = ∑ i, (pool.workers i).handled.length + lost.length := by
      rw [Finset.sum_add_distrib, sum_count]

/-- Two jobs, of which the first comes before the worker waits. -/
def hasty : List (PoolEvent 1 Nat) :=
  [.dispatch (some 7)] ++ List.replicate 4 (.call 0) ++ List.replicate 3 (.worker 0) ++
    [.dispatch (some 8)] ++ List.replicate 4 (.call 1) ++ List.replicate 7 (.worker 0)

theorem handled_of_rest_hasty : ∃ pool lost,
    Reachable ((system 1 Nat).logged lostSignals) (fun _ => dispatchesJobs) (pool, lost) ∧
      (pool.workers 0).handled = [7] ∧ (pool.workers 0).jobsList = [some 8] ∧
      lost = [0] ∧ pool.calls.length ≤ ∑ i, (pool.workers i).handled.length + lost.length := by
  obtain ⟨⟨pool, lost⟩, hreached, hholds⟩ := System.reachable_of_run
    ((system 1 Nat).logged lostSignals) (fun _ => dispatchesJobs) hasty
    (fun s => (s.1.workers 0).handled = [7] && (s.1.workers 0).jobsList = [some 8] &&
      s.2 = [0] && (s.1.workers 0).blocked && s.1.calls.all fun call =>
        match call.stage with
        | .returned => true
        | _ => false)
    (by decide)
  simp only [Bool.and_eq_true, decide_eq_true_eq, List.all_eq_true] at hholds
  obtain ⟨⟨⟨⟨hhandled, hleft⟩, hlost⟩, hblocked⟩, hreturned⟩ := hholds
  refine ⟨pool, lost, hreached, hhandled, hleft, hlost, handled_of_rest hreached ?_ ?_⟩
  · intro call hmem
    have hstage := hreturned call hmem
    split at hstage
    · assumption
    · contradiction
  · intro i
    rw [Subsingleton.elim i 0]
    exact hblocked

end ThreadPool

end Net77
