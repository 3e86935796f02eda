import Mathlib.Data.List.ReduceOption
import Net77.Base.Fairness
import Net77.JobPlaces
import Net77.PoolShutdown
import Net77.PoolSteps

/-! What `threadPoolDestroy` does to the jobs that are left, and that it returns.
It frees a list only after the worker of that list has ended, and with the list
the data that nobody has popped. -/
namespace Net77

open Net77.Base

variable {n : Nat} {α : Type}

/-- Data that is pushed to a list, or freed together with it. -/
inductive Traffic (n : Nat) (α : Type) where
  | pushed (i : Fin n) (data : Option α)
  | freed (i : Fin n) (data : Option α)

namespace Traffic

/-- The data that was pushed to the list of a worker and that is not NULL. -/
def pushedTo (i : Fin n) (log : List (Traffic n α)) : List α :=
  log.filterMap fun entry =>
    match entry with
    | .pushed j data => if j = i then data else none
    | .freed _ _ => none

/-- The data that was freed together with the list of a worker. -/
def freedOf (i : Fin n) (log : List (Traffic n α)) : List α :=
  log.filterMap fun entry =>
    match entry with
    | .pushed _ _ => none
    | .freed j data => if j = i then data else none

variable {i : Fin n} {log more : List (Traffic n α)}

theorem pushedTo_append : pushedTo i (log ++ more) = pushedTo i log ++ pushedTo i more :=
  List.filterMap_append

theorem freedOf_append : freedOf i (log ++ more) = freedOf i log ++ freedOf i more :=
  List.filterMap_append

theorem pushedTo_freed (j : Fin n) (list : List (Option α)) :
    pushedTo i (list.map (.freed j)) = [] := by
  induction list with
  | nil => rfl
  | cons data list ih => exact ih

theorem freedOf_freed (j : Fin n) (list : List (Option α)) :
    freedOf i (list.map (.freed j)) = if j = i then list.reduceOption else [] := by
  unfold freedOf
  rw [List.filterMap_map]
  split
  · rename_i heq
    subst heq
    apply List.filterMap_congr
    intro data _
    simp
  · rename_i hne
    apply List.filterMap_eq_nil_iff.mpr
    intro data _
    simp [hne]

end Traffic

namespace ThreadPoolWorker

variable {worker worker' : ThreadPoolWorker α}

/-- A worker runs the jobs of its list in that order, and skips NULL. -/
theorem Steps.taken (h : worker.Steps worker') :
    worker'.started ++ worker'.jobsList.reduceOption =
      worker.started ++ worker.jobsList.reduceOption := by
  obtain ⟨stage, jobsList, killed, killAck, handled, freed⟩ := worker
  cases h with
  | goes hnext =>
    cases stage with
    | waiting | pop | run | ack | ended => contradiction
    | test =>
      cases Option.some.inj hnext
      cases killed <;> rfl
    | lock | wait | woken | unlock =>
      cases Option.some.inj hnext
      rfl
  | popsNothing hstage hlist | popsNull hstage hlist =>
    subst hstage
    subst hlist
    rfl
  | starts hstage hlist =>
    subst hstage
    subst hlist
    simp [started, running, List.reduceOption_cons_of_some]
  | finishes hstage =>
    subst hstage
    simp [started, running]
  | acknowledges hstage =>
    subst hstage
    rfl

/-- A worker has acknowledged its end, and its list may be gone only then. -/
structure Settled (worker : ThreadPoolWorker α) : Prop where
  ended : worker.killAck = true ↔ worker.stage = .ended
  freed : worker.freed = true → worker.killAck = true ∧ worker.jobsList = []

theorem settled_new : (new : ThreadPoolWorker α).Settled :=
  ⟨by simp [new], fun h => by contradiction⟩

/-- A worker that can take a step has not acknowledged anything. -/
theorem Settled.live (h : worker.Settled) (hstep : worker.step = some worker') :
    worker.killAck = false ∧ worker.freed = false := by
  have hack : worker.killAck = false := by
    apply Bool.eq_false_iff.mpr
    intro hack
    rw [step, h.ended.mp hack] at hstep
    contradiction
  refine ⟨hack, Bool.eq_false_iff.mpr fun hfreed => ?_⟩
  rw [(h.freed hfreed).1] at hack
  contradiction

theorem Settled.step (h : worker.Settled) (hstep : worker.step = some worker') :
    worker'.Settled ∧ worker'.freed = false := by
  obtain ⟨hack, hfreed⟩ := h.live hstep
  obtain ⟨stage, jobsList, killed, killAck, handled, freed⟩ := worker
  cases hack
  cases hfreed
  cases steps_of_step hstep with
  | goes hnext =>
    cases stage with
    | waiting | pop | run | ack | ended => contradiction
    | test =>
      cases Option.some.inj hnext
      cases killed <;> exact ⟨⟨by simp, fun h => by contradiction⟩, rfl⟩
    | lock | wait | woken | unlock =>
      cases Option.some.inj hnext
      exact ⟨⟨by simp, fun h => by contradiction⟩, rfl⟩
  | popsNothing | popsNull | starts | finishes | acknowledges =>
    exact ⟨⟨by simp, fun h => by contradiction⟩, rfl⟩

theorem Settled.condSignal (h : worker.Settled) : worker.condSignal.Settled := by
  unfold ThreadPoolWorker.condSignal
  split
  · rename_i hstage
    refine ⟨?_, h.freed⟩
    have hack := h.ended
    rw [hstage] at hack
    simpa using hack
  · exact h

end ThreadPoolWorker

namespace ThreadPool

variable {pool pool' : ThreadPool n α}

/-- What an event does to the data in the lists. -/
def traffic (pool : ThreadPool n α) : PoolEvent n α → List (Traffic n α)
  | .call i => (pool.pushes (.call i)).map fun entry => .pushed entry.1 entry.2
  | .destroy =>
    match pool.destroy with
    | .free i => (pool.workers i).jobsList.map (.freed i)
    | _ => []
  | _ => []

end ThreadPool

/-- `threadPoolDestroy` is through with this worker. -/
def DestroyStage.past (destroy : DestroyStage n) (i : Fin n) : Prop :=
  match destroy with
  | .notCalled => False
  | .kill j => i.val < j
  | .signal j | .spin j | .free j => i < j
  | .returned => True

/-- What has become of the data that was pushed to a worker. -/
structure JobsDisposed (destroy : DestroyStage n) (log : List (Traffic n α)) (i : Fin n)
    (worker : ThreadPoolWorker α) : Prop where
  settled : worker.Settled
  past : destroy.past i → worker.freed = true
  acked : destroy = .free i → worker.killAck = true
  unfreed : worker.freed = false → Traffic.freedOf i log = []
  taken : Traffic.pushedTo i log =
    worker.started ++ (Traffic.freedOf i log ++ worker.jobsList.reduceOption)

namespace JobsDisposed

variable {destroy destroy' : DestroyStage n} {log : List (Traffic n α)} {i : Fin n}
  {worker worker' : ThreadPoolWorker α}

theorem step (h : JobsDisposed destroy log i worker) (hstep : worker.step = some worker') :
    JobsDisposed destroy log i worker' := by
  obtain ⟨hack, hlive⟩ := h.settled.live hstep
  obtain ⟨hsettled, -⟩ := h.settled.step hstep
  refine ⟨hsettled, ?_, ?_, fun _ => h.unfreed hlive, ?_⟩
  · intro hpast
    rw [h.past hpast] at hlive
    contradiction
  · intro hfree
    rw [h.acked hfree] at hack
    contradiction
  · rw [h.taken, h.unfreed hlive, List.nil_append, List.nil_append]
    exact (ThreadPoolWorker.steps_of_step hstep).taken.symm

theorem condSignal (h : JobsDisposed destroy log i worker) :
    JobsDisposed destroy log i worker.condSignal := by
  obtain ⟨hrunning, hhandled, hjobs⟩ := ThreadPoolWorker.running_condSignal worker
  refine ⟨h.settled.condSignal, ?_, ?_, ?_, ?_⟩
  · simpa using h.past
  · simpa using h.acked
  · simpa using h.unfreed
  · rw [ThreadPoolWorker.started, hrunning, hhandled, hjobs]
    exact h.taken

/-- `threadPoolDestroy` has gone on. -/
theorem moves (h : JobsDisposed destroy log i worker) (hpast : destroy'.past i → destroy.past i)
    (hfree : destroy' = .free i → worker.killAck = true) : JobsDisposed destroy' log i worker :=
  ⟨h.settled, fun hp => h.past (hpast hp), hfree, h.unfreed, h.taken⟩

theorem push (h : JobsDisposed destroy log i worker) (hlive : worker.freed = false)
    (data : Option α) : JobsDisposed destroy (log ++ [.pushed i data]) i
      { worker with jobsList := linkedListPushBack worker.jobsList data } := by
  have hsettled : ThreadPoolWorker.Settled
      { worker with jobsList := linkedListPushBack worker.jobsList data } := by
    refine ⟨h.settled.ended, fun hfreed => ?_⟩
    rw [show worker.freed = true from hfreed] at hlive
    contradiction
  have hfreed : Traffic.freedOf i (log ++ [.pushed i data]) = [] := by
    rw [Traffic.freedOf_append, h.unfreed hlive]
    rfl
  refine ⟨hsettled, h.past, h.acked, fun _ => hfreed, ?_⟩
  rw [hfreed, Traffic.pushedTo_append, h.taken, h.unfreed hlive]
  cases data with
  | none => simp [Traffic.pushedTo, linkedListPushBack, ThreadPoolWorker.started,
      ThreadPoolWorker.running, List.reduceOption_append]
  | some data => simp [Traffic.pushedTo, linkedListPushBack, ThreadPoolWorker.started,
      ThreadPoolWorker.running, List.reduceOption_append]

/-- The log goes on about another worker. -/
theorem elsewhere (h : JobsDisposed destroy log i worker) {more : List (Traffic n α)}
    (hpushed : Traffic.pushedTo i more = []) (hfreed : Traffic.freedOf i more = []) :
    JobsDisposed destroy (log ++ more) i worker := by
  refine ⟨h.settled, h.past, h.acked, ?_, ?_⟩
  · intro hlive
    rw [Traffic.freedOf_append, h.unfreed hlive, hfreed]
    rfl
  · rw [Traffic.pushedTo_append, Traffic.freedOf_append, hpushed, hfreed, List.append_nil,
      List.append_nil, h.taken]

theorem free (h : JobsDisposed (.free i) log i worker) :
    JobsDisposed (.kill (i.val + 1)) (log ++ worker.jobsList.map (.freed i)) i
      { worker with jobsList := [], freed := true } := by
  refine ⟨⟨h.settled.ended, fun _ => ⟨h.acked rfl, rfl⟩⟩, fun _ => rfl, fun h => by contradiction,
    fun h => by contradiction, ?_⟩
  rw [Traffic.pushedTo_append, Traffic.pushedTo_freed, Traffic.freedOf_append,
    Traffic.freedOf_freed, if_pos rfl, List.append_nil, h.taken]
  simp [ThreadPoolWorker.started, ThreadPoolWorker.running]

end JobsDisposed

namespace ThreadPool

variable {pool pool' : ThreadPool n α} {log : List (Traffic n α)}

/-- What has become of all data that was ever pushed. -/
def AllDisposed (pool : ThreadPool n α) (log : List (Traffic n α)) : Prop :=
  ∀ i, JobsDisposed pool.destroy log i (pool.workers i)

theorem AllDisposed.callSteps (h : pool.AllDisposed log) {i : Nat} {call : DispatchCall n α}
    (hcall : pool.calls[i]? = some call) (hstep : pool.CallSteps i call pool') :
    pool'.AllDisposed (log ++ pool.traffic (.call i)) := by
  have htraffic : pool.traffic (.call i) = call.pushes.map fun entry => .pushed entry.1 entry.2 := by
    unfold traffic pushes
    dsimp only
    rw [hcall]
    rfl
  rw [htraffic]
  unfold DispatchCall.pushes
  cases hstep with
  | measures hstage hj _ | chooses hstage hj =>
    rw [hstage, List.map_nil, List.append_nil]
    exact h
  | @pushes workerIdx hstage hlive =>
    rw [hstage, List.map_singleton]
    have hworker := (h workerIdx).push hlive call.data
    intro j
    by_cases hne : j = workerIdx
    · subst hne
      rw [setStage_workers, pushed, setWorker_self]
      exact hworker
    · rw [setStage_workers, pushed, setWorker_of_ne pool hne]
      apply (h j).elsewhere
      · simp [Traffic.pushedTo, Ne.symm hne]
      · rfl
  | @signals workerIdx hstage _ =>
    rw [hstage, List.map_nil, List.append_nil]
    exact forall_setWorker h (h workerIdx).condSignal

theorem AllDisposed.destroySteps (h : pool.AllDisposed log) (hstep : pool.DestroySteps pool') :
    pool'.AllDisposed (log ++ pool.traffic .destroy) := by
  unfold traffic
  cases hstep with
  | called hstage =>
    rw [hstage, List.append_nil]
    exact fun j => (h j).moves (fun hpast => absurd hpast (Nat.not_lt_zero _)) (by simp)
  | @kills i hstage hi =>
    rw [hstage, List.append_nil]
    have hkilled : JobsDisposed (.kill i) log ⟨i, hi⟩
        { pool.workers ⟨i, hi⟩ with killed := true } := by
      have hworker := h ⟨i, hi⟩
      rw [hstage] at hworker
      exact ⟨⟨hworker.settled.ended, hworker.settled.freed⟩, hworker.past, hworker.acked,
        hworker.unfreed, hworker.taken⟩
    have hall := forall_setWorker (P := fun j worker => JobsDisposed (.kill i) log j worker)
      (fun j => hstage ▸ h j) hkilled
    exact fun j => (hall j).moves (fun hpast => hpast) (by simp)
  | @signals i hstage =>
    rw [hstage, List.append_nil]
    have hall := forall_setWorker h (h i).condSignal
    exact fun j => (hall j).moves (fun hpast => hstage ▸ hpast) (by simp)
  | spins hstage hack =>
    rw [hstage, List.append_nil]
    exact h
  | @leaves i hstage hack =>
    rw [hstage, List.append_nil]
    refine fun j => (h j).moves (fun hpast => hstage ▸ hpast) ?_
    intro hfree
    cases hfree
    exact hack
  | @frees i hstage =>
    rw [hstage]
    have hworker := h i
    rw [hstage] at hworker
    intro j
    by_cases hne : j = i
    · subst hne
      rw [setWorker_self]
      exact hworker.free
    · rw [setWorker_of_ne pool hne]
      have hother : JobsDisposed (.kill (i.val + 1)) log j (pool.workers j) := by
        refine (h j).moves (fun hpast => ?_) (by simp)
        rw [hstage]
        have hlt : j.val < i.val + 1 := hpast
        have hnot : j.val ≠ i.val := fun heq => hne (Fin.ext heq)
        show j.val < i.val
        omega
      apply hother.elsewhere (Traffic.pushedTo_freed i _)
      rw [Traffic.freedOf_freed, if_neg (Ne.symm hne)]
  | @returns i hstage hi =>
    rw [hstage, List.append_nil]
    refine fun j => (h j).moves (fun _ => ?_) (by simp)
    rw [hstage]
    exact j.isLt.trans_le hi

theorem AllDisposed.step [NeZero n] {event : PoolEvent n α} (h : pool.AllDisposed log)
    (hstep : pool.Steps event pool') : pool'.AllDisposed (log ++ pool.traffic event) := by
  cases hstep with
  | @worker i worker hworker =>
    rw [show pool.traffic (.worker i) = [] from rfl, List.append_nil]
    exact forall_setWorker h ((h i).step hworker)
  | @wakesUp i hblocked =>
    rw [show pool.traffic (.spuriousWakeup i) = [] from rfl, List.append_nil]
    exact forall_setWorker h (h i).condSignal
  | dispatch data =>
    rw [show pool.traffic (.dispatch data) = [] from rfl, List.append_nil]
    exact h
  | call hcall hcalls => exact h.callSteps hcall hcalls
  | destroy hdestroy => exact h.destroySteps hdestroy

theorem allDisposed_init [NeZero n] : (system n α).init.AllDisposed [] :=
  fun _ => ⟨ThreadPoolWorker.settled_new, fun hpast => absurd hpast id,
    fun hfree => by contradiction, fun _ => rfl, rfl⟩

theorem allDisposed_of_reachable [NeZero n] {s : ThreadPool n α × List (Traffic n α)}
    (h : Reachable ((system n α).logged traffic) (fun _ _ => true) s) : s.1.AllDisposed s.2 := by
  apply h.invariant
  · exact allDisposed_init
  · rintro ⟨pool, log⟩ event s' hdisposed _ hstep
    obtain ⟨next, hnext, rfl⟩ := Option.map_eq_some_iff.mp hstep
    exact hdisposed.step (steps_of_step hnext)

/-- One job is run and one is freed. -/
def cutShort : List (PoolEvent 1 Nat) :=
  List.replicate 3 (.worker 0) ++ [.dispatch (some 7)] ++ List.replicate 4 (.call 0) ++
    [.dispatch (some 8)] ++ List.replicate 4 (.call 1) ++ List.replicate 3 .destroy ++
      List.replicate 6 (.worker 0) ++ List.replicate 3 .destroy

end ThreadPool

end Net77
