import Net77.Base.Fairness
import Net77.JobPlaces
import Net77.LostWakeups
import Net77.PoolBalance
import Net77.PoolShutdown

/-! Every job is run in the end, when the threads are scheduled fairly and no
signal is lost. A worker gets nearer to its next job with every step, and while
it sleeps, a call is about to wake it. -/
namespace Net77

open Net77.Base

variable {n : Nat} {α : Type}

namespace ThreadPoolWorker

variable {worker worker' : ThreadPoolWorker α}

/-- Every job that the worker was ever given, in that order. -/
def jobs (worker : ThreadPoolWorker α) : List (Option α) :=
  worker.started.map some ++ worker.jobsList

/-- How many steps the worker is away from taking a job. -/
def distance (worker : ThreadPoolWorker α) : Nat :=
  match worker.stage with
  | .pop => 0
  | .woken => 1
  | .waiting => 2
  | .wait => 3
  | .lock => 4
  | .test => 5
  | .unlock => 6
  | .run _ => 7
  | .ack | .ended => 8

/-- Nobody has asked the worker to end. -/
structure Alive (worker : ThreadPoolWorker α) : Prop where
  killed : worker.killed = false
  freed : worker.freed = false
  stays : worker.distance < 8
  nonNull : none ∉ worker.jobsList

theorem alive_new : (new : ThreadPoolWorker α).Alive :=
  ⟨rfl, rfl, by simp [new, distance], List.not_mem_nil⟩

/-- Some jobs are left, and this many were started. -/
structure Owes (worker : ThreadPoolWorker α) (m : Nat) : Prop where
  started : worker.started.length = m
  left : worker.jobsList ≠ []

/-- A step of the worker loses no job, and it starts one or leads towards the next. -/
theorem Steps.alive (h : worker.Steps worker') (halive : worker.Alive) :
    worker'.Alive ∧ worker'.jobs = worker.jobs ∧
      ∀ m, worker.Owes m →
        m < worker'.started.length ∨ worker'.Owes m ∧ worker'.distance < worker.distance := by
  obtain ⟨stage, jobsList, killed, killAck, handled, freed⟩ := worker
  obtain ⟨rfl, rfl, hstays, hnonNull⟩ := halive
  cases h with
  | goes hnext =>
    cases stage with
    | waiting | pop | run | ack | ended => contradiction
    | test | lock | wait | woken | unlock =>
      cases Option.some.inj hnext
      exact ⟨⟨rfl, rfl, by simp [distance], hnonNull⟩, rfl,
        fun m howes => .inr ⟨⟨howes.started, howes.left⟩, by simp [distance]⟩⟩
  | popsNothing hstage hempty =>
    subst hstage
    subst hempty
    exact ⟨⟨rfl, rfl, by simp [distance], hnonNull⟩, rfl, fun m howes => absurd rfl howes.left⟩
  | popsNull hstage hnull =>
    exfalso
    apply hnonNull
    rw [hnull]
    exact List.mem_cons_self ..
  | @starts data rest hstage hlist =>
    subst hstage
    subst hlist
    refine ⟨⟨rfl, rfl, by simp [distance], fun h => hnonNull (List.mem_cons_of_mem _ h)⟩,
      ?_, ?_⟩
    · simp [jobs, started, running]
    · intro m howes
      left
      rw [← howes.started]
      simp [started, running]
  | @finishes data hstage =>
    subst hstage
    refine ⟨⟨rfl, rfl, by simp [distance], hnonNull⟩, ?_, ?_⟩
    · simp [jobs, started, running]
    · intro m howes
      right
      refine ⟨⟨?_, howes.left⟩, by simp [distance]⟩
      rw [← howes.started]
      simp [started, running]
  | acknowledges hstage =>
    subst hstage
    exact absurd hstays (by simp [distance])

/-- What happens to a worker keeps it alive, and brings it nearer to its next job
or leaves it where it is. New jobs come last. -/
theorem Moves.alive (h : worker.Moves worker') (halive : worker.Alive)
    (hnonNull : none ∉ worker'.jobsList) :
    worker'.Alive ∧ worker.jobs <+: worker'.jobs ∧
      ∀ m, worker.Owes m →
        m < worker'.started.length ∨ worker'.Owes m ∧ worker'.distance ≤ worker.distance := by
  cases h with
  | stays => exact ⟨halive, List.prefix_refl _, fun m howes => .inr ⟨howes, Nat.le_refl _⟩⟩
  | steps hstep =>
    obtain ⟨halive', hjobs, hprogress⟩ := (steps_of_step hstep).alive halive
    refine ⟨halive', by rw [hjobs], ?_⟩
    intro m howes
    rcases hprogress m howes with hdone | ⟨howes', hless⟩
    · exact .inl hdone
    · exact .inr ⟨howes', hless.le⟩
  | signalled =>
    obtain ⟨stage, jobsList, killed, killAck, handled, freed⟩ := worker
    cases stage with
    | waiting =>
      have halive' : (condSignal ⟨.waiting, jobsList, killed, killAck, handled, freed⟩).Alive :=
        ⟨halive.killed, halive.freed, by simp [condSignal, distance], halive.nonNull⟩
      exact ⟨halive', List.prefix_refl _, fun m howes =>
        .inr ⟨⟨howes.started, howes.left⟩, by simp [condSignal, distance]⟩⟩
    | _ => exact ⟨halive, List.prefix_refl _, fun m howes => .inr ⟨howes, Nat.le_refl _⟩⟩
  | pushed data =>
    refine ⟨⟨halive.killed, halive.freed, halive.stays, hnonNull⟩, ?_, ?_⟩
    · show worker.jobs <+: worker.started.map some ++ (worker.jobsList ++ [data])
      rw [← List.append_assoc]
      exact List.prefix_append _ _
    · intro m howes
      refine .inr ⟨⟨howes.started, ?_⟩, Nat.le_refl _⟩
      exact List.append_ne_nil_of_left_ne_nil howes.left [data]

theorem stage_of_running {d : α} (h : d ∈ worker.running) : worker.stage = .run d := by
  unfold running at h
  split at h
  · rename_i data hstage
    rw [hstage, List.mem_singleton.mp h]
  · exact absurd h List.not_mem_nil

/-- The handler returns. -/
theorem Steps.handled {d : α} (h : worker.Steps worker') (hruns : d ∈ worker.running) :
    d ∈ worker'.handled := by
  have hrun := stage_of_running hruns
  cases h with
  | goes hnext =>
    unfold nextStage at hnext
    rw [hrun] at hnext
    contradiction
  | popsNothing hstage | popsNull hstage | starts hstage | acknowledges hstage =>
    rw [hrun] at hstage
    contradiction
  | finishes hstage =>
    rw [hrun] at hstage
    cases hstage
    exact List.mem_append_right _ (List.mem_singleton_self _)

theorem Moves.running {d : α} (h : worker.Moves worker') (hruns : d ∈ worker.running) :
    d ∈ worker'.running ∨ d ∈ worker'.handled := by
  cases h with
  | stays => exact .inl hruns
  | steps hstep => exact .inr ((steps_of_step hstep).handled hruns)
  | signalled =>
    left
    rw [(running_condSignal worker).1]
    exact hruns
  | pushed data => exact .inl hruns

end ThreadPoolWorker

namespace ThreadPool

variable {pool pool' : ThreadPool n α}

/-- Jobs are dispatched and their signals arrive, and nobody calls `threadPoolDestroy`. -/
def worksOn (pool : ThreadPool n α) (event : PoolEvent n α) : Bool :=
  pool.signalArrives event &&
    match event with
    | .dispatch data => data.isSome
    | .destroy => false
    | _ => true

/-- Every worker is alive, and every job that is pushed is with one of them. -/
structure Working (pool : ThreadPool n α) : Prop where
  alive : ∀ i, (pool.workers i).Alive
  data : ∀ call ∈ pool.calls, call.data ≠ none
  placed : ∀ call ∈ pool.calls, call.unpushed = false →
    ∃ i, call.data ∈ (pool.workers i).jobs

theorem Working.setWorker (h : pool.Working) {i : Fin n} {worker : ThreadPoolWorker α}
    (halive : worker.Alive) (hjobs : (pool.workers i).jobs <+: worker.jobs) :
    (pool.setWorker i worker).Working := by
  refine ⟨?_, h.data, ?_⟩
  · intro j
    by_cases hne : j = i
    · subst hne
      rw [setWorker_self]
      exact halive
    · rw [setWorker_of_ne pool hne]
      exact h.alive j
  · intro call hmem hpushed
    obtain ⟨j, hj⟩ := h.placed call hmem hpushed
    refine ⟨j, ?_⟩
    by_cases hne : j = i
    · subst hne
      rw [setWorker_self]
      exact hjobs.subset hj
    · rw [setWorker_of_ne pool hne]
      exact hj

theorem Working.condSignal (h : pool.Working) (i : Fin n) :
    (pool.setWorker i (pool.workers i).condSignal).Working := by
  have hmoves : (pool.workers i).Moves (pool.workers i).condSignal := .signalled
  have hnonNull : none ∉ (pool.workers i).condSignal.jobsList := by
    simp [(h.alive i).nonNull]
  obtain ⟨halive, hjobs, -⟩ := hmoves.alive (h.alive i) hnonNull
  exact h.setWorker halive hjobs

theorem Working.setStage (h : pool.Working) {i : Nat} {call : DispatchCall n α}
    (hcall : pool.calls[i]? = some call) {stage : DispatchStage n}
    (hplaced : DispatchCall.unpushed { call with stage } = false →
      ∃ i, call.data ∈ (pool.workers i).jobs) : (pool.setStage i call stage).Working := by
  refine ⟨h.alive, ?_, ?_⟩
  · intro other hmem
    rcases List.mem_or_eq_of_mem_set hmem with hold | rfl
    · exact h.data other hold
    · exact h.data call (List.mem_of_getElem? hcall)
  · intro other hmem hpushed
    rcases List.mem_or_eq_of_mem_set hmem with hold | rfl
    · exact h.placed other hold hpushed
    · exact hplaced hpushed

theorem Working.callSteps (h : pool.Working) {i : Nat} {call : DispatchCall n α}
    (hcall : pool.calls[i]? = some call) (hstep : pool.CallSteps i call pool') :
    pool'.Working := by
  have hmem := List.mem_of_getElem? hcall
  cases hstep with
  | @measures j workerIdx minJobs hstage hj _ =>
    apply h.setStage hcall
    obtain ⟨chosen, hnext, -⟩ := pool.measure_eq ⟨j, hj⟩ workerIdx minJobs
    rw [hnext]
    intro hpushed
    contradiction
  | chooses hstage hj =>
    apply h.setStage hcall
    intro hpushed
    contradiction
  | @pushes workerIdx hstage _ =>
    have hnonNull : none ∉ (pool.workers workerIdx).jobsList ++ [call.data] := by
      simp [(h.alive workerIdx).nonNull, (h.data call hmem).symm]
    have hmoves : (pool.workers workerIdx).Moves { pool.workers workerIdx with
        jobsList := linkedListPushBack (pool.workers workerIdx).jobsList call.data } :=
      .pushed call.data
    obtain ⟨halive, hjobs, -⟩ := hmoves.alive (h.alive workerIdx) hnonNull
    apply (h.setWorker halive hjobs).setStage hcall
    intro _
    refine ⟨workerIdx, ?_⟩
    rw [setWorker_self]
    exact List.mem_append_right _ (List.mem_append_right _ (List.mem_singleton_self _))
  | @signals workerIdx hstage _ =>
    apply (h.condSignal workerIdx).setStage hcall
    intro _
    have hpushed : call.unpushed = false := by
      rw [DispatchCall.unpushed, hstage]
    exact (h.condSignal workerIdx).placed call hmem hpushed

theorem Working.step [NeZero n] (h : pool.Working) {event : PoolEvent n α}
    (hworks : pool.worksOn event = true) (hstep : pool.Steps event pool') : pool'.Working := by
  cases hstep with
  | @worker i worker hworker =>
    obtain ⟨halive, hjobs, -⟩ := (ThreadPoolWorker.steps_of_step hworker).alive (h.alive i)
    exact h.setWorker halive (by rw [hjobs])
  | wakesUp => exact h.condSignal _
  | dispatch data =>
    refine ⟨h.alive, ?_, ?_⟩
    · intro call hmem
      rcases List.mem_append.mp hmem with hold | hnew
      · exact h.data call hold
      · rw [List.mem_singleton.mp hnew]
        intro hnone
        have hnone : data = none := hnone
        rw [hnone] at hworks
        contradiction
    · intro call hmem hpushed
      rcases List.mem_append.mp hmem with hold | hnew
      · exact h.placed call hold hpushed
      · rw [List.mem_singleton.mp hnew] at hpushed
        contradiction
  | call hcall hcalls => exact h.callSteps hcall hcalls
  | destroy => simp [worksOn] at hworks

section Runs

variable [NeZero n]

theorem working_of_reachable (h : Reachable (system n α) worksOn pool) : pool.Working := by
  apply h.invariant
  · exact ⟨fun i => ThreadPoolWorker.alive_new, fun call hmem => absurd hmem List.not_mem_nil,
      fun call hmem => absurd hmem List.not_mem_nil⟩
  · intro s e s' hworking hworks hstep
    exact hworking.step hworks (steps_of_step hstep)

theorem expected_of_reachable (h : Reachable (system n α) worksOn pool) : pool.Expected := by
  apply h.invariant
  · intro i _
    exact Nat.zero_le _
  · intro s e s' hexpected hworks hstep
    exact hexpected.step (Bool.and_eq_true_iff.mp hworks).1 hstep

theorem moves_of_worksOn {event : PoolEvent n α} (hworks : pool.worksOn event = true)
    (hstep : pool.step event = some pool') (i : Fin n) :
    (pool.workers i).Moves (pool'.workers i) := by
  apply (step_moves _ hstep).2
  rintro rfl
  simp [worksOn] at hworks

/-- What a step of a run does to a worker. -/
theorem alive_of_step (h : Reachable (system n α) worksOn pool) {event : PoolEvent n α}
    (hworks : pool.worksOn event = true) (hstep : pool.step event = some pool') (i : Fin n) :
    (pool.workers i).jobs <+: (pool'.workers i).jobs ∧
      ∀ m, (pool.workers i).Owes m → m < (pool'.workers i).started.length ∨
        (pool'.workers i).Owes m ∧ (pool'.workers i).distance ≤ (pool.workers i).distance := by
  have hworking := working_of_reachable h
  have hnonNull := (hworking.step hworks (steps_of_step hstep)).alive i |>.nonNull
  exact ((moves_of_worksOn hworks hstep i).alive (hworking.alive i) hnonNull).2

/-- A call stays where it is until it takes a step itself. -/
theorem call_of_step {event : PoolEvent n α} {c : Nat} {call : DispatchCall n α}
    (hstep : pool.step event = some pool') (hcall : pool.calls[c]? = some call)
    (hother : event ≠ .call c) : pool'.calls[c]? = some call := by
  have hset (i : Nat) (hne : i ≠ c) (other : DispatchCall n α) :
      (pool.calls.set i other)[c]? = some call := by
    rw [List.getElem?_set_ne hne, hcall]
  cases steps_of_step hstep with
  | worker | wakesUp => exact hcall
  | dispatch data =>
    dsimp only
    rw [List.getElem?_append_left (List.getElem?_eq_some_iff.mp hcall).1, hcall]
  | @call i other _ hi hcalls =>
    have hne : i ≠ c := fun heq => hother (by rw [heq])
    cases hcalls <;> exact hset i hne _
  | destroy h => rw [h.shrinks.calls, hcall]

theorem step_call {c : Nat} {call : DispatchCall n α} (hcall : pool.calls[c]? = some call) :
    pool.step (.call c) = pool.stepCall c call := by
  unfold step
  dsimp only
  rw [hcall]

/-- The signal of a call. -/
theorem signal_of_step {c : Nat} {call : DispatchCall n α} {i : Fin n}
    (hcall : pool.calls[c]? = some call) (hsignals : call.signals i = true)
    (hstep : pool.step (.call c) = some pool') :
    pool'.workers i = (pool.workers i).condSignal := by
  unfold DispatchCall.signals at hsignals
  cases steps_of_step hstep with
  | @call _ same _ hsame hcalls =>
    cases Option.some.inj (hcall.symm.trans hsame)
    cases hcalls with
    | measures hstage | chooses hstage | pushes hstage =>
      rw [hstage] at hsignals
      contradiction
    | signals hstage _ =>
      rw [hstage] at hsignals
      cases of_decide_eq_true hsignals
      exact setWorker_self pool i _

/-- A signal wakes a worker that sleeps. -/
theorem distance_condSignal {worker : ThreadPoolWorker α} (h : worker.distance = 2) :
    worker.condSignal.distance = 1 := by
  obtain ⟨stage, jobsList, killed, killAck, handled, freed⟩ := worker
  cases stage with
  | waiting => rfl
  | _ => simp [ThreadPoolWorker.distance] at h

variable {run : Execution (system n α) worksOn}

/-- The worker goes on until it sleeps or has taken a job. -/
theorem approaches_awake {i : Fin n}
    (hworker : run.Fair (· = .worker i) fun pool => pool.step (.worker i) ≠ none) {m r : Nat}
    (hr : r ≠ 2) :
    run.LeadsTo (fun pool => (pool.workers i).Owes m ∧ (pool.workers i).distance = r)
      fun pool => m < (pool.workers i).started.length ∨
        (pool.workers i).Owes m ∧ (pool.workers i).distance < r := by
  apply Execution.leadsTo_of_fair hworker
  · rintro pool hreached ⟨howes, hdistance⟩ hnone
    have hstays := ((working_of_reachable hreached).alive i).stays
    have hnone : (pool.workers i).step = none := Option.map_eq_none_iff.mp hnone
    unfold ThreadPoolWorker.distance at hdistance hstays
    unfold ThreadPoolWorker.step at hnone
    cases hstage : (pool.workers i).stage with
    | waiting =>
      rw [hstage] at hdistance
      exact hr hdistance.symm
    | ended =>
      rw [hstage] at hstays
      exact absurd hstays (lt_irrefl 8)
    | pop =>
      rw [hstage] at hnone
      dsimp only at hnone
      split at hnone <;> contradiction
    | _ =>
      rw [hstage] at hnone
      contradiction
  · rintro pool event pool' hreached ⟨howes, rfl⟩ hworks hstep
    rcases (alive_of_step hreached hworks hstep i).2 m howes with hdone | ⟨howes', hle⟩
    · exact .inr (.inl hdone)
    · rcases Nat.lt_or_eq_of_le hle with hless | hsame
      · exact .inr (.inr ⟨howes', hless⟩)
      · exact .inl ⟨howes', hsame⟩
  · rintro pool event pool' hreached ⟨howes, rfl⟩ hworks rfl hstep
    obtain ⟨worker, hworker, rfl⟩ := Option.map_eq_some_iff.mp hstep
    have halive := (working_of_reachable hreached).alive i
    rw [setWorker_self]
    exact ((ThreadPoolWorker.steps_of_step hworker).alive halive).2.2 m howes

/-- A worker that sleeps with jobs is woken, because a call has still to signal. -/
theorem approaches_asleep
    (hcalls : ∀ c, run.Fair (· = .call c) fun pool => pool.step (.call c) ≠ none) (i : Fin n)
    (m : Nat) :
    run.LeadsTo (fun pool => (pool.workers i).Owes m ∧ (pool.workers i).distance = 2)
      fun pool => m < (pool.workers i).started.length ∨
        (pool.workers i).Owes m ∧ (pool.workers i).distance < 2 := by
  rintro k ⟨howes, hdistance⟩
  have hreached := run.reachable k
  have hworking := working_of_reachable hreached
  have hdue : ((run.state k).workers i).due = 0 := by
    unfold ThreadPoolWorker.distance at hdistance
    unfold ThreadPoolWorker.due
    split at hdistance <;> simp_all
  have hexpected := expected_of_reachable hreached i (hworking.alive i).killed
  have hpos := List.length_pos_iff.mpr howes.left
  obtain ⟨call, hmem, hsignals⟩ := List.countP_pos_iff.mp
    (by omega : 0 < (run.state k).calls.countP (DispatchCall.signals i))
  obtain ⟨c, hcall⟩ := List.mem_iff_getElem?.mp hmem
  have hleads : run.LeadsTo (fun pool => ((pool.workers i).Owes m ∧
      (pool.workers i).distance = 2) ∧ pool.calls[c]? = some call)
      (fun pool => m < (pool.workers i).started.length ∨
        (pool.workers i).Owes m ∧ (pool.workers i).distance < 2) := by
    apply Execution.leadsTo_of_fair (hcalls c)
    · rintro pool hreached ⟨-, hcall⟩ hnone
      have hfreed := ((working_of_reachable hreached).alive i).freed
      rw [step_call hcall] at hnone
      unfold DispatchCall.signals at hsignals
      unfold stepCall at hnone
      cases hstage : call.stage with
      | signal workerIdx =>
        rw [hstage] at hsignals hnone
        cases of_decide_eq_true hsignals
        simp [hfreed] at hnone
      | _ =>
        rw [hstage] at hsignals
        contradiction
    · rintro pool event pool' hreached ⟨⟨howes, hdistance⟩, hcall⟩ hworks hstep
      have hkept := (alive_of_step hreached hworks hstep i).2 m howes
      by_cases hown : event = .call c
      · subst hown
        rw [signal_of_step hcall hsignals hstep, distance_condSignal hdistance] at hkept
        rw [signal_of_step hcall hsignals hstep, distance_condSignal hdistance]
        exact .inr (hkept.imp id fun h => ⟨h.1, by decide⟩)
      · rcases hkept with hdone | ⟨howes', hle⟩
        · exact .inr (.inl hdone)
        · rcases Nat.lt_or_eq_of_le hle with hless | hsame
          · exact .inr (.inr ⟨howes', by omega⟩)
          · exact .inl ⟨⟨howes', hsame.trans hdistance⟩, call_of_step hstep hcall hown⟩
    · rintro pool event pool' hreached ⟨⟨howes, hdistance⟩, hcall⟩ hworks rfl hstep
      have hkept := (alive_of_step hreached hworks hstep i).2 m howes
      rw [signal_of_step hcall hsignals hstep, distance_condSignal hdistance] at hkept
      rw [signal_of_step hcall hsignals hstep, distance_condSignal hdistance]
      exact hkept.imp id fun h => ⟨h.1, by decide⟩
  exact hleads k ⟨⟨howes, hdistance⟩, hcall⟩

/-- The scheduler lets every worker and every call that can go on go on some time. -/
structure SchedulesFairly (run : Execution (system n α) worksOn) : Prop where
  workers : ∀ i, run.Fair (· = .worker i) fun pool => pool.step (.worker i) ≠ none
  calls : ∀ c, run.Fair (· = .call c) fun pool => pool.step (.call c) ≠ none

/-- A worker with jobs starts one more. -/
theorem SchedulesFairly.starts (hfair : SchedulesFairly run) (i : Fin n) (m : Nat) :
    run.LeadsTo (fun pool => (pool.workers i).Owes m)
      fun pool => m < (pool.workers i).started.length := by
  apply Execution.leadsTo_of_rank fun pool => (pool.workers i).distance
  intro r
  by_cases hr : r = 2
  · subst hr
    exact approaches_asleep hfair.calls i m
  · exact approaches_awake (hfair.workers i) hr

theorem jobs_grow (run : Execution (system n α) worksOn) (i : Fin n) {k k' : Nat} (hle : k ≤ k') :
    ((run.state k).workers i).jobs <+: ((run.state k').workers i).jobs := by
  apply run.stays (fun pool => ((run.state k).workers i).jobs <+: (pool.workers i).jobs)
    hle (List.prefix_refl _)
  intro s e s' hreached hprefix hworks hstep
  exact hprefix.trans (alive_of_step hreached hworks hstep i).1

/-- A worker starts as many jobs as it was ever given. -/
theorem SchedulesFairly.catchesUp (hfair : SchedulesFairly run) (i : Fin n) (m : Nat) :
    run.LeadsTo (fun pool => m ≤ (pool.workers i).jobs.length)
      fun pool => m ≤ (pool.workers i).started.length := by
  apply Execution.leadsTo_of_rank fun pool => m - (pool.workers i).started.length
  rintro r k ⟨hgiven, rfl⟩
  by_cases hdone : m ≤ ((run.state k).workers i).started.length
  · exact ⟨k, Nat.le_refl k, .inl hdone⟩
  · have howes : ((run.state k).workers i).Owes ((run.state k).workers i).started.length := by
      refine ⟨rfl, fun hnone => hdone ?_⟩
      rw [ThreadPoolWorker.jobs, hnone, List.append_nil, List.length_map] at hgiven
      exact hgiven
    obtain ⟨k', hle, hstarted⟩ := hfair.starts i _ k howes
    have hmore := (jobs_grow run i hle).length_le
    exact ⟨k', hle, .inr ⟨hgiven.trans hmore, by omega⟩⟩

/-- What the handler is called with, it returns from. -/
theorem SchedulesFairly.finishes (hfair : SchedulesFairly run) (i : Fin n) (d : α) :
    run.LeadsTo (fun pool => d ∈ (pool.workers i).started)
      fun pool => d ∈ (pool.workers i).handled := by
  have hrunning : run.LeadsTo (fun pool => d ∈ (pool.workers i).running)
      fun pool => d ∈ (pool.workers i).handled := by
    apply Execution.leadsTo_of_fair (hfair.workers i)
    · intro pool hreached hruns hnone
      have hnone : (pool.workers i).step = none := Option.map_eq_none_iff.mp hnone
      unfold ThreadPoolWorker.step at hnone
      rw [ThreadPoolWorker.stage_of_running hruns] at hnone
      contradiction
    · intro pool event pool' hreached hruns hworks hstep
      exact (moves_of_worksOn hworks hstep i).running hruns
    · rintro pool event pool' hreached hruns hworks rfl hstep
      obtain ⟨worker, hworker, rfl⟩ := Option.map_eq_some_iff.mp hstep
      rw [setWorker_self]
      exact (ThreadPoolWorker.steps_of_step hworker).handled hruns
  intro k hstarted
  rcases List.mem_append.mp hstarted with hhandled | hruns
  · exact ⟨k, Nat.le_refl k, hhandled⟩
  · exact hrunning k hruns

/-- What a worker was given, it handles. -/
theorem SchedulesFairly.handles (hfair : SchedulesFairly run) (i : Fin n) (d : α) :
    run.LeadsTo (fun pool => some d ∈ (pool.workers i).jobs)
      fun pool => d ∈ (pool.workers i).handled := by
  intro k hgiven
  obtain ⟨k', hle, hstarted⟩ := hfair.catchesUp i _ k (Nat.le_refl _)
  have hprefix := jobs_grow run i hle
  have hall : ((run.state k).workers i).jobs <+: ((run.state k').workers i).started.map some := by
    apply List.prefix_of_prefix_length_le hprefix (List.prefix_append _ _)
    rw [List.length_map]
    exact hstarted
  obtain ⟨d', hd', heq⟩ := List.mem_map.mp (hall.subset hgiven)
  cases heq
  obtain ⟨k'', hle', hhandled⟩ := hfair.finishes i d k' hd'
  exact ⟨k'', hle.trans hle', hhandled⟩

/-- How many steps a call is away from its push. -/
def stepsToPush (c : Nat) (pool : ThreadPool n α) : Nat :=
  match (pool.calls[c]?).map DispatchCall.stage with
  | some (.scan j _ _) => n - j + 1
  | _ => 0

/-- The call with this job has been made, and has pushed it or not. -/
def Called (c : Nat) (d : α) (unpushed : Bool) (pool : ThreadPool n α) : Prop :=
  ∃ call, pool.calls[c]? = some call ∧ call.data = some d ∧ call.unpushed = unpushed

omit [NeZero n] in
theorem setStage_getElem? {c : Nat} {call : DispatchCall n α} (hcall : pool.calls[c]? = some call)
    (stage : DispatchStage n) :
    (pool.setStage c call stage).calls[c]? = some { call with stage } :=
  List.getElem?_set_self (List.getElem?_eq_some_iff.mp hcall).1

/-- Each step of the scan leads towards the push. -/
theorem stepsToPush_of_step {c : Nat} {d : α} (hcalled : Called c d true pool)
    (hstep : pool.step (.call c) = some pool') :
    Called c d false pool' ∨ Called c d true pool' ∧ stepsToPush c pool' < stepsToPush c pool := by
  obtain ⟨call, hcall, hdata, hunpushed⟩ := hcalled
  cases steps_of_step hstep with
  | @call _ same _ hsame hcalls =>
    cases Option.some.inj (hcall.symm.trans hsame)
    cases hcalls with
    | @measures j workerIdx minJobs hstage hj _ =>
      right
      obtain ⟨chosen, hnext, -⟩ := pool.measure_eq ⟨j, hj⟩ workerIdx minJobs
      rw [hnext]
      refine ⟨⟨_, setStage_getElem? hcall _, hdata, rfl⟩, ?_⟩
      unfold stepsToPush
      rw [setStage_getElem? hcall, hcall]
      simp only [Option.map_some, hstage]
      omega
    | chooses hstage hj =>
      right
      refine ⟨⟨_, setStage_getElem? hcall _, hdata, rfl⟩, ?_⟩
      unfold stepsToPush
      rw [setStage_getElem? hcall, hcall]
      simp only [Option.map_some, hstage]
      omega
    | @pushes workerIdx hstage _ =>
      left
      have hcall' : (pool.pushed workerIdx call.data).calls[c]? = some call := hcall
      exact ⟨_, setStage_getElem? hcall' _, hdata, rfl⟩
    | signals hstage _ =>
      rw [DispatchCall.unpushed, hstage] at hunpushed
      contradiction

/-- A call pushes its data. -/
theorem SchedulesFairly.pushes (hfair : SchedulesFairly run) (c : Nat) (d : α) :
    run.LeadsTo (Called c d true) (Called c d false) := by
  apply Execution.leadsTo_of_rank (stepsToPush c)
  intro r
  apply Execution.leadsTo_of_fair (hfair.calls c)
  · rintro pool hreached ⟨⟨call, hcall, hdata, hunpushed⟩, -⟩ hnone
    have hfreed (i : Fin n) := ((working_of_reachable hreached).alive i).freed
    rw [step_call hcall] at hnone
    unfold stepCall at hnone
    unfold DispatchCall.unpushed at hunpushed
    cases hstage : call.stage with
    | scan j workerIdx minJobs =>
      rw [hstage] at hnone
      dsimp only at hnone
      split at hnone
      · rw [hfreed] at hnone
        contradiction
      · contradiction
    | push workerIdx =>
      rw [hstage] at hnone
      dsimp only at hnone
      rw [hfreed] at hnone
      contradiction
    | signal workerIdx | returned =>
      rw [hstage] at hunpushed
      contradiction
  · rintro pool event pool' hreached ⟨hcalled, rfl⟩ hworks hstep
    by_cases hown : event = .call c
    · subst hown
      exact .inr (stepsToPush_of_step hcalled hstep)
    · obtain ⟨call, hcall, hdata, hunpushed⟩ := hcalled
      have hcall' := call_of_step hstep hcall hown
      refine .inl ⟨⟨call, hcall', hdata, hunpushed⟩, ?_⟩
      unfold stepsToPush
      rw [hcall, hcall']
  · rintro pool event pool' hreached ⟨hcalled, rfl⟩ hworks rfl hstep
    exact stepsToPush_of_step hcalled hstep

/-- In every fair run in which each signal finds its worker waiting, each job that
`threadPoolDispatchWork` is called with is handled in the end. -/
theorem handled_of_schedulesFairly (hfair : SchedulesFairly run) (d : α) :
    run.LeadsTo (fun pool => ∃ call ∈ pool.calls, call.data = some d)
      fun pool => ∃ i, d ∈ (pool.workers i).handled := by
  rintro k ⟨call, hmem, hdata⟩
  obtain ⟨c, hcall⟩ := List.mem_iff_getElem?.mp hmem
  have hpushed : ∃ k' ≥ k, Called c d false (run.state k') := by
    cases hunpushed : call.unpushed with
    | true => exact hfair.pushes c d k ⟨call, hcall, hdata, hunpushed⟩
    | false => exact ⟨k, Nat.le_refl k, call, hcall, hdata, hunpushed⟩
  obtain ⟨j, hj, other, hother, hsame, hdone⟩ := hpushed
  have hworking := working_of_reachable (run.reachable j)
  obtain ⟨i, hgiven⟩ := hworking.placed other (List.mem_of_getElem? hother) hdone
  rw [hsame] at hgiven
  obtain ⟨k', hk', hhandled⟩ := hfair.handles i d j hgiven
  exact ⟨k', hj.trans hk', i, hhandled⟩

/-- Two jobs for a worker that sleeps again in between. -/
def twoJobs : List (PoolEvent 1 Nat) :=
  List.replicate 3 (.worker 0) ++ [.dispatch (some 7)] ++ List.replicate 4 (.call 0) ++
    List.replicate 7 (.worker 0) ++ [.dispatch (some 8)] ++ List.replicate 4 (.call 1) ++
      List.replicate 7 (.worker 0)

theorem handled_twoJobs : ∃ run : Execution (system 1 Nat) worksOn,
    ((run.state 4).workers 0).handled = [] ∧ (∃ call ∈ (run.state 4).calls, call.data = some 7) ∧
      ∃ k ≥ 4, ∃ i, 7 ∈ ((run.state k).workers i).handled := by
  have hruns : ((system 1 Nat).run worksOn (system 1 Nat).init twoJobs).map
      (fun pool => (pool.step (.worker 0)).isNone && pool.calls.all fun call =>
        match call.stage with
        | .returned => true
        | _ => false) = some true := by decide
  obtain ⟨last, hrun, hholds⟩ := Option.map_eq_some_iff.mp hruns
  obtain ⟨hworker, hcalls⟩ := Bool.and_eq_true_iff.mp hholds
  have hfair : SchedulesFairly ((system 1 Nat).execute worksOn twoJobs hrun) := by
    constructor
    · intro i
      apply System.execute_fair hrun
      rw [Subsingleton.elim i 0]
      simpa using hworker
    · intro c
      apply System.execute_fair hrun
      intro hsome
      unfold step at hsome
      dsimp only at hsome
      split at hsome
      · rename_i call hcall
        have hreturned := List.all_eq_true.mp hcalls call (List.mem_of_getElem? hcall)
        unfold stepCall at hsome
        split at hreturned
        · rename_i hstage
          rw [hstage] at hsome
          contradiction
        · contradiction
      · contradiction
  refine ⟨(system 1 Nat).execute worksOn twoJobs hrun, rfl, ?_, ?_⟩
  · exact ⟨_, List.mem_singleton_self _, rfl⟩
  · exact handled_of_schedulesFairly hfair 7 4 ⟨_, List.mem_singleton_self _, rfl⟩

end Runs

end ThreadPool

end Net77
