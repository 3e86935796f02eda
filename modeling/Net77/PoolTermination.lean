import Net77.PoolTeardown

/-! How a thread pool comes to its end. A worker that is killed starts one more
job at most, and `threadPoolDestroy` returns when the threads are scheduled fairly
and no kill signal is lost. -/
namespace Net77

open Net77.Base

variable {n : Nat} {α : Type}

namespace ThreadPoolWorker

variable {worker worker' : ThreadPoolWorker α}

/-- The worker has tested `killed` and may take a job before it tests it again. -/
def mayPop (worker : ThreadPoolWorker α) : Nat :=
  match worker.stage with
  | .lock | .wait | .waiting | .woken | .pop => 1
  | _ => 0

/-- The worker is killed and takes a job with its next step. -/
def startsLate (worker : ThreadPoolWorker α) : Bool :=
  match worker.stage, worker.jobsList with
  | .pop, some _ :: _ => worker.killed
  | _, _ => false

/-- The jobs started since the worker was killed, and the one it may still start. -/
structure Last (worker : ThreadPoolWorker α) (late : Nat) : Prop where
  alive : worker.killed = false → late = 0
  once : late + worker.mayPop ≤ 1

theorem Last.step {late : Nat} (h : worker.Last late) (hstep : worker.Steps worker') :
    worker'.Last (late + if worker.startsLate then 1 else 0) := by
  obtain ⟨halive, honce⟩ := h
  obtain ⟨stage, jobsList, killed, killAck, handled, freed⟩ := worker
  cases hstep with
  | goes hnext =>
    cases stage with
    | waiting | pop | run | ack | ended => contradiction
    | test =>
      cases Option.some.inj hnext
      cases killed with
      | false => exact ⟨halive, by rw [halive rfl]; simp [startsLate, mayPop]⟩
      | true => exact ⟨halive, honce⟩
    | lock | wait | woken | unlock =>
      cases Option.some.inj hnext
      exact ⟨halive, honce⟩
  | popsNothing hstage hlist | popsNull hstage hlist =>
    subst hstage
    subst hlist
    exact ⟨halive, Nat.le_of_succ_le honce⟩
  | starts hstage hlist =>
    subst hstage
    subst hlist
    cases killed with
    | false => exact ⟨halive, by rw [halive rfl]; simp [startsLate, mayPop]⟩
    | true => exact ⟨fun h => by contradiction, honce⟩
  | finishes hstage | acknowledges hstage =>
    subst hstage
    exact ⟨halive, honce⟩

theorem Last.condSignal {late : Nat} (h : worker.Last late) : worker.condSignal.Last late := by
  obtain ⟨stage, jobsList, killed, killAck, handled, freed⟩ := worker
  cases stage <;> exact ⟨h.alive, h.once⟩

/-- Others may add to the list, and may kill the worker. -/
theorem Last.elsewhere {late : Nat} (h : worker.Last late)
    (hstage : worker'.stage = worker.stage)
    (hkilled : worker'.killed = false → worker.killed = false) : worker'.Last late := by
  refine ⟨fun halive => h.alive (hkilled halive), ?_⟩
  rw [mayPop, hstage]
  exact h.once

end ThreadPoolWorker

namespace ThreadPool

variable {pool pool' : ThreadPool n α}

/-- The worker that takes a job with this event although it is killed. -/
def lateStarts (pool : ThreadPool n α) : PoolEvent n α → List (Fin n)
  | .worker i => if (pool.workers i).startsLate then [i] else []
  | _ => []

/-- No worker has started more than one job since it was killed. -/
def AllLast (pool : ThreadPool n α) (log : List (Fin n)) : Prop :=
  ∀ i, (pool.workers i).Last (log.count i)

namespace AllLast

variable {log : List (Fin n)}

theorem setWorker (h : pool.AllLast log) {i : Fin n} {worker : ThreadPoolWorker α}
    (hi : worker.Last (log.count i)) : (pool.setWorker i worker).AllLast log :=
  forall_setWorker (P := fun j worker => worker.Last (log.count j)) h hi

theorem worker (h : pool.AllLast log) {i : Fin n} {worker : ThreadPoolWorker α}
    (hstep : (pool.workers i).step = some worker) :
    (pool.setWorker i worker).AllLast
      (log ++ if (pool.workers i).startsLate then [i] else []) := by
  have hlate := (h i).step (ThreadPoolWorker.steps_of_step hstep)
  intro j
  rw [List.count_append]
  by_cases hne : j = i
  · subst hne
    rw [setWorker_self]
    split
    · rename_i hstarts
      rw [if_pos hstarts] at hlate
      simpa using hlate
    · rename_i hstarts
      rw [if_neg hstarts] at hlate
      simpa using hlate
  · rw [setWorker_of_ne pool hne]
    split
    · rw [List.count_singleton, if_neg (by simpa using Ne.symm hne)]
      exact h j
    · exact h j

theorem step [NeZero n] (h : pool.AllLast log) {event : PoolEvent n α}
    (hstep : pool.Steps event pool') : pool'.AllLast (log ++ pool.lateStarts event) := by
  unfold lateStarts
  cases hstep with
  | worker hworker => exact h.worker hworker
  | wakesUp =>
    rw [List.append_nil]
    exact h.setWorker (h _).condSignal
  | dispatch data =>
    rw [List.append_nil]
    exact h
  | call hcall hcalls =>
    rw [List.append_nil]
    cases hcalls with
    | measures | chooses => exact h
    | pushes => exact h.setWorker ((h _).elsewhere rfl id)
    | signals => exact h.setWorker (h _).condSignal
  | destroy hdestroy =>
    rw [List.append_nil]
    cases hdestroy with
    | called | spins | leaves | returns => exact h
    | kills => exact h.setWorker ((h _).elsewhere rfl fun halive => by contradiction)
    | signals => exact h.setWorker (h _).condSignal
    | frees => exact h.setWorker ((h _).elsewhere rfl id)

end AllLast

theorem allLast_of_reachable [NeZero n] {s : ThreadPool n α × List (Fin n)}
    (h : Reachable ((system n α).logged lateStarts) (fun _ _ => true) s) : s.1.AllLast s.2 := by
  apply h.invariant
  · exact fun i => ⟨fun _ => rfl, Nat.zero_le 1⟩
  · rintro ⟨pool, log⟩ event s' hlast _ hstep
    obtain ⟨next, hnext, rfl⟩ := Option.map_eq_some_iff.mp hstep
    exact hlast.step (steps_of_step hnext)

/-- In every run, a worker that `threadPoolDestroy` has killed takes one more job
at most, however many are in its list. -/
theorem lateStarts_le_one [NeZero n] {pool : ThreadPool n α} {log : List (Fin n)}
    (h : Reachable ((system n α).logged lateStarts) (fun _ _ => true) (pool, log)) (i : Fin n) :
    log.count i ≤ 1 := by
  have honce : log.count i + (pool.workers i).mayPop ≤ 1 := (allLast_of_reachable h i).once
  omega

theorem lateStarts_le_one_cutShort : ∃ pool log,
    Reachable ((system 1 Nat).logged lateStarts) (fun _ _ => true) (pool, log) ∧
      log = [0] ∧ log.count 0 ≤ 1 := by
  obtain ⟨⟨pool, log⟩, hreached, hholds⟩ := System.reachable_of_run
    ((system 1 Nat).logged lateStarts) (fun _ _ => true) cutShort (fun s => s.2 = [0]) (by decide)
  exact ⟨pool, log, hreached, by simpa using hholds, lateStarts_le_one hreached 0⟩

end ThreadPool

namespace ThreadPoolWorker

variable {worker worker' : ThreadPoolWorker α}

/-- How many steps a worker that is killed is away from its acknowledgement. -/
def toEnd (worker : ThreadPoolWorker α) : Nat :=
  match worker.stage with
  | .ended => 0
  | .ack => 1
  | .test => 2
  | .unlock => 3
  | .run _ => 4
  | .pop => 5
  | .woken => 6
  | .lock | .wait | .waiting => 7

theorem Ending.toEnd_step (h : worker.Ending) (hstep : worker.Steps worker') :
    worker'.toEnd < worker.toEnd := by
  obtain ⟨stage, jobsList, killed, killAck, handled, freed⟩ := worker
  obtain ⟨rfl, hawake, hstays⟩ := h
  cases hstep with
  | goes hnext =>
    cases stage with
    | waiting | lock | wait | pop | run | ack | ended => contradiction
    | test | woken | unlock =>
      cases Option.some.inj hnext
      simp [toEnd]
  | popsNothing hstage | popsNull hstage | starts hstage | finishes hstage
  | acknowledges hstage =>
    subst hstage
    simp [toEnd]

theorem Ending.toEnd_moves (h : worker.Ending) (hmoves : worker.Moves worker') :
    worker'.toEnd ≤ worker.toEnd := by
  cases hmoves with
  | stays | pushed => exact Nat.le_refl _
  | steps hstep => exact (h.toEnd_step (steps_of_step hstep)).le
  | signalled =>
    unfold condSignal
    split
    · rename_i hstage
      simp [toEnd, hstage]
    · exact Nat.le_refl _

theorem Moves.killAck (h : worker.Moves worker') (hack : worker.killAck = true) :
    worker'.killAck = true := by
  cases h with
  | stays | pushed => exact hack
  | signalled => simpa using hack
  | steps hstep =>
    cases steps_of_step hstep with
    | acknowledges => rfl
    | _ => exact hack

/-- A worker that is awake takes a step unless it has ended. -/
theorem Ending.can_step (h : worker.Ending) (hstep : worker.step = none) :
    worker.stage = .ended := by
  obtain ⟨stage, jobsList, killed, killAck, handled, freed⟩ := worker
  have hawake := h.awake
  unfold step at hstep
  cases stage with
  | ended => rfl
  | waiting => contradiction
  | pop =>
    dsimp only at hstep
    split at hstep <;> contradiction
  | _ => contradiction

end ThreadPoolWorker

/-- How far `threadPoolDestroy` is from its return. -/
def DestroyStage.toReturn (destroy : DestroyStage n) : Nat :=
  match destroy with
  | .notCalled => 4 * n + 2
  | .kill i => 4 * (n - i) + 1
  | .signal i => 4 * (n - i)
  | .spin i => 4 * (n - i) - 1
  | .free i => 4 * (n - i) - 2
  | .returned => 0

namespace ThreadPool

variable {pool pool' : ThreadPool n α}

/-- `threadPoolDestroy` goes on, or it spins on a worker that has not acknowledged. -/
theorem DestroySteps.toReturn (h : pool.DestroySteps pool') :
    pool'.destroy.toReturn < pool.destroy.toReturn ∨
      pool' = pool ∧ ∃ i, pool.destroy = .spin i ∧ (pool.workers i).killAck = false := by
  cases h with
  | called hstage =>
    left
    rw [hstage]
    show 4 * (n - 0) + 1 < 4 * n + 2
    omega
  | @kills i hstage hi =>
    left
    rw [hstage]
    show 4 * (n - i) < 4 * (n - i) + 1
    omega
  | @signals i hstage =>
    left
    rw [hstage]
    have hi := i.isLt
    show 4 * (n - i.val) - 1 < 4 * (n - i.val)
    omega
  | @spins i hstage hack => exact .inr ⟨rfl, i, hstage, hack⟩
  | @leaves i hstage hack =>
    left
    rw [hstage]
    have hi := i.isLt
    show 4 * (n - i.val) - 2 < 4 * (n - i.val) - 1
    omega
  | @frees i hstage =>
    left
    rw [hstage]
    have hi := i.isLt
    show 4 * (n - (i.val + 1)) + 1 < 4 * (n - i.val) - 2
    omega
  | @returns i hstage hi =>
    left
    rw [hstage]
    exact Nat.succ_pos _

theorem DestroySteps.begun (h : pool.DestroySteps pool') : pool'.destroy ≠ .notCalled := by
  cases h with
  | spins hstage =>
    rw [hstage]
    simp
  | _ => simp

theorem stepDestroy_ne_none (h : pool.destroy ≠ .returned) : pool.stepDestroy ≠ none := by
  unfold stepDestroy
  split
  · simp
  · split <;> simp
  · simp
  · simp
  · simp
  · contradiction

section Runs

variable [NeZero n] {run : Execution (system n α) killArrives}

theorem acknowledges_of_reachable (h : Reachable (system n α) killArrives pool) :
    pool.Acknowledges := by
  apply h.invariant
  · exact .elsewhere (by simp [system]) (by simp [system])
  · intro s e s' hacknowledges harrives hstep
    exact hacknowledges.step harrives hstep

/-- A worker has ended exactly when it has acknowledged its end. -/
theorem settled_of_reachable {allowed : ThreadPool n α → PoolEvent n α → Bool}
    (h : Reachable (system n α) allowed pool) (i : Fin n) : (pool.workers i).Settled := by
  have hdisposed : ∃ log, pool.AllDisposed log := by
    apply h.invariant
    · exact ⟨[], allDisposed_init⟩
    · rintro s event s' ⟨log, hdisposed⟩ _ hstep
      exact ⟨_, hdisposed.step (steps_of_step hstep)⟩
  obtain ⟨log, hdisposed⟩ := hdisposed
  exact (hdisposed i).settled

/-- The scheduler lets every worker that can go on go on some time, and
`threadPoolDestroy` too once it is called. -/
structure EndsFairly (run : Execution (system n α) killArrives) : Prop where
  workers : ∀ i, run.Fair (· = .worker i) fun pool => pool.step (.worker i) ≠ none
  destroy : run.Fair (· = .destroy) fun pool =>
    pool.destroy ≠ .notCalled ∧ pool.step .destroy ≠ none

/-- `threadPoolDestroy` has been called and is nearer to its return than here. -/
def Nearer (destroy : DestroyStage n) (pool : ThreadPool n α) : Prop :=
  pool.destroy ≠ .notCalled ∧ pool.destroy.toReturn < destroy.toReturn

theorem EndsFairly.goesOn (hfair : EndsFairly run) {destroy : DestroyStage n}
    (hcalled : destroy ≠ .notCalled) (hspin : ∀ i, destroy ≠ .spin i)
    (hreturned : destroy ≠ .returned) :
    run.LeadsTo (fun pool => pool.destroy = destroy) (Nearer destroy) := by
  have hstep {pool pool' : ThreadPool n α} (hdestroy : pool.destroy = destroy)
      (hstep : pool.step .destroy = some pool') : Nearer destroy pool' := by
    have hsteps := destroySteps_of_stepDestroy hstep
    subst hdestroy
    rcases hsteps.toReturn with hless | ⟨-, i, hspins, -⟩
    · exact ⟨hsteps.begun, hless⟩
    · exact absurd hspins (hspin i)
  apply Execution.leadsTo_of_fair hfair.destroy
  · intro pool _ hdestroy
    exact ⟨hdestroy ▸ hcalled, stepDestroy_ne_none (hdestroy ▸ hreturned)⟩
  · intro pool event pool' _ hdestroy _ hnext
    by_cases hown : event = .destroy
    · subst hown
      exact .inr (hstep hdestroy hnext)
    · exact .inl ((step_moves hown hnext).1.trans hdestroy)
  · rintro pool event pool' _ hdestroy _ rfl hnext
    exact hstep hdestroy hnext

/-- The worker that is waited for acknowledges its end. -/
theorem EndsFairly.acknowledged (hfair : EndsFairly run) (i : Fin n) :
    run.LeadsTo (fun pool => pool.destroy = .spin i)
      fun pool => pool.destroy = .spin i ∧ (pool.workers i).killAck = true ∨
        Nearer (.spin i) pool := by
  apply Execution.leadsTo_of_rank fun pool => (pool.workers i).toEnd
  rintro r k ⟨hspin, hrank⟩
  by_cases hack : ((run.state k).workers i).killAck = true
  · exact ⟨k, Nat.le_refl k, .inl (.inl ⟨hspin, hack⟩)⟩
  · have hleads : run.LeadsTo (fun pool => pool.destroy = .spin i ∧
        (pool.workers i).toEnd = ((run.state k).workers i).toEnd ∧ (pool.workers i).killAck = false)
        (fun pool => (pool.destroy = .spin i ∧ (pool.workers i).killAck = true ∨
            Nearer (.spin i) pool) ∨
          pool.destroy = .spin i ∧ (pool.workers i).toEnd < ((run.state k).workers i).toEnd) := by
      apply Execution.leadsTo_of_fair (hfair.workers i)
      · rintro pool hreached ⟨hspin, -, hack⟩ hnone
        have hending := (acknowledges_of_reachable hreached).2 i hspin
        have hended := hending.can_step (Option.map_eq_none_iff.mp hnone)
        rw [(settled_of_reachable hreached i).ended.mpr hended] at hack
        contradiction
      · rintro pool event pool' hreached ⟨hspin, hend, hack⟩ _ hstep
        by_cases hown : event = .destroy
        · subst hown
          have hsteps := destroySteps_of_stepDestroy hstep
          rcases hsteps.toReturn with hless | ⟨rfl, -⟩
          · rw [hspin] at hless
            exact .inr (.inl (.inr ⟨hsteps.begun, hless⟩))
          · exact .inl ⟨hspin, hend, hack⟩
        · obtain ⟨hsame, hmoves⟩ := step_moves hown hstep
          have hending := (acknowledges_of_reachable hreached).2 i hspin
          have hspin' := hsame.trans hspin
          cases hack' : (pool'.workers i).killAck with
          | true => exact .inr (.inl (.inl ⟨hspin', rfl⟩))
          | false =>
            rcases Nat.lt_or_eq_of_le (hending.toEnd_moves (hmoves i)) with hless | heq
            · exact .inr (.inr ⟨hspin', hend ▸ hless⟩)
            · exact .inl ⟨hspin', heq.trans hend, rfl⟩
      · rintro pool event pool' hreached ⟨hspin, hend, hack⟩ _ rfl hstep
        have hending := (acknowledges_of_reachable hreached).2 i hspin
        obtain ⟨worker, hworker, rfl⟩ := Option.map_eq_some_iff.mp hstep
        right
        rw [setWorker_self, ← hend]
        exact ⟨hspin, hending.toEnd_step (ThreadPoolWorker.steps_of_step hworker)⟩
    have hack := Bool.eq_false_iff.mpr hack
    obtain ⟨k', hle, hafter⟩ := hleads k ⟨hspin, rfl, hack⟩
    exact ⟨k', hle, hrank ▸ hafter⟩

/-- Once the worker has acknowledged its end, `threadPoolDestroy` leaves its loop. -/
theorem EndsFairly.leaves (hfair : EndsFairly run) (i : Fin n) :
    run.LeadsTo (fun pool => pool.destroy = .spin i ∧ (pool.workers i).killAck = true)
      (Nearer (.spin i)) := by
  have hstep {pool pool' : ThreadPool n α} (hspin : pool.destroy = .spin i)
      (hack : (pool.workers i).killAck = true) (hstep : pool.step .destroy = some pool') :
      Nearer (.spin i) pool' := by
    have hsteps := destroySteps_of_stepDestroy hstep
    rcases hsteps.toReturn with hless | ⟨-, j, hspins, hnot⟩
    · rw [hspin] at hless
      exact ⟨hsteps.begun, hless⟩
    · rw [hspin] at hspins
      cases hspins
      rw [hack] at hnot
      contradiction
  apply Execution.leadsTo_of_fair hfair.destroy
  · rintro pool _ ⟨hspin, -⟩
    rw [hspin]
    exact ⟨by simp, stepDestroy_ne_none (by rw [hspin]; simp)⟩
  · rintro pool event pool' _ ⟨hspin, hack⟩ _ hnext
    by_cases hown : event = .destroy
    · subst hown
      exact .inr (hstep hspin hack hnext)
    · obtain ⟨hsame, hmoves⟩ := step_moves hown hnext
      exact .inl ⟨hsame.trans hspin, (hmoves i).killAck hack⟩
  · rintro pool event pool' _ ⟨hspin, hack⟩ _ rfl hnext
    exact hstep hspin hack hnext

end Runs

end ThreadPool

end Net77
