import Net77.PoolBalance

/-! How far the lists of a thread pool can get out of balance when several threads
dispatch at a time. Each call may add to a list that others have filled since the
call has chosen it. -/
namespace Net77

open Net77.Base

variable {n : Nat} {α : Type}

/-- A call that has found a list of `bound` jobs or fewer in front of it, and
has chosen this worker. -/
def DispatchCall.aims (bound : Nat) (i : Fin n) (call : DispatchCall n α) : Bool :=
  match call.stage with
  | .scan _ workerIdx minJobs => workerIdx = i && minJobs ≤ bound
  | .push workerIdx => workerIdx = i
  | _ => false

theorem DispatchCall.unpushed_of_aims {bound : Nat} {i : Fin n} {call : DispatchCall n α}
    (h : call.aims bound i = true) : call.unpushed = true := by
  cases hstage : call.stage with
  | scan | push => rw [unpushed, hstage]
  | signal | returned =>
    rw [aims, hstage] at h
    contradiction

namespace ThreadPool

variable {pool pool' : ThreadPool n α}

/-- One job more in one list. -/
theorem unmeasured_pushed (pool : ThreadPool n α) (workerIdx : Fin n) (data : Option α) (j : Nat) :
    (pool.pushed workerIdx data).unmeasured j ≤ pool.unmeasured j + 1 := by
  have hone (i : Fin n) : (if j ≤ i.val then
      ((pool.pushed workerIdx data).workers i).jobsList.length else 0) ≤
        (if j ≤ i.val then (pool.workers i).jobsList.length else 0) +
          if i = workerIdx then 1 else 0 := by
    by_cases heq : i = workerIdx
    · subst heq
      unfold pushed
      rw [setWorker_self, if_pos rfl, linkedListPushBack]
      split <;> simp
    · unfold pushed
      rw [setWorker_of_ne pool heq, if_neg heq]
      exact Nat.le_refl _
  calc (pool.pushed workerIdx data).unmeasured j
      ≤ ∑ i : Fin n, ((if j ≤ i.val then (pool.workers i).jobsList.length else 0) +
          if i = workerIdx then 1 else 0) := Finset.sum_le_sum fun i _ => hone i
    _ = pool.unmeasured j + 1 := by
      rw [Finset.sum_add_distrib, Finset.sum_ite_eq' Finset.univ, if_pos (Finset.mem_univ _)]
      rfl

/-- Several calls at a time fill the lists. A call that aims at a worker will add
to its list, however long that has become. -/
structure Spread (pool : ThreadPool n α) (overlap bound : Nat) : Prop where
  few : pool.calls.countP DispatchCall.unpushed ≤ overlap
  backlog : pool.backlog + pool.calls.countP DispatchCall.unpushed ≤ pool.calls.length
  scans : ∀ call ∈ pool.calls, ∀ j workerIdx minJobs, call.stage = .scan j workerIdx minJobs →
    pool.Scanned (pool.calls.length - pool.calls.countP DispatchCall.unpushed) j minJobs
  lists : ∀ i, (pool.workers i).jobsList.length +
    pool.calls.countP (DispatchCall.aims bound i) ≤ bound + overlap

/-- `threadPoolDispatchWork` is called while fewer than `overlap` other calls are
about to push. -/
def dispatchesOverlap (overlap : Nat) (pool : ThreadPool n α) : PoolEvent n α → Bool
  | .dispatch _ => pool.calls.countP DispatchCall.unpushed < overlap
  | _ => true

theorem Spread.shrinks {overlap bound : Nat} (h : pool.Spread overlap bound)
    (hshrinks : pool.Shrinks pool') : pool'.Spread overlap bound := by
  obtain ⟨hcalls, hlists⟩ := hshrinks
  have hbacklog := unmeasured_le hlists 0
  rw [unmeasured_zero, unmeasured_zero] at hbacklog
  refine ⟨?_, ?_, ?_, ?_⟩
  · rw [hcalls]
    exact h.few
  · rw [hcalls]
    exact (Nat.add_le_add_right hbacklog _).trans h.backlog
  · intro call hmem j workerIdx minJobs hstage
    rw [hcalls] at hmem ⊢
    apply (h.scans call hmem j workerIdx minJobs hstage).mono
    have hle := unmeasured_le hlists j
    omega
  · intro i
    rw [hcalls]
    exact (Nat.add_le_add_right (hlists i) _).trans (h.lists i)

/-- A call goes on to push without touching a list. It may aim at a worker that
it did not aim at before, if that worker has few jobs. -/
theorem Spread.setStage {overlap bound i : Nat} {call : DispatchCall n α}
    {stage : DispatchStage n} (h : pool.Spread overlap bound) (hcall : pool.calls[i]? = some call)
    (hunpushed : DispatchCall.unpushed { call with stage } = call.unpushed)
    (hscanned : ∀ j workerIdx minJobs, stage = .scan j workerIdx minJobs →
      pool.Scanned (pool.calls.length - pool.calls.countP DispatchCall.unpushed) j minJobs)
    (haims : ∀ k, DispatchCall.aims bound k { call with stage } = true →
      call.aims bound k = true ∨ (pool.workers k).jobsList.length ≤ bound) :
    (pool.setStage i call stage).Spread overlap bound := by
  have hlength : (pool.setStage i call stage).calls.length = pool.calls.length :=
    List.length_set
  have hcount := countP_setStage hcall stage DispatchCall.unpushed
  rw [hunpushed] at hcount
  have hcount := Nat.add_right_cancel hcount
  refine ⟨by rw [hcount]; exact h.few, by rw [hcount, hlength]; exact h.backlog, ?_, ?_⟩
  · intro other hmem j workerIdx minJobs hstage
    rw [hcount, hlength]
    have hmem : other ∈ pool.calls.set i { call with stage } := hmem
    have hsame : pool.Scanned (pool.calls.length - pool.calls.countP DispatchCall.unpushed)
        j minJobs := by
      rcases List.mem_or_eq_of_mem_set hmem with hold | rfl
      · exact h.scans other hold j workerIdx minJobs hstage
      · exact hscanned j workerIdx minJobs hstage
    exact ⟨hsame.inside, hsame.fits⟩
  · intro k
    have hlists := h.lists k
    have haiming := countP_setStage hcall stage (DispatchCall.aims bound k)
    rw [setStage_workers]
    by_cases hnew : DispatchCall.aims bound k { call with stage } = true
    · rcases haims k hnew with hold | hfew
      · rw [if_pos hold, if_pos hnew] at haiming
        omega
      · have hmost : (pool.setStage i call stage).calls.countP (DispatchCall.aims bound k) ≤
            (pool.setStage i call stage).calls.countP DispatchCall.unpushed :=
          List.countP_mono_left fun _ _ => DispatchCall.unpushed_of_aims
        have hoverlap := h.few
        omega
    · rw [if_neg hnew] at haiming
      omega

theorem Spread.callSteps [NeZero n] {overlap bound i : Nat} {call : DispatchCall n α}
    (h : pool.Spread overlap bound) (hlength : pool.calls.length ≤ (bound + 1) * n)
    (hcall : pool.calls[i]? = some call) (hstep : pool.CallSteps i call pool') :
    pool'.Spread overlap bound := by
  have hmem := List.mem_of_getElem? hcall
  cases hstep with
  | @measures j workerIdx minJobs hstage hj _ =>
    obtain ⟨chosen, hnext, hwhich⟩ := pool.measure_eq ⟨j, hj⟩ workerIdx minJobs
    rw [hnext]
    apply h.setStage hcall
    · rw [DispatchCall.unpushed, DispatchCall.unpushed, hstage]
    · intro j' workerIdx' minJobs' heq
      cases heq
      exact (h.scans call hmem j workerIdx minJobs hstage).measures hj
    · intro k haims
      simp only [DispatchCall.aims, Bool.and_eq_true, decide_eq_true_eq] at haims
      obtain ⟨rfl, hfew⟩ := haims
      rcases hwhich with ⟨rfl, hlt⟩ | ⟨rfl, hle⟩
      · rw [Nat.min_eq_left hlt.le] at hfew
        exact .inr hfew
      · rw [Nat.min_eq_right hle] at hfew
        left
        rw [DispatchCall.aims, hstage]
        simp [hfew]
  | @chooses j workerIdx minJobs hstage hj =>
    have hunpushed : call.unpushed = true := by
      rw [DispatchCall.unpushed, hstage]
    apply h.setStage hcall
    · rw [hunpushed]
      rfl
    · intro _ _ _ heq
      contradiction
    · intro k haims
      -- the call has not pushed itself, so the average is smaller than `bound + 1`
      have hthrough := (h.scans call hmem j workerIdx minJobs hstage).through hj
      have hpos : 0 < pool.calls.countP DispatchCall.unpushed :=
        List.countP_pos_iff.mpr ⟨call, hmem, hunpushed⟩
      have hbacklog := h.backlog
      have hfew : minJobs * n < (bound + 1) * n := by omega
      have hfew := Nat.le_of_lt_succ (Nat.lt_of_mul_lt_mul_right hfew)
      left
      simp only [DispatchCall.aims, decide_eq_true_eq] at haims
      rw [DispatchCall.aims, hstage]
      simp [haims, hfew]
  | @pushes workerIdx hstage _ =>
    have hcall' : (pool.pushed workerIdx call.data).calls[i]? = some call := hcall
    have hlength' : ((pool.pushed workerIdx call.data).setStage i call
        (.signal workerIdx)).calls.length = pool.calls.length := List.length_set
    have hcount := countP_setStage hcall' (.signal workerIdx) DispatchCall.unpushed
    have hbefore : call.unpushed = true := by
      rw [DispatchCall.unpushed, hstage]
    have hafter : DispatchCall.unpushed { call with stage := .signal workerIdx } = false := rfl
    have hcalls : (pool.pushed workerIdx call.data).calls = pool.calls := rfl
    rw [if_pos hbefore, hafter, hcalls] at hcount
    simp only [Bool.false_eq_true, if_false, Nat.add_zero] at hcount
    have hbacklog := h.backlog
    have hmore := pool.unmeasured_pushed workerIdx call.data
    have hfew := h.few
    refine ⟨by omega, ?_, ?_, ?_⟩
    · rw [hlength', ← unmeasured_zero]
      have hzero := hmore 0
      rw [pool.unmeasured_zero] at hzero
      show (pool.pushed workerIdx call.data).unmeasured 0 + _ ≤ _
      omega
    · intro other hother j workerIdx' minJobs hscan
      rw [hlength']
      have hother : other ∈ pool.calls.set i { call with stage := .signal workerIdx } := hother
      rcases List.mem_or_eq_of_mem_set hother with hold | rfl
      · apply (h.scans other hold j workerIdx' minJobs hscan).mono
        have hj := hmore j
        show (pool.pushed workerIdx call.data).unmeasured j + _ ≤ _
        omega
      · contradiction
    · intro k
      have hlists := h.lists k
      have haiming := countP_setStage hcall' (.signal workerIdx) (DispatchCall.aims bound k)
      rw [hcalls] at haiming
      have hdone : DispatchCall.aims bound k { call with stage := .signal workerIdx } = false :=
        rfl
      rw [hdone] at haiming
      simp only [Bool.false_eq_true, if_false, Nat.add_zero] at haiming
      generalize ((pool.pushed workerIdx call.data).setStage i call
        (.signal workerIdx)).calls.countP (DispatchCall.aims bound k) = aiming at haiming ⊢
      rw [setStage_workers, pushed]
      by_cases hne : k = workerIdx
      · subst hne
        have haimed : call.aims bound k = true := by
          rw [DispatchCall.aims, hstage]
          simp
        rw [if_pos haimed] at haiming
        rw [setWorker_self]
        show (linkedListPushBack (pool.workers k).jobsList call.data).length + _ ≤ _
        rw [linkedListPushBack, List.length_append, List.length_singleton]
        omega
      · rw [setWorker_of_ne pool hne]
        omega
  | @signals workerIdx hstage _ =>
    have hcall' : (pool.setWorker workerIdx (pool.workers workerIdx).condSignal).calls[i]? =
      some call := hcall
    apply (h.shrinks (condSignal_shrinks workerIdx)).setStage hcall'
    · rw [DispatchCall.unpushed, DispatchCall.unpushed, hstage]
    · intro _ _ _ heq
      contradiction
    · intro k haims
      contradiction

theorem Spread.step [NeZero n] {overlap bound : Nat} {event : PoolEvent n α}
    (h : pool.Spread overlap bound) (hbound : bound < decSize 0)
    (hlength : pool.calls.length ≤ (bound + 1) * n)
    (hoverlap : pool.dispatchesOverlap overlap event = true)
    (hstep : pool.Steps event pool') : pool'.Spread overlap bound := by
  rcases hstep.spread with ⟨data, rfl, rfl⟩ | ⟨i, call, hcall, hstep⟩ | hshrinks
  · rw [dispatchesOverlap, decide_eq_true_eq] at hoverlap
    have hbacklog := h.backlog
    let call : DispatchCall n α := ⟨data, .scan 0 0 (decSize 0)⟩
    have hcount : (pool.calls ++ [call]).countP DispatchCall.unpushed =
        pool.calls.countP DispatchCall.unpushed + 1 := by
      rw [List.countP_append]
      rfl
    have hlast : (pool.calls ++ [call]).length = pool.calls.length + 1 := by
      rw [List.length_append, List.length_singleton]
    refine ⟨?_, ?_, ?_, ?_⟩
    · show (pool.calls ++ [call]).countP DispatchCall.unpushed ≤ overlap
      omega
    · dsimp only
      rw [hcount, hlast]
      exact Nat.succ_le_succ hbacklog
    · intro other hmem j workerIdx minJobs hstage
      dsimp only
      rw [hcount, hlast, Nat.add_sub_add_right]
      rcases List.mem_append.mp hmem with hold | hnew
      · have hscanned := h.scans other hold j workerIdx minJobs hstage
        exact ⟨hscanned.inside, hscanned.fits⟩
      · rw [List.mem_singleton.mp hnew] at hstage
        cases hstage
        refine ⟨Nat.zero_le n, ?_⟩
        show 0 * decSize 0 + pool.unmeasured 0 ≤ _
        rw [unmeasured_zero]
        omega
    · intro k
      have haims : call.aims bound k = false := by
        simp [call, DispatchCall.aims, hbound]
      dsimp only
      rw [List.countP_append, List.countP_singleton, haims]
      exact h.lists k
  · exact h.callSteps hlength hcall hstep
  · exact h.shrinks hshrinks

/-- Nobody forgets that a call was made. -/
theorem Steps.calls_le [NeZero n] {event : PoolEvent n α} (h : pool.Steps event pool') :
    pool.calls.length ≤ pool'.calls.length := by
  rcases h.spread with ⟨data, -, rfl⟩ | ⟨i, call, hcall, hstep⟩ | hshrinks
  · dsimp only
    rw [List.length_append]
    exact Nat.le_add_right _ _
  · cases hstep <;> exact (List.length_set).ge
  · exact (congrArg List.length hshrinks.calls).ge

/-- However many threads dispatch at a time, the list of a worker is no longer
than the share of one worker in all jobs that were ever dispatched, plus one job
for each of these threads. -/
theorem lists_le_of_dispatchesOverlap [NeZero n] {overlap : Nat} {pool : ThreadPool n α}
    (h : Reachable (system n α) (dispatchesOverlap overlap) pool)
    (hcalls : pool.calls.length < 2 ^ 64) :
    ∀ i, (pool.workers i).jobsList.length ≤ (pool.calls.length - 1) / n + overlap := by
  have hsize : (pool.calls.length - 1) / n < decSize 0 := by
    have hle := Nat.div_le_self (pool.calls.length - 1) n
    rw [decSize, if_pos rfl]
    omega
  have hlength : pool.calls.length ≤ ((pool.calls.length - 1) / n + 1) * n := by
    have hlt := Nat.lt_div_mul_add (a := pool.calls.length - 1) (Nat.pos_of_neZero n)
    rw [Nat.succ_mul]
    omega
  -- the bound is that of the last state, and earlier states have fewer calls
  have hspread : ∀ s, Reachable (system n α) (dispatchesOverlap overlap) s →
      ∀ bound, bound < decSize 0 → s.calls.length ≤ (bound + 1) * n →
        s.Spread overlap bound := by
    intro s hs bound hbound
    induction hs with
    | init =>
      intro _
      refine ⟨Nat.zero_le _, ?_, fun call hmem => absurd hmem (List.not_mem_nil), fun _ =>
        Nat.zero_le _⟩
      simp [system, backlog, ThreadPoolWorker.new]
    | step _ hoverlap hstep ih =>
      intro hlast
      have hbefore := (steps_of_step hstep).calls_le.trans hlast
      exact (ih hbefore).step hbound hbefore hoverlap (steps_of_step hstep)
  intro i
  have hlists := (hspread pool h _ hsize hlength).lists i
  omega

/-- Two calls that both find the first list empty. -/
def twoAtOnce : List (PoolEvent 2 Nat) :=
  [.dispatch (some 7), .dispatch (some 8)] ++ List.replicate 3 (.call 0) ++
    List.replicate 4 (.call 1) ++ [.call 0]

theorem lists_le_twoAtOnce : ∃ pool, Reachable (system 2 Nat) (dispatchesOverlap 2) pool ∧
    (pool.workers 0).jobsList = [some 8, some 7] ∧
      ∀ i, (pool.workers i).jobsList.length ≤ (pool.calls.length - 1) / 2 + 2 := by
  obtain ⟨pool, hreached, hholds⟩ := System.reachable_of_run (system 2 Nat) (dispatchesOverlap 2)
    twoAtOnce (fun pool => (pool.workers 0).jobsList = [some 8, some 7] ∧ pool.calls.length = 2)
    (by decide)
  obtain ⟨hlist, hlength⟩ := by simpa using hholds
  exact ⟨pool, hreached, hlist, lists_le_of_dispatchesOverlap hreached (by rw [hlength]; decide)⟩

end ThreadPool

end Net77
