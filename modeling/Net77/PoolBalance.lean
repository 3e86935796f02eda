import Net77.Base.Places
import Net77.PoolSteps

/-! How `threadPoolDispatchWork` spreads jobs. It looks at the lists one after
another while the workers empty them and while other calls fill them, so that it
may choose a list that is not the shortest any more. -/
namespace Net77

open Net77.Base

variable {n : Nat} {α : Type}

/-- The call has not pushed its data yet. -/
def DispatchCall.unpushed (call : DispatchCall n α) : Bool :=
  match call.stage with
  | .scan _ _ _ | .push _ => true
  | _ => false

namespace ThreadPool

variable {pool pool' : ThreadPool n α}

/-- The jobs in the lists from worker `j` on. -/
def unmeasured (pool : ThreadPool n α) (j : Nat) : Nat :=
  ∑ i : Fin n, if j ≤ i.val then (pool.workers i).jobsList.length else 0

/-- The jobs in all lists. -/
def backlog (pool : ThreadPool n α) : Nat := ∑ i, (pool.workers i).jobsList.length

theorem unmeasured_zero (pool : ThreadPool n α) : pool.unmeasured 0 = pool.backlog := by
  simp [unmeasured, backlog]

theorem unmeasured_eq (pool : ThreadPool n α) {j : Nat} (hj : j < n) :
    pool.unmeasured j = (pool.workers ⟨j, hj⟩).jobsList.length + pool.unmeasured (j + 1) := by
  have hsplit (i : Fin n) : (if j ≤ i.val then (pool.workers i).jobsList.length else 0) =
      (if i = ⟨j, hj⟩ then (pool.workers i).jobsList.length else 0) +
        if j + 1 ≤ i.val then (pool.workers i).jobsList.length else 0 := by
    by_cases heq : i = ⟨j, hj⟩
    · subst heq
      simp
    · have hne : i.val ≠ j := fun h => heq (Fin.ext h)
      have hiff : j ≤ i.val ↔ j + 1 ≤ i.val := by omega
      simp [heq, hiff]
  unfold unmeasured
  rw [Finset.sum_congr rfl fun i _ => hsplit i, Finset.sum_add_distrib,
    Finset.sum_ite_eq' Finset.univ, if_pos (Finset.mem_univ _)]

theorem unmeasured_le (h : ∀ i, (pool'.workers i).jobsList.length ≤
    (pool.workers i).jobsList.length) (j : Nat) : pool'.unmeasured j ≤ pool.unmeasured j := by
  apply Finset.sum_le_sum
  intro i _
  split
  · exact h i
  · exact Nat.le_refl _

/-- The lists that a scan has measured and those it has not fit in the bound. -/
structure Scanned (pool : ThreadPool n α) (bound j minJobs : Nat) : Prop where
  inside : j ≤ n
  fits : j * minJobs + pool.unmeasured j ≤ bound

/-- Where a scan goes after it has measured one more list. -/
theorem measure_eq (pool : ThreadPool n α) (j workerIdx : Fin n) (minJobs : Nat) :
    ∃ chosen, pool.measure j workerIdx minJobs =
        .scan (j + 1) chosen (min (pool.workers j).jobsList.length minJobs) ∧
      (chosen = j ∧ (pool.workers j).jobsList.length < minJobs ∨
        chosen = workerIdx ∧ minJobs ≤ (pool.workers j).jobsList.length) := by
  unfold measure
  dsimp only
  split
  · rename_i hlt
    exact ⟨j, by rw [Nat.min_eq_left hlt.le], .inl ⟨rfl, hlt⟩⟩
  · rename_i hle
    exact ⟨workerIdx, by rw [Nat.min_eq_right (Nat.le_of_not_lt hle)],
      .inr ⟨rfl, Nat.le_of_not_lt hle⟩⟩

theorem Scanned.measures {bound j minJobs : Nat} (h : pool.Scanned bound j minJobs) (hj : j < n) :
    pool.Scanned bound (j + 1) (min (pool.workers ⟨j, hj⟩).jobsList.length minJobs) := by
  refine ⟨hj, ?_⟩
  have hfits := h.fits
  rw [pool.unmeasured_eq hj] at hfits
  have hmin := Nat.mul_le_mul_left j
    (Nat.min_le_right (pool.workers ⟨j, hj⟩).jobsList.length minJobs)
  have hjobs := Nat.min_le_left (pool.workers ⟨j, hj⟩).jobsList.length minJobs
  rw [Nat.succ_mul]
  omega

/-- A scan that is through has a length that is at most the average. -/
theorem Scanned.through {bound j minJobs : Nat} (h : pool.Scanned bound j minJobs)
    (hj : n ≤ j) : minJobs * n ≤ bound := by
  have hfits := h.fits
  rw [Nat.le_antisymm h.inside hj, Nat.mul_comm] at hfits
  omega

theorem Scanned.mono {bound bound' j minJobs : Nat} (h : pool.Scanned bound j minJobs)
    (hle : pool'.unmeasured j + bound ≤ pool.unmeasured j + bound') :
    pool'.Scanned bound' j minJobs := by
  have hfits := h.fits
  exact ⟨h.inside, by omega⟩

/-- The workers only take from the lists, and nothing happens to the calls. -/
structure Shrinks (pool pool' : ThreadPool n α) : Prop where
  calls : pool'.calls = pool.calls
  lists : ∀ i, (pool'.workers i).jobsList.length ≤ (pool.workers i).jobsList.length

theorem shrinks_setWorker {i : Fin n} {worker : ThreadPoolWorker α}
    (h : worker.jobsList.length ≤ (pool.workers i).jobsList.length) :
    pool.Shrinks (pool.setWorker i worker) := by
  refine ⟨rfl, ?_⟩
  intro k
  by_cases hne : k = i
  · subst hne
    rw [setWorker_self]
    exact h
  · rw [setWorker_of_ne pool hne]

theorem condSignal_shrinks (i : Fin n) :
    pool.Shrinks (pool.setWorker i (pool.workers i).condSignal) :=
  shrinks_setWorker (by simp)

theorem DestroySteps.shrinks (h : pool.DestroySteps pool') : pool.Shrinks pool' := by
  cases h with
  | called | spins | leaves | returns => exact ⟨rfl, fun _ => Nat.le_refl _⟩
  | @kills i _ hi =>
    have hsame : pool.Shrinks
        (pool.setWorker ⟨i, hi⟩ { pool.workers ⟨i, hi⟩ with killed := true }) :=
      shrinks_setWorker (Nat.le_refl _)
    exact ⟨rfl, hsame.lists⟩
  | @signals i _ => exact ⟨rfl, (condSignal_shrinks i).lists⟩
  | @frees i _ =>
    have hempty : pool.Shrinks
        (pool.setWorker i { pool.workers i with jobsList := [], freed := true }) :=
      shrinks_setWorker (Nat.zero_le _)
    exact ⟨rfl, hempty.lists⟩

/-- A new call, a step of a call, or a step that only takes from the lists. -/
theorem Steps.spread [NeZero n] {event : PoolEvent n α} (h : pool.Steps event pool') :
    (∃ data, event = .dispatch data ∧
        pool' = { pool with calls := pool.calls ++ [⟨data, .scan 0 0 (decSize 0)⟩] }) ∨
      (∃ i call, pool.calls[i]? = some call ∧ pool.CallSteps i call pool') ∨
        pool.Shrinks pool' := by
  cases h with
  | worker hstep =>
    exact .inr (.inr (shrinks_setWorker (ThreadPoolWorker.steps_of_step hstep).jobsList_le))
  | wakesUp => exact .inr (.inr (condSignal_shrinks _))
  | dispatch data => exact .inl ⟨data, rfl, rfl⟩
  | call hcall hstep => exact .inr (.inl ⟨_, _, hcall, hstep⟩)
  | destroy hstep => exact .inr (.inr hstep.shrinks)

/-- What a call is bound to find in front of the list that it chooses. -/
def Chooses (pool : ThreadPool n α) (bound : Nat) (call : DispatchCall n α) : Prop :=
  match call.stage with
  | .scan j workerIdx minJobs => pool.Scanned bound j minJobs ∧
      (j = 0 → bound < minJobs) ∧ (0 < j → (pool.workers workerIdx).jobsList.length ≤ minJobs)
  | .push workerIdx => (pool.workers workerIdx).jobsList.length * n ≤ bound
  | _ => True

/-- One call at a time fills the lists. -/
structure Balanced (pool : ThreadPool n α) (bound : Nat) : Prop where
  alone : pool.calls.countP DispatchCall.unpushed ≤ 1
  calls : ∀ call ∈ pool.calls, pool.Chooses bound call
  lists : ∀ i, (pool.workers i).jobsList.length ≤ (bound + n) / n

/-- `threadPoolDispatchWork` is called while no other call is about to push, and
while there is room for one job more. -/
def dispatchesAlone (backlog : Nat) (pool : ThreadPool n α) : PoolEvent n α → Bool
  | .dispatch _ => pool.calls.all (fun call => !call.unpushed) && pool.backlog < backlog
  | _ => true

theorem Chooses.shrinks {bound : Nat} {call : DispatchCall n α} (h : pool.Chooses bound call)
    (hlists : ∀ i, (pool'.workers i).jobsList.length ≤ (pool.workers i).jobsList.length) :
    pool'.Chooses bound call := by
  unfold Chooses at h ⊢
  cases hstage : call.stage with
  | scan j workerIdx minJobs =>
    rw [hstage] at h
    obtain ⟨hscanned, hfirst, hchosen⟩ := h
    refine ⟨hscanned.mono ?_, hfirst, ?_⟩
    · have hle := unmeasured_le hlists j
      omega
    · intro hj
      exact (hlists workerIdx).trans (hchosen hj)
  | push workerIdx =>
    rw [hstage] at h
    exact (Nat.mul_le_mul_right n (hlists workerIdx)).trans h
  | signal workerIdx => trivial
  | returned => trivial

/-- A call that has nothing to push any more has nothing to choose. -/
theorem chooses_of_pushed {bound : Nat} {call : DispatchCall n α} (h : call.unpushed = false) :
    pool.Chooses bound call := by
  unfold DispatchCall.unpushed at h
  unfold Chooses
  split at h
  · contradiction
  · contradiction
  · cases hstage : call.stage with
    | scan | push => simp_all
    | signal | returned => trivial

theorem Balanced.shrinks {bound : Nat} (h : pool.Balanced bound) (hshrinks : pool.Shrinks pool') :
    pool'.Balanced bound := by
  obtain ⟨hcalls, hlists⟩ := hshrinks
  refine ⟨by rw [hcalls]; exact h.alone, ?_, fun i => (hlists i).trans (h.lists i)⟩
  intro call hmem
  rw [hcalls] at hmem
  exact (h.calls call hmem).shrinks hlists

/-- A call goes on without touching a list. -/
theorem Balanced.setStage {bound i : Nat} {call : DispatchCall n α} {stage : DispatchStage n}
    (h : pool.Balanced bound) (hcall : pool.calls[i]? = some call)
    (hunpushed : DispatchCall.unpushed { call with stage } = true → call.unpushed = true)
    (hstage : pool.Chooses bound { call with stage }) :
    (pool.setStage i call stage).Balanced bound := by
  refine ⟨?_, ?_, h.lists⟩
  · have hcount := countP_setStage hcall stage DispatchCall.unpushed
    have halone := h.alone
    split at hcount
    · split at hcount <;> omega
    · rename_i hnot
      rw [if_neg fun hnew => hnot (hunpushed hnew)] at hcount
      omega
  · intro other hmem
    have hmem : other ∈ pool.calls.set i { call with stage } := hmem
    rcases List.mem_or_eq_of_mem_set hmem with hold | rfl
    · exact (h.calls other hold).shrinks fun _ => Nat.le_refl _
    · exact hstage.shrinks fun _ => Nat.le_refl _

theorem Balanced.measures {bound i j minJobs : Nat} {call : DispatchCall n α} {workerIdx : Fin n}
    (h : pool.Balanced bound) (hcall : pool.calls[i]? = some call)
    (hstage : call.stage = .scan j workerIdx minJobs) (hj : j < n) :
    (pool.setStage i call (pool.measure ⟨j, hj⟩ workerIdx minJobs)).Balanced bound := by
  apply h.setStage hcall
  · intro _
    rw [DispatchCall.unpushed, hstage]
  · have hchooses := h.calls call (List.mem_of_getElem? hcall)
    rw [Chooses, hstage] at hchooses
    obtain ⟨hscanned, hfirst, hchosen⟩ := hchooses
    obtain ⟨chosen, hnext, hwhich⟩ := pool.measure_eq ⟨j, hj⟩ workerIdx minJobs
    rw [hnext]
    refine ⟨hscanned.measures hj, fun h => by contradiction, fun _ => ?_⟩
    rcases hwhich with ⟨rfl, hlt⟩ | ⟨rfl, hle⟩
    · rw [Nat.min_eq_left hlt.le]
    · rw [Nat.min_eq_right hle]
      apply hchosen
      apply Nat.pos_of_ne_zero
      intro hzero
      -- the first list is never as long as the value that `min_jobs` starts with
      have hbound := hfirst hzero
      have hfits := hscanned.fits
      rw [pool.unmeasured_eq hj] at hfits
      omega

theorem Balanced.chooses {bound i j minJobs : Nat} {call : DispatchCall n α} {workerIdx : Fin n}
    [NeZero n] (h : pool.Balanced bound) (hcall : pool.calls[i]? = some call)
    (hstage : call.stage = .scan j workerIdx minJobs) (hj : n ≤ j) :
    (pool.setStage i call (.push workerIdx)).Balanced bound := by
  apply h.setStage hcall
  · intro _
    rw [DispatchCall.unpushed, hstage]
  · have hchooses := h.calls call (List.mem_of_getElem? hcall)
    rw [Chooses, hstage] at hchooses
    obtain ⟨hscanned, -, hchosen⟩ := hchooses
    have hpos : 0 < j := (Nat.pos_of_neZero n).trans_le hj
    exact (Nat.mul_le_mul_right n (hchosen hpos)).trans (hscanned.through hj)

theorem Balanced.pushes {bound i : Nat} {call : DispatchCall n α} {workerIdx : Fin n}
    [NeZero n] (h : pool.Balanced bound) (hcall : pool.calls[i]? = some call)
    (hstage : call.stage = .push workerIdx) :
    ((pool.pushed workerIdx call.data).setStage i call (.signal workerIdx)).Balanced bound := by
  have hcall' : (pool.pushed workerIdx call.data).calls[i]? = some call := hcall
  have hcount := countP_setStage hcall' (.signal workerIdx) DispatchCall.unpushed
  have hbefore : call.unpushed = true := by
    rw [DispatchCall.unpushed, hstage]
  have hafter : DispatchCall.unpushed { call with stage := .signal workerIdx } = false := rfl
  have halone : (pool.pushed workerIdx call.data).calls.countP DispatchCall.unpushed ≤ 1 := h.alone
  rw [if_pos hbefore, hafter] at hcount
  have hnone : ((pool.pushed workerIdx call.data).setStage i call
      (.signal workerIdx)).calls.countP DispatchCall.unpushed = 0 := by
    simp at hcount
    omega
  refine ⟨by omega, ?_, ?_⟩
  · intro other hmem
    apply chooses_of_pushed
    exact Bool.eq_false_iff.mpr (List.countP_eq_zero.mp hnone other hmem)
  · intro k
    rw [setStage_workers, pushed]
    by_cases hne : k = workerIdx
    · subst hne
      have hchooses := h.calls call (List.mem_of_getElem? hcall)
      rw [Chooses, hstage] at hchooses
      have hchooses : (pool.workers k).jobsList.length * n ≤ bound := hchooses
      rw [setWorker_self]
      show (linkedListPushBack (pool.workers k).jobsList call.data).length ≤ _
      rw [linkedListPushBack, List.length_append, List.length_singleton,
        Nat.le_div_iff_mul_le (Nat.pos_of_neZero n), Nat.succ_mul]
      omega
    · rw [setWorker_of_ne pool hne]
      exact h.lists k

theorem Balanced.step [NeZero n] {bound : Nat} {event : PoolEvent n α} (h : pool.Balanced bound)
    (hbound : bound < decSize 0) (halone : pool.dispatchesAlone (bound + 1) event = true)
    (hstep : pool.Steps event pool') : pool'.Balanced bound := by
  rcases hstep.spread with ⟨data, rfl, rfl⟩ | ⟨i, call, hcall, hstep⟩ | hshrinks
  · rw [dispatchesAlone, Bool.and_eq_true, List.all_eq_true, decide_eq_true_eq] at halone
    obtain ⟨hpushed, hroom⟩ := halone
    refine ⟨?_, ?_, h.lists⟩
    · have hnone : pool.calls.countP DispatchCall.unpushed = 0 := by
        rw [List.countP_eq_zero]
        intro call hmem hunpushed
        have hnot := hpushed call hmem
        rw [hunpushed] at hnot
        contradiction
      rw [List.countP_append, hnone, Nat.zero_add]
      exact List.countP_le_length
    · intro call hmem
      rcases List.mem_append.mp hmem with hold | hnew
      · exact (h.calls call hold).shrinks fun _ => Nat.le_refl _
      · rw [List.mem_singleton.mp hnew]
        refine ⟨⟨Nat.zero_le n, ?_⟩, fun _ => hbound, fun hpos => absurd hpos (lt_irrefl 0)⟩
        show 0 * decSize 0 + pool.unmeasured 0 ≤ bound
        rw [unmeasured_zero]
        omega
  · cases hstep with
    | measures hstage hj _ => exact h.measures hcall hstage hj
    | chooses hstage hj => exact h.chooses hcall hstage hj
    | pushes hstage _ => exact h.pushes hcall hstage
    | @signals workerIdx hstage _ =>
      have hcall' : (pool.setWorker workerIdx (pool.workers workerIdx).condSignal).calls[i]? =
        some call := hcall
      apply (h.shrinks (condSignal_shrinks _)).setStage hcall'
      · intro hnew
        contradiction
      · trivial
  · exact h.shrinks hshrinks

/-- As long as one thread dispatches and never finds `backlog` jobs in front of
it, no worker gets more than its share of them, whatever the workers do. -/
theorem lists_le_of_dispatchesAlone [NeZero n] {backlog : Nat} (hbacklog : backlog < 2 ^ 64)
    {pool : ThreadPool n α} (h : Reachable (system n α) (dispatchesAlone backlog) pool) :
    ∀ i, (pool.workers i).jobsList.length ≤ (backlog + n - 1) / n := by
  cases backlog with
  | zero =>
    -- nobody can dispatch anything
    have hempty : pool.calls = [] ∧ ∀ i, (pool.workers i).jobsList.length = 0 := by
      apply h.invariant
      · exact ⟨rfl, fun _ => rfl⟩
      · rintro s e s' ⟨hcalls, hlists⟩ halone hstep
        rcases (steps_of_step hstep).spread with ⟨data, rfl, rfl⟩ | ⟨i, call, hcall, -⟩ | hshrinks
        · simp [dispatchesAlone] at halone
        · rw [hcalls] at hcall
          contradiction
        · refine ⟨hshrinks.calls.trans hcalls, ?_⟩
          intro i
          exact Nat.le_zero.mp ((hshrinks.lists i).trans (hlists i).le)
    intro i
    rw [hempty.2 i]
    exact Nat.zero_le _
  | succ bound =>
    have hbalanced : pool.Balanced bound := by
      apply h.invariant
      · exact ⟨Nat.zero_le _, fun call hmem => absurd hmem (List.not_mem_nil),
          fun _ => Nat.zero_le _⟩
      · intro s e s' hbalanced halone hstep
        have hsize : bound < decSize 0 := by
          rw [decSize, if_pos rfl]
          omega
        exact hbalanced.step hsize halone (steps_of_step hstep)
    intro i
    rw [Nat.add_right_comm, Nat.add_sub_cancel]
    exact hbalanced.lists i

/-- Three jobs for two workers that are busy with nothing. -/
def threeJobs : List (PoolEvent 2 Nat) :=
  [.dispatch (some 7)] ++ List.replicate 5 (.call 0) ++ [.dispatch (some 8)] ++
    List.replicate 5 (.call 1) ++ [.dispatch (some 9)] ++ List.replicate 5 (.call 2)

theorem lists_le_threeJobs : ∃ pool, Reachable (system 2 Nat) (dispatchesAlone 3) pool ∧
    (pool.workers 0).jobsList = [some 7, some 9] ∧
      ∀ i, (pool.workers i).jobsList.length ≤ (3 + 2 - 1) / 2 := by
  obtain ⟨pool, hreached, hholds⟩ := System.reachable_of_run (system 2 Nat) (dispatchesAlone 3)
    threeJobs (fun pool => (pool.workers 0).jobsList = [some 7, some 9]) (by decide)
  exact ⟨pool, hreached, by simpa using hholds,
    lists_le_of_dispatchesAlone (by decide) hreached⟩

end ThreadPool

end Net77
