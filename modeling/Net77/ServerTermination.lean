import Net77.PassTermination
import Net77.ServerShutdown

/-! Every part of `runServer` comes to an end where the receptions and the accept loops
do. That `accept` fails after finitely many connections is given with a turn. -/
namespace Net77

open Net77.Base

section Turns

variable {σ : Type} {rt : Runtime} {cfg : ServerConfig σ} {set : ConnSet} {known : List Int}

/-- A connection that is refused leaves the set as it is: the accept loop goes through
all of them, however many they are, and only `accept` itself can end it. -/
theorem acceptLoop_refused {accepts : List Accepted} (hroom : set.len < set.cap)
    (hrefused : ∀ conn ∈ accepts, 0 ≤ conn.socket ∧
      ∃ calls, acceptConn cfg set conn = .ok (set, calls)) :
    ∃ log, acceptLoop cfg set accepts = .ok (set, log) ∧
      acceptedFds log = accepts.map Accepted.socket := by
  induction accepts with
  | nil => exact ⟨[], rfl, rfl⟩
  | cons conn rest ih =>
    obtain ⟨hsocket, calls, haccept⟩ := hrefused conn List.mem_cons_self
    obtain ⟨log, hloop, hfds⟩ :=
      ih fun other hother => hrefused other (List.mem_cons_of_mem conn hother)
    rw [acceptLoop, if_pos ⟨hroom, hsocket⟩, haccept, ok_bind]
    dsimp only
    rw [hloop]
    refine ⟨_, rfl, ?_⟩
    rw [acceptedFds_admitted, hfds]
    rfl

theorem acceptLoop_neverHangs (set : ConnSet) (accepts : List Accepted) :
    NeverHangs (acceptLoop cfg set accepts) := by
  induction accepts generalizing set with
  | nil => exact neverHangs_ok _
  | cons conn rest ih =>
    refine neverHangs_ite ?_ (neverHangs_ok _)
    refine neverHangs_bind.mpr ⟨acceptConn_neverHangs set conn, fun accepted _ => ?_⟩
    exact neverHangs_bind.mpr ⟨ih accepted.1, fun _ _ => neverHangs_ok _⟩

theorem pollConns_neverHangs (turn : Turn σ) (set : ConnSet) :
    NeverHangs (pollConns turn set) :=
  neverHangs_ite (pollInto_neverHangs set _ _) (neverHangs_ok _)

/-- The turn comes to its pass, and the pass to a reception that does not return. -/
def Turn.Waits (rt : Runtime) (cfg : ServerConfig σ) (dataAddr : Nat) (turn : Turn σ)
    (set : ConnSet) : Prop :=
  ∃ admitted log polled, acceptLoop cfg set turn.accepts = .ok (admitted, log) ∧
    pollConns turn admitted = .ok polled ∧ 0 < turn.pollRet ∧
      PassWaits rt cfg dataAddr turn.arrivals polled

theorem Knows.passConns_hangs_iff {turn : Turn σ} (h : Knows rt cfg known set) (dataAddr : Nat) :
    passConns rt cfg dataAddr turn set = .error .blocked ↔
      0 < turn.pollRet ∧ PassWaits rt cfg dataAddr turn.arrivals set := by
  obtain ⟨clients, henrolled⟩ := h.enrolled
  unfold passConns
  split
  · rename_i hready
    rw [and_iff_right hready]
    constructor
    · exact pollLoop_waits henrolled.holds le_rfl (passRank_le set)
    · rintro ⟨place, hreached, hwaits⟩
      exact hwaits.hangs hreached _
  · rename_i hready
    exact iff_of_false (neverHangs_ok _) fun hwaits => hready hwaits.1

/-- Behind the watcher, the sweep comes to its end. -/
theorem Knows.sweepLoop_neverHangs {turn : Turn σ} (hregular : turn.Regular)
    (h : Knows rt cfg known set) (newConnAttempt : Bool) :
    NeverHangs (sweepLoop turn.timeNow (watchConns turn newConnAttempt set).1.len 0
      (watchConns turn newConnAttempt set).1) := by
  have hwatched : Edits set (watchConns turn newConnAttempt set).1 :=
    (watchConns_edits hregular rfl).1
  obtain ⟨clients, henrolled⟩ := (h.edits hwatched).enrolled
  exact (sweepLoop_settled henrolled.holds (Nat.sub_le _ 0) 0).1

theorem serveTurn_hangs_iff {turn : Turn σ} (hregular : turn.Regular)
    (h : Knows rt cfg known set) (dataAddr : Nat) :
    serveTurn rt cfg dataAddr turn set = .error .blocked ↔ turn.Waits rt cfg dataAddr set := by
  have hpolledKnows {admitted polled : ConnSet} {log : List RunEvent}
      (hadmitted : acceptLoop cfg set turn.accepts = .ok (admitted, log))
      (hpolled : pollConns turn admitted = .ok polled) :
      Knows rt cfg (known ++ acceptedFds log) polled :=
    (acceptLoop_knows h hregular.ints hadmitted).2.edits (pollConns_edits hpolled)
  constructor
  · intro hblocked
    obtain ⟨⟨admitted, log⟩, hadmitted, hblocked⟩ :=
      (acceptLoop_neverHangs set turn.accepts).bind_iff.mp hblocked
    obtain ⟨polled, hpolled, hblocked⟩ := (pollConns_neverHangs turn admitted).bind_iff.mp hblocked
    have hknows := hpolledKnows hadmitted hpolled
    have hpass : passConns rt cfg dataAddr turn polled = .error .blocked := by
      refine (hangs_bind_iff fun passed hpassed => ?_).mp hblocked
      have hpassedKnows := hknows.edits (passConns_edits hpassed)
      exact neverHangs_bind.mpr ⟨hpassedKnows.sweepLoop_neverHangs hregular _, fun _ _ =>
        neverHangs_ok _⟩
    exact ⟨admitted, log, polled, hadmitted, hpolled,
      (hknows.passConns_hangs_iff dataAddr).mp hpass⟩
  · rintro ⟨admitted, log, polled, hadmitted, hpolled, hwaits⟩
    have hpass := ((hpolledKnows hadmitted hpolled).passConns_hangs_iff dataAddr).mpr hwaits
    refine (acceptLoop_neverHangs set turn.accepts).bind_iff.mpr ⟨(admitted, log), hadmitted, ?_⟩
    refine (pollConns_neverHangs turn admitted).bind_iff.mpr ⟨polled, hpolled, ?_⟩
    exact bind_eq_error.mpr (.inl hpass)

/-- By the turns: the ones in front of a turn that does not end have returned. -/
theorem serveTurns_hangs_iff {turns : List (Turn σ)} (hregular : ∀ turn ∈ turns, turn.Regular)
    (h : Knows rt cfg known set) (dataAddr : Nat) :
    serveTurns rt cfg dataAddr turns set = .error .blocked ↔
      ∃ before turn after served log, turns = before ++ turn :: after ∧
        serveTurns rt cfg dataAddr before set = .ok (served, log) ∧
          turn.Waits rt cfg dataAddr served := by
  induction turns generalizing set known with
  | nil =>
    refine iff_of_false (neverHangs_ok _) ?_
    rintro ⟨before, turn, after, -, -, hturns, -⟩
    simp at hturns
  | cons first turns ih =>
    have hfirst := hregular first List.mem_cons_self
    have hrest := fun other hother => hregular other (List.mem_cons_of_mem first hother)
    rw [serveTurns, bind_eq_error, serveTurn_hangs_iff hfirst h dataAddr]
    constructor
    · rintro (hwaits | ⟨⟨mid, log⟩, hserved, hblocked⟩)
      · exact ⟨[], first, turns, set, [], rfl, rfl, hwaits⟩
      · obtain ⟨-, hmid⟩ := serveTurn_knows hfirst h hserved
        have hlater := (hangs_bind_iff fun _ _ => neverHangs_ok _).mp hblocked
        obtain ⟨before, turn, after, served, logs, rfl, hbefore, hwaits⟩ :=
          (ih hrest hmid).mp hlater
        refine ⟨first :: before, turn, after, served, log ++ logs, rfl, ?_, hwaits⟩
        rw [serveTurns, hserved, ok_bind]
        dsimp only
        rw [hbefore]
        rfl
    · rintro ⟨before, turn, after, served, log, hturns, hbefore, hwaits⟩
      cases before with
      | nil =>
        cases hturns
        cases Except.ok.inj hbefore
        exact .inl hwaits
      | cons other before =>
        cases hturns
        obtain ⟨⟨mid, front⟩, hserved, hbefore⟩ := bind_eq_ok.mp hbefore
        obtain ⟨⟨last, back⟩, hlast, hbefore⟩ := bind_eq_ok.mp hbefore
        cases Except.ok.inj hbefore
        obtain ⟨-, hmid⟩ := serveTurn_knows hfirst h hserved
        refine .inr ⟨(mid, front), hserved, bind_eq_error.mpr (.inl ?_)⟩
        exact (ih hrest hmid).mpr ⟨before, turn, after, _, back, rfl, hlast, hwaits⟩

theorem closeConns_neverHangs (set : ConnSet) (n : Nat) : NeverHangs (closeConns set n) := by
  induction n with
  | zero => exact neverHangs_ok _
  | succ n ih =>
    refine neverHangs_bind.mpr ⟨ih, fun log _ => ?_⟩
    exact neverHangs_bind.mpr ⟨loadFd_neverHangs set n, fun _ _ => neverHangs_ok _⟩

end Turns

section Whole

variable {σ : Type} {rt : Runtime} {cfg : ServerConfig σ} {world : ServerWorld σ}

theorem newMcfsSet_neverHangs {n : Nat} (cap : Nat) (itemSizes : Fin n → Nat) :
    NeverHangs (newMcfsSet rt cap itemSizes) :=
  neverHangs_ite (neverHangs_fault _) (neverHangs_ok _)

/-- The call comes to the main loop, and one of its turns to a reception that does not
return. The turns in front of it have ended. -/
structure ServerWaits (rt : Runtime) (cfg : ServerConfig σ) (world : ServerWorld σ) : Prop where
  port : 0 ≤ world.port ∧ world.port ≤ 65536
  bound : ∃ serverFd, world.bound = some serverFd
  starts : Starts rt cfg world
  turns : ∃ set before turn after served log,
    newMcfsSet rt (toSize cfg.withDefaults.maxConcurrentConnections) connItemSizes = .ok set ∧
      world.turns = before ++ turn :: after ∧
        serveTurns rt cfg.withDefaults world.dataAddr before set = .ok (served, log) ∧
          turn.Waits rt cfg.withDefaults world.dataAddr served

end Whole

/-- A peer whose socket is readable for one byte, and then never again. -/
def silentPeer : Arrival Unit := ⟨(), [120], [⟨.ready (.only true false), 0⟩], false, 7⟩

/-- The turn that meets it. -/
def silentTurn : Turn Unit := ⟨[firstConn], 1, fun _ => pollin, fun _ => silentPeer, none, 8⟩

theorem silentTurn_regular : ∀ turn ∈ [silentTurn], turn.Regular := by
  intro turn hturn
  rw [List.mem_singleton.mp hturn]
  refine ⟨by decide, ?_⟩
  intro watch hwatch
  contradiction

/-- A server that meets it is asked to stop, and does not return. -/
def silentWorld : ServerWorld Unit :=
  ⟨80, some [⟨3, 0, 0, 0, 0, 0⟩], 0, 2 ^ 46, [silentTurn]⟩

end Net77
