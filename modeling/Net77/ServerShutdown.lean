import Net77.Http.SessionLifecycle
import Net77.ServedDescriptors

/-! How `runServer` ends, and what is left of its own socket and of the connections. -/
namespace Net77

open Net77.Base

section Start

variable {σ : Type} {rt : Runtime} {cfg : ServerConfig σ} {set : ConnSet}

theorem bindAddresses_leftWith (addresses : List ServerAddress) :
    LeftWith (bindAddresses addresses).2 (bindAddresses addresses).1 := by
  induction addresses with
  | nil => exact ClosesEverySocket.nil
  | cons address rest ih =>
    have hgiven := ih.after (.closed address.socket)
    unfold bindAddresses
    dsimp only
    split
    · exact ih
    · split
      · exact hgiven
      · split
        · exact ⟨[], rfl, .nil⟩
        · exact hgiven

/-- The socket that is bound. -/
def ServerWorld.bound (world : ServerWorld σ) : Option Int :=
  world.addresses.bind fun addresses => (bindAddresses addresses).1

/-- The calls for the sockets to listen. -/
def ServerWorld.opening (world : ServerWorld σ) : List SocketCall :=
  world.addresses.elim [] fun addresses => (bindAddresses addresses).2

theorem openListener_eq (world : ServerWorld σ) : openListener world =
    (if world.listen < 0 then none else world.bound, world.opening.map .listener) := by
  unfold openListener ServerWorld.bound ServerWorld.opening
  cases world.addresses with
  | none => simp
  | some addresses => rfl

theorem opening_leftWith (world : ServerWorld σ) : LeftWith world.opening world.bound := by
  unfold ServerWorld.opening ServerWorld.bound
  cases world.addresses with
  | none => exact ClosesEverySocket.nil
  | some addresses => exact bindAddresses_leftWith addresses

/-- A new set has no descriptor in its slots. -/
theorem newMcfsSet_knows
    (hnew : newMcfsSet rt (toSize cfg.maxConcurrentConnections) connItemSizes = .ok set) :
    Knows rt cfg [] set := by
  refine ⟨⟨[], (Serves.started hnew).enrolled⟩, ?_⟩
  rintro fd ⟨i, hi⟩
  unfold newMcfsSet at hnew
  split at hnew
  · contradiction
  · cases Except.ok.inj hnew
    obtain ⟨bytes, hread, -⟩ := bind_eq_ok.mp hi
    dsimp only at hread
    rw [List.drop_replicate] at hread
    cases hcells : categorySize rt (toSize cfg.maxConcurrentConnections) (connItemSizes 0) - i * 8 with
    | zero =>
      rw [hcells] at hread
      contradiction
    | succ n =>
      rw [hcells, List.replicate_succ] at hread
      contradiction

end Start

section Close

variable {shape : SetShape 4} {set : ConnSet} {conns : List Conn}

/-- At the end, exactly what is in the set is closed. -/
theorem HoldsConns.closeConns (h : HoldsConns shape set conns) :
    Net77.closeConns set set.len =
      .ok (conns.map fun conn => .served (.socket (.closed conn.fd))) := by
  have hfrom : ∀ n, n ≤ conns.length → Net77.closeConns set n =
      .ok ((conns.take n).map fun conn => .served (.socket (.closed conn.fd))) := by
    intro n
    induction n with
    | zero =>
      intro _
      rfl
    | succ n ih =>
      intro hn
      rw [Net77.closeConns, ih (by omega), ok_bind, h.loadFd hn, ok_bind,
        ← List.take_append_getElem hn, List.map_append]
      rfl
  rw [h.len_eq, hfrom _ le_rfl, List.take_length]

end Close

section Outcome

variable {σ : Type} {rt : Runtime} {cfg : ServerConfig σ} {world : ServerWorld σ}
  {res : ServerResult}

/-- The call comes as far as the main loop. -/
def Starts (rt : Runtime) (cfg : ServerConfig σ) (world : ServerWorld σ) : Prop :=
  0 ≤ world.listen ∧ rt.malloc (toSize cfg.withDefaults.maxConcurrentConnections * 8 % 2 ^ 64) = true

/-- A call that serves: what it has logged, and what is in the set in the end. -/
structure Stopped (rt : Runtime) (cfg : ServerConfig σ) (world : ServerWorld σ)
    (log : List RunEvent) (serverFd : Int) : Prop where
  bound : world.bound = some serverFd
  starts : Starts rt cfg world
  log_eq : ∃ set body clients, Enrolled rt cfg.withDefaults set clients ∧
    (∀ client ∈ clients, client.conn.fd ∈ acceptedFds body) ∧ ServesKnown [] body ∧
    (∀ event ∈ body, event ≠ .killAck ∧ ∀ call, event ≠ .listener call) ∧
    log = world.opening.map .listener ++ (body ++
      clients.map (fun client => .served (.socket (.closed client.conn.fd))) ++
      [.listener (.closed serverFd), .killAck])

theorem acceptLoop_events {set set' : ConnSet} {accepts : List Accepted} {log : List RunEvent}
    (h : acceptLoop cfg set accepts = .ok (set', log)) :
    ∀ event ∈ log, event ≠ .killAck ∧ ∀ call, event ≠ .listener call := by
  induction accepts generalizing set log with
  | nil =>
    cases Except.ok.inj h
    intro event hevent
    contradiction
  | cons conn rest ih =>
    unfold acceptLoop at h
    split at h
    · obtain ⟨⟨mid, calls⟩, -, h⟩ := bind_eq_ok.mp h
      obtain ⟨⟨last, logs⟩, hrest, h⟩ := bind_eq_ok.mp h
      cases Except.ok.inj h
      intro event hevent
      rw [List.cons_append, List.mem_cons, List.mem_append, List.mem_map] at hevent
      rcases hevent with rfl | ⟨call, -, rfl⟩ | hevent
      · simp
      · simp
      · exact ih hrest event hevent
    · cases Except.ok.inj h
      intro event hevent
      contradiction

theorem serveTurns_events {dataAddr : Nat} {turns : List (Turn σ)} {set set' : ConnSet}
    {log : List RunEvent} (hregular : ∀ turn ∈ turns, turn.Regular)
    (h : serveTurns rt cfg dataAddr turns set = .ok (set', log)) :
    ∀ event ∈ log, event ≠ .killAck ∧ ∀ call, event ≠ .listener call := by
  induction turns generalizing set log with
  | nil =>
    cases Except.ok.inj h
    intro event hevent
    contradiction
  | cons turn turns ih =>
    obtain ⟨⟨mid, first⟩, hturn, h⟩ := bind_eq_ok.mp h
    obtain ⟨⟨last, rest⟩, hrest, h⟩ := bind_eq_ok.mp h
    cases Except.ok.inj h
    obtain ⟨admittedSet, admitted, polled, passedSet, passed, watchedSet, watched, swept, idle,
      hadmitted, -, -, hwatched, -, hidle, rfl⟩ := serveTurn_cases hturn
    obtain ⟨-, hwatchedOnly⟩ := watchConns_edits (hregular turn List.mem_cons_self) hwatched
    intro event hevent
    simp only [List.mem_append, List.mem_map] at hevent
    rcases hevent with (hevent | ((⟨_, -, rfl⟩ | hevent) | ⟨_, -, rfl⟩) | hevent) | hevent
    · exact acceptLoop_events hadmitted event hevent
    · simp
    · obtain ⟨n, rfl⟩ := hwatchedOnly event hevent
      simp
    · simp
    · rw [hidle event hevent]
      simp
    · exact ih (fun other hother => hregular other (List.mem_cons_of_mem turn hother)) hrest
        event hevent

/-- A call that returns: it has given up before the main loop, or it has served. -/
theorem runServer_cases (hregular : ∀ turn ∈ world.turns, turn.Regular)
    (h : runServer rt cfg world = .ok res) :
    (res.status = 1 ∧ res.log = world.opening.map .listener ∧
        ¬ (world.bound.isSome ∧ Starts rt cfg world)) ∨
      (res.status = 0 ∧ ∃ serverFd, Stopped rt cfg world res.log serverFd) := by
  unfold runServer at h
  split at h
  · contradiction
  · rw [openListener_eq] at h
    by_cases hlisten : world.listen < 0
    · rw [if_pos hlisten] at h
      cases Except.ok.inj h
      refine .inl ⟨rfl, rfl, ?_⟩
      rintro ⟨-, hstarts, -⟩
      omega
    · rw [if_neg hlisten] at h
      cases hbound : world.bound with
      | none =>
        rw [hbound] at h
        cases Except.ok.inj h
        exact .inl ⟨rfl, rfl, fun hserves => by simp at hserves⟩
      | some serverFd =>
        rw [hbound] at h
        dsimp only at h
        obtain ⟨set, hnew, h⟩ := bind_eq_ok.mp h
        have hcap : set.cap = toSize cfg.withDefaults.maxConcurrentConnections :=
          (newMcfsSet_represents hnew).cap_eq
        have hsize : connItemSizes 0 = 8 := rfl
        rw [hcap, hsize] at h
        split at h
        · rename_i halloc
          obtain ⟨served, hserved, h⟩ := bind_eq_ok.mp h
          cases Except.ok.inj h
          refine .inr ⟨rfl, serverFd, hbound, ⟨by omega, halloc⟩, ?_⟩
          obtain ⟨⟨last, body⟩, hturns, hserved⟩ := bind_eq_ok.mp hserved
          obtain ⟨closed, hclosed, hserved⟩ := bind_eq_ok.mp hserved
          cases Except.ok.inj hserved
          obtain ⟨hserves, hlast⟩ := serveTurns_knows hregular (newMcfsSet_knows hnew) hturns
          rw [List.nil_append] at hlast
          obtain ⟨clients, henrolled⟩ := hlast.enrolled
          rw [henrolled.holds.closeConns, List.map_map] at hclosed
          cases Except.ok.inj hclosed
          refine ⟨last, body, clients, henrolled, ?_, hserves,
            serveTurns_events hregular hturns, rfl⟩
          intro client hclient
          obtain ⟨i, hi, rfl⟩ := List.getElem_of_mem hclient
          apply hlast.fds
          have hmapped : i < (clients.map Client.conn).length := by rwa [List.length_map]
          have hload := henrolled.holds.loadFd hmapped
          rw [List.getElem_map] at hload
          exact ⟨i, hload⟩
        · rename_i halloc
          cases Except.ok.inj h
          refine .inl ⟨rfl, rfl, ?_⟩
          rintro ⟨-, -, hmalloc⟩
          exact halloc hmalloc

/-- The calls on descriptors in a log. -/
def runCalls (log : List RunEvent) : List SocketCall :=
  log.filterMap fun event => match event with
    | .listener call => some call
    | .served (.socket call) => some call
    | _ => none

theorem runCalls_append (log more : List RunEvent) :
    runCalls (log ++ more) = runCalls log ++ runCalls more := List.filterMap_append

theorem runCalls_listener (calls : List SocketCall) :
    runCalls (calls.map .listener) = calls := by
  unfold runCalls
  rw [List.filterMap_map]
  exact List.filterMap_some

theorem runCalls_served (calls : List SocketCall) :
    runCalls (calls.map fun call => .served (.socket call)) = calls := by
  unfold runCalls
  rw [List.filterMap_map]
  exact List.filterMap_some

theorem acceptedFds_listener (calls : List SocketCall) :
    acceptedFds (calls.map .listener) = [] := by
  apply acceptedFds_eq_nil
  simp

/-- What is done while serving is done to accepted connections. -/
theorem ServesKnown.runCalls_mem {known : List Int} {log : List RunEvent}
    (h : ServesKnown known log) (hevents : ∀ event ∈ log, ∀ call, event ≠ .listener call) :
    ∀ call ∈ runCalls log, call.entry.key ∈ known ++ acceptedFds log := by
  intro call hcall
  obtain ⟨event, hevent, hsome⟩ := List.mem_filterMap.mp hcall
  obtain ⟨front, back, rfl⟩ := List.append_of_mem hevent
  rw [servesKnown_append] at h
  cases event with
  | listener other => exact absurd rfl (hevents _ hevent other)
  | served event =>
    cases event with
    | socket other =>
      cases Option.some.inj hsome
      have hknown := h.2.1 _ rfl
      rw [acceptedFds_append, ← List.append_assoc]
      exact List.mem_append_left _ hknown
    | _ => contradiction
  | _ => contradiction

/-- The history of a descriptor that is not an accepted one. -/
theorem Stopped.history {log : List RunEvent} {serverFd fd : Int}
    (h : Stopped rt cfg world log serverFd) (hother : fd ∉ acceptedFds log) :
    ((runCalls log).map SocketCall.entry).filter (fun entry => entry.key = fd) =
      ((world.opening ++ [SocketCall.closed serverFd]).map SocketCall.entry).filter
        fun entry => entry.key = fd := by
  obtain ⟨set, body, clients, -, hclients, hserves, hevents, rfl⟩ := h.log_eq
  have hend : acceptedFds (clients.map fun client =>
      RunEvent.served (.socket (.closed client.conn.fd))) = [] := by
    apply acceptedFds_eq_nil
    simp
  rw [acceptedFds_append, acceptedFds_listener, List.nil_append, acceptedFds_append,
    acceptedFds_append, hend, List.append_nil] at hother
  have hbody : fd ∉ acceptedFds body := fun hmem => hother (List.mem_append_left _ hmem)
  have hserved : ((runCalls body).map SocketCall.entry).filter (fun entry => entry.key = fd) =
      [] := by
    rw [List.filter_eq_nil_iff]
    intro entry hentry
    obtain ⟨call, hcall, rfl⟩ := List.mem_map.mp hentry
    have hmem := hserves.runCalls_mem (fun event hevent => (hevents event hevent).2) call hcall
    rw [List.nil_append] at hmem
    rw [decide_eq_true_eq]
    rintro rfl
    exact hbody hmem
  have hclosed : ((clients.map fun client => SocketCall.closed client.conn.fd).map
      SocketCall.entry).filter (fun entry => entry.key = fd) = [] := by
    rw [List.filter_eq_nil_iff]
    intro entry hentry
    obtain ⟨call, hcall, rfl⟩ := List.mem_map.mp hentry
    obtain ⟨client, hclient, rfl⟩ := List.mem_map.mp hcall
    rw [decide_eq_true_eq, SocketCall.key_closed]
    intro heq
    apply hbody
    rw [← heq]
    exact hclients client hclient
  have hlast : runCalls (clients.map fun client =>
      RunEvent.served (.socket (.closed client.conn.fd))) =
        clients.map fun client => SocketCall.closed client.conn.fd := by
    have hcalls := runCalls_served (clients.map fun client => SocketCall.closed client.conn.fd)
    rwa [List.map_map] at hcalls
  have htail : runCalls [.listener (.closed serverFd), .killAck] = [.closed serverFd] := rfl
  rw [runCalls_append, runCalls_listener, runCalls_append, runCalls_append, hlast, htail]
  simp only [List.map_append, List.filter_append]
  rw [hserved, hclosed, List.nil_append, List.nil_append]

/-- Everything that is received from, handed over, closed or reported in a run is a
descriptor that `accept` has returned before. -/
theorem runServer_accepted_before (hregular : ∀ turn ∈ world.turns, turn.Regular)
    (h : runServer rt cfg world = .ok res) {front back : List RunEvent} {event : ServerEvent}
    (hlog : res.log = front ++ .served event :: back) {fd : Int} (hfd : event.fd? = some fd) :
    fd ∈ acceptedFds front := by
  have hserves : ServesKnown [] res.log := by
    rcases runServer_cases hregular h with ⟨-, hlog, -⟩ | ⟨-, serverFd, hstopped⟩
    · rw [hlog]
      apply ServesKnown.of_served <;> simp
    · obtain ⟨set, body, clients, -, hclients, hserves, -, hlog⟩ := hstopped.log_eq
      rw [hlog, servesKnown_append, acceptedFds_listener, List.append_nil, servesKnown_append,
        servesKnown_append]
      refine ⟨?_, ⟨hserves, ?_⟩, ?_⟩
      · apply ServesKnown.of_served <;> simp
      · apply ServesKnown.of_served
        · simp
        · intro event hevent fd hfd
          obtain ⟨client, hclient, heq⟩ := List.mem_map.mp hevent
          cases heq
          rw [← Option.some.inj hfd, SocketCall.key_closed]
          exact List.mem_append_right _ (hclients client hclient)
      · apply ServesKnown.of_served <;> simp
  exact hserves.accepted_before hlog hfd

end Outcome

def firstConn : Accepted := setUpConn 5 #v[127, 0, 0, 1]

/-- A connection sends a byte, and the server is asked to stop. -/
def oneTurn : Turn Unit := ⟨[firstConn], 1, fun _ => pollin, fun _ => oneByte, none, 8⟩

theorem oneTurn_regular : ∀ turn ∈ [oneTurn], turn.Regular := by
  intro turn hturn
  rw [List.mem_singleton.mp hturn]
  refine ⟨by decide, ?_⟩
  intro watch hwatch
  contradiction

/-- The first address cannot be bound. -/
def oneTurnWorld : ServerWorld Unit :=
  ⟨80, some [⟨3, 0, 0, 0, 0, 1⟩, ⟨4, 0, 0, 0, 0, 0⟩], 0, 2 ^ 46, [oneTurn]⟩

theorem oneTurnWorld_runs : ∃ res back, runServer .unlimited smallServer oneTurnWorld = .ok res ∧
    res.status = 0 ∧ res.log = [.listener (.opened 3), .listener (.closed 3),
      .listener (.opened 4), .accepted 5, .served (.visited 0 1)] ++
        .served (.received 5) :: back := by
  have hrun : (runServer .unlimited smallServer oneTurnWorld).map (fun res =>
      (res.status, res.log.take 6)) = .ok (0, [.listener (.opened 3), .listener (.closed 3),
        .listener (.opened 4), .accepted 5, .served (.visited 0 1), .served (.received 5)]) := by
    decide +kernel
  cases hres : runServer .unlimited smallServer oneTurnWorld with
  | error stop =>
    rw [hres] at hrun
    contradiction
  | ok res =>
    rw [hres] at hrun
    obtain ⟨hstatus, hfront⟩ := Prod.mk.inj (Except.ok.inj hrun)
    refine ⟨res, res.log.drop 6, rfl, hstatus, ?_⟩
    have hsplit := List.take_append_drop 6 res.log
    rw [hfront] at hsplit
    exact hsplit.symm

theorem runServer_accepted_before_oneTurn : ∃ res front back,
    runServer .unlimited smallServer oneTurnWorld = .ok res ∧
      res.log = front ++ .served (.received 5) :: back ∧ 5 ∈ acceptedFds front := by
  obtain ⟨res, back, hrun, -, hlog⟩ := oneTurnWorld_runs
  exact ⟨res, _, back, hrun, hlog, runServer_accepted_before oneTurn_regular hrun hlog rfl⟩

end Net77
