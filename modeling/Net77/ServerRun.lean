import Net77.Server
import Net77.Sock

/-! `runServer` of `lib/server.c` for POSIX from its start to its end. What the
system calls, the handler and the watcher do in a turn of the main loop is given. -/
namespace Net77

open Net77.Base

/-- What the calls for one address of the list return. -/
structure ServerAddress where
  socket : Int
  reuseAddr : Int
  reusePort : Int
  getFlags : Int
  setFlags : Int
  bind : Int

/-- The loop over the addresses, up to the first one that can be bound. -/
def bindAddresses : List ServerAddress → Option Int × List SocketCall
  | [] => (none, [])
  | address :: rest =>
    let (fd, calls) := bindAddresses rest
    if address.socket < 0 then (fd, calls)
    else if address.reuseAddr ≠ 0 ∨ address.reusePort ≠ 0 ∨
        makeSocketNonBlocking address.getFlags address.setFlags ≠ 0 then
      (fd, .opened address.socket :: .closed address.socket :: calls)
    else if address.bind = 0 then (some address.socket, [.opened address.socket])
    else (fd, .opened address.socket :: .closed address.socket :: calls)

/-- `DEFAULT_MAX_ACCEPTED_CONNECTIONS`. -/
def defaultMaxAcceptedConnections : Int := 16

def ServerConfig.withDefaults {σ : Type} (cfg : ServerConfig σ) : ServerConfig σ :=
  { cfg with maxConcurrentConnections :=
      if cfg.maxConcurrentConnections < 0 then defaultMaxAcceptedConnections
      else cfg.maxConcurrentConnections }

/-- What a turn of the main loop meets: the connections that `accept` returns before
it fails, the result of `poll` and what it reports, the receptions, what the watcher
does to the set if there is one, and the time of the sweep. -/
structure Turn (σ : Type) where
  accepts : List Accepted
  pollRet : Int
  revents : Nat → Nat
  arrivals : Nat → Arrival σ
  watcher : Option (ConnSet → ConnSet)
  timeNow : Nat

/-- The turns are the ones up to the request to stop. -/
structure ServerWorld (σ : Type) where
  port : Int
  addresses : Option (List ServerAddress)
  listen : Int
  dataAddr : Nat
  turns : List (Turn σ)

inductive RunEvent where
  | listener (call : SocketCall)
  | accepted (fd : Int)
  | served (event : ServerEvent)
  | watched (nOpenConns : Nat) (newConnAttempt : Bool) (pollRet : Int)
  | yielded
  | killAck
  deriving DecidableEq

structure ServerResult where
  status : Int
  log : List RunEvent

section Run

variable {σ : Type} (rt : Runtime) (cfg : ServerConfig σ)

/-- `accept` is called as long as there is room. -/
def acceptLoop (set : ConnSet) : List Accepted → Except Stop (ConnSet × List RunEvent)
  | [] => pure (set, [])
  | conn :: rest =>
    if set.len < set.cap ∧ 0 ≤ conn.socket then do
      let (set, calls) ← acceptConn cfg set conn
      let (set, log) ← acceptLoop set rest
      pure (set, .accepted conn.socket :: calls.map (fun call => .served (.socket call)) ++ log)
    else pure (set, [])

/-- `poll` stores what it reports, unless it fails. -/
def pollConns (turn : Turn σ) (set : ConnSet) : Except Stop ConnSet :=
  if 0 ≤ turn.pollRet then pollInto set turn.revents set.len else pure set

/-- The pass behind `poll`. Three rounds for each entry are enough. -/
def passConns (dataAddr : Nat) (turn : Turn σ) (set : ConnSet) :
    Except Stop (ConnSet × List ServerEvent) :=
  if 0 < turn.pollRet then
    pollLoop rt cfg dataAddr turn.arrivals set.len (3 * set.len) 0 0 set
  else pure (set, [])

def watchConns (turn : Turn σ) (newConnAttempt : Bool) (set : ConnSet) :
    ConnSet × List RunEvent :=
  match turn.watcher with
  | none => (set, [])
  | some watch => (watch set, [.watched set.len newConnAttempt turn.pollRet])

/-- The body of the main loop. -/
def serveTurn (dataAddr : Nat) (turn : Turn σ) (set : ConnSet) :
    Except Stop (ConnSet × List RunEvent) := do
  let (set, admitted) ← acceptLoop cfg set turn.accepts
  let newConnAttempt := !admitted.isEmpty
  let set ← pollConns turn set
  let (set, passed) ← passConns rt cfg dataAddr turn set
  let (set, watched) := watchConns turn newConnAttempt set
  let (set, swept) ← sweepLoop turn.timeNow set.len 0 set
  let idle := if turn.pollRet ≤ 0 ∧ !newConnAttempt then [.yielded] else []
  pure (set, admitted ++ passed.map .served ++ watched ++
    swept.map (fun call => .served (.socket call)) ++ idle)

def serveTurns (dataAddr : Nat) :
    List (Turn σ) → ConnSet → Except Stop (ConnSet × List RunEvent)
  | [], set => pure (set, [])
  | turn :: turns, set => do
    let (set, log) ← serveTurn rt cfg dataAddr turn set
    let (set, logs) ← serveTurns dataAddr turns set
    pure (set, log ++ logs)

/-- The loop that closes what is in the set at the end. -/
def closeConns (set : ConnSet) : Nat → Except Stop (List RunEvent)
  | 0 => pure []
  | n + 1 => do
    let log ← closeConns set n
    let fd ← loadFd set n
    pure (log ++ [.served (.socket (.closed fd))])

/-- `runServer` from the first turn on. -/
def serveAndStop (dataAddr : Nat) (serverFd : Int) (turns : List (Turn σ)) (set : ConnSet) :
    Except Stop (List RunEvent) := do
  let (set, log) ← serveTurns rt cfg dataAddr turns set
  let closed ← closeConns set set.len
  pure (log ++ closed ++ [.listener (.closed serverFd), .killAck])

/-- The socket to listen, or what has been tried to get it. -/
def openListener (world : ServerWorld σ) : Option Int × List RunEvent :=
  match world.addresses with
  | none => (none, [])
  | some addresses =>
    let (fd, calls) := bindAddresses addresses
    (if world.listen < 0 then none else fd, calls.map .listener)

def runServer (world : ServerWorld σ) : Except Stop ServerResult :=
  if ¬ (0 ≤ world.port ∧ world.port ≤ 65536) then .error (.fault .assertFailed)
  else
    match openListener world with
    | (none, log) => pure ⟨1, log⟩
    | (some serverFd, log) => do
      let set ← newMcfsSet rt (toSize cfg.withDefaults.maxConcurrentConnections) connItemSizes
      -- the first array is the only one whose allocation is checked
      if rt.malloc (set.cap * connItemSizes 0 % 2 ^ 64) then
        let served ← serveAndStop rt cfg.withDefaults world.dataAddr serverFd world.turns set
        pure ⟨0, log ++ served⟩
      else pure ⟨1, log⟩

end Run

end Net77
