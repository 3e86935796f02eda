import Mathlib.Data.Fin.VecNotation
import Net77.Base.LittleEndian
import Net77.Mcfss
import Net77.Transfer

/-! The main loop of `runServer` in `lib/server.c`, for POSIX. The connections are
the entries of `timed_conn_pollfds`: a `pollfd`, the last-use time, the timeout
and the client's address. Everything is loaded from the bytes of the set and
stored there. -/
namespace Net77

open Net77.Base

abbrev ConnSet := MultiCategoryFixedSizeSet 4

/-- The sizes of `struct pollfd`, `size_t`, `ssize_t` and `IpAddrStorage`. -/
def connItemSizes : Fin 4 → Nat := ![8, 8, 8, 20]

def pollin : Nat := 0x1
def pollerr : Nat := 0x8
def pollhup : Nat := 0x10
def pollnval : Nat := 0x20

def afInet : Nat := 2
def afInet6 : Nat := 10

/-- What `accept` says about the client. -/
inductive SockAddr where
  | inet (addr : Vector Byte 4)
  | inet6 (addr : Vector Byte 16)
  | other (family : Nat)
  deriving DecidableEq

structure IpAddrStorage where
  family : Nat
  addr : Vector Byte 16
  deriving DecidableEq

def IpAddrStorage.bytes (storage : IpAddrStorage) : Bytes :=
  leBytes 4 storage.family ++ storage.addr.toList

/-- `memcpy(&out.addr, addr_ptr, sizeof(*addr_ptr))` into zeros. The pointer is one
to `void`, whose size is 1. -/
def copyAddr (first : Byte) : Vector Byte 16 := (Vector.replicate 16 0).set 0 first

def ipAddrStorageFromSockaddr : SockAddr → Except Stop IpAddrStorage
  | .inet addr => pure ⟨afInet, copyAddr addr[0]⟩
  | .inet6 addr => pure ⟨afInet6, copyAddr addr[0]⟩
  | .other _ => .error (.fault .assertFailed)

/-- The rest of the loop of `countInArray`. -/
def countInArrayFrom (data item : List (Option Byte)) (itemSize i : Nat) : Nat → Except Stop Nat
  | 0 => pure 0
  | rest + 1 => do
    let found ← memEq (data.drop (i * itemSize % 2 ^ 64)) item itemSize
    let count ← countInArrayFrom data item itemSize (i + 1) rest
    pure (if found then count + 1 else count)

def countInArray (data : List (Option Byte)) (len : Nat) (item : List (Option Byte))
    (itemSize : Nat) : Except Stop Nat :=
  countInArrayFrom data item itemSize 0 len

/-- The parameters of `runServer` that the loop reads. -/
structure ServerConfig (σ : Type) where
  maxConcurrentConnections : Int
  maxConnsPerIp : Int
  serverBufSize : Int
  maxRequestSize : Nat
  defaultConnectionTimeoutUsec : Int
  enableDelayingSockets : Bool
  poolSize : Nat
  keepReceivingController : Option (RecvController σ)

section Memory

variable (set : ConnSet)

/-- `pfd->fd`, for a pointer to the given slot of the first array. -/
def loadFd (slot : Nat) : Except Stop Int := do
  let bytes ← readCells ((set.data 0).drop (slot * 8)) 4
  pure (toInt (leNat bytes))

/-- `pfd->revents`. -/
def loadRevents (slot : Nat) : Except Stop Nat := do
  let bytes ← readCells ((set.data 0).drop (slot * 8 + 6)) 2
  pure (leNat bytes)

/-- Bytes stored in one of the arrays. -/
def storeAt (cat : Fin 4) (off : Nat) (bytes : Bytes) : Except Stop ConnSet := do
  let cells ← writeCells (set.data cat) off bytes
  pure { set with data := Function.update set.data cat cells }

/-- `pfd->revents = ...`. -/
def storeRevents (slot revents : Nat) : Except Stop ConnSet :=
  storeAt set 0 (slot * 8 + 6) (leBytes 2 revents)

/-- What `poll` does to the given number of entries. -/
def pollInto (revents : Nat → Nat) : Nat → Except Stop ConnSet
  | 0 => pure set
  | n + 1 => do
    let set ← pollInto revents n
    storeRevents set n (revents n)

end Memory

/-- A connection that `accept` returns, with the results of the calls that set it
up and the time. -/
structure Accepted where
  socket : Int
  nonBlocking : Int
  keepalive : Int
  noDelay : Int
  addr : SockAddr
  time : Nat

section Accept

variable {σ : Type} (cfg : ServerConfig σ)

/-- The condition for closing the socket at once. The whole disjunction is the
condition of the `?:` behind it. -/
def setupRefused (conn : Accepted) : Bool :=
  if conn.nonBlocking ≠ 0 ∨ conn.keepalive ≠ 0 ∨ cfg.enableDelayingSockets then false
  else conn.noDelay ≠ 0

/-- The `pollfd` of a new connection. -/
def newPollfd (socket : Int) : Bytes :=
  leBytes 4 (socket % 2 ^ 32).toNat ++ leBytes 2 (pollin ||| pollerr ||| pollhup ||| pollnval) ++
    leBytes 2 0

def newItems (conn : Accepted) (ip : IpAddrStorage) : Fin 4 → Bytes :=
  ![newPollfd conn.socket, leBytes 8 conn.time,
    leBytes 8 (toSize cfg.defaultConnectionTimeoutUsec), ip.bytes]

/-- The body of the accept loop: the set, and what is closed. -/
def acceptConn (set : ConnSet) (conn : Accepted) : Except Stop (ConnSet × List SocketCall) :=
  if setupRefused cfg conn then pure (set, [.closed conn.socket])
  else do
    let ip ← ipAddrStorageFromSockaddr conn.addr
    let nConnsFromIp ← countInArray (set.data 3) set.len (ip.bytes.map some) 20
    if nConnsFromIp < toSize cfg.maxConnsPerIp then
      let (set, full) ← mcfsSetAdd set (newItems cfg conn ip) 0
      pure (set, if full ≠ 0 then [.closed conn.socket] else [])
    else pure (set, [.closed conn.socket])

end Accept

/-- What a call of `recvAllData` and the handler behind it meet: the state of the
controller, the bytes from the peer, the results of `poll`, whether `discard_conn`
is set afterwards, and the time. -/
structure Arrival (σ : Type) where
  state : σ
  stream : Bytes
  events : List SocketEvent
  discard : Bool
  time : Nat

inductive ServerEvent where
  | visited (slot len : Nat)
  | received (fd : Int)
  | dispatched (fd : Int) (sockIsClosed : Bool) (data : OwnedString)
  | socket (call : SocketCall)
  deriving DecidableEq

section Poll

variable {σ : Type} (rt : Runtime) (cfg : ServerConfig σ)

/-- `server_buf_size` behind the default. -/
def bufSize : Int := if cfg.serverBufSize < 0 then 32768 else cfg.serverBufSize

def maxReqSize : Int :=
  if 0x7FFFFFFFFFFFFFFF < cfg.maxRequestSize then 0x7FFFFFFFFFFFFFFF else cfg.maxRequestSize

def receive (fd : Int) (arrival : Arrival σ) : Except Stop RecvResult := do
  let builder ← newStringBuilder rt (toSize (bufSize cfg))
  recvAllData rt fd builder (maxReqSize cfg) false (bufSize cfg) cfg.keepReceivingController
    arrival.state arrival.stream arrival.events

/-- `err || conn_was_closed || builder.len == 0`. -/
def endsConn (res : RecvResult) : Bool := res.status ≠ 0 ∨ res.closedSock ∨ res.builder.len = 0

/-- The entry is removed, or its last-use time reset through the pointer that the
lookup returns. The last component is `conn_was_closed`. -/
def noteReception (set : ConnSet) (slot : Nat) (fd : Int) (time : Nat) (res : RecvResult) :
    Except Stop (ConnSet × List SocketCall × Bool) :=
  if endsConn res then do
    let set ← storeRevents set slot 0
    let (set, missing) ← mcfsSetRemove set ((set.data 0).drop (slot * 8)) 0
    pure (set, if missing = 0 ∧ 0 < res.status then [.closed fd] else [], true)
  else do
    match ← mcfsSetGetAssocItemPtr set ((set.data 0).drop (slot * 8)) 0 1 with
    | none => .error (.fault .outOfBounds)
    | some off =>
      let set ← storeAt set 1 off (leBytes 8 time)
      pure (set, [], res.closedSock)

/-- The string for the handler. Its arguments are allocated for a pool with
workers, and that `malloc` is not checked. -/
def dispatchConn (fd : Int) (connWasClosed : Bool) (res : RecvResult) :
    Except Stop (List ServerEvent) :=
  if res.status ≠ 0 ∨ (res.builder.len = 0 ∧ connWasClosed) then pure []
  else do
    let (str, _) ← stringBuilderBuildAndDestroy rt res.builder
    if cfg.poolSize ≠ 0 ∧ !rt.malloc 48 then .error (.fault .outOfBounds)
    else pure [.dispatched fd connWasClosed str]

/-- The bytes of the variable `pfd`, where `dataAddr` is the address of the array
that it points into. -/
def pointerBytes (dataAddr slot : Nat) : Bytes := leBytes 8 (dataAddr + slot * 8)

/-- `pfd->revents = 0` and `mcfsSetRemove(&timed_conn_pollfds, (const char *) &pfd, 0)`:
what is looked for is the pointer, not what it points to. -/
def removeFinished (dataAddr : Nat) (set : ConnSet) (slot : Nat) :
    Except Stop (ConnSet × Bool) := do
  let set ← storeRevents set slot 0
  let (set, missing) ← mcfsSetRemove set ((pointerBytes dataAddr slot).map some) 0
  pure (set, missing = 0)

/-- The branch for `POLLALLIN`. -/
def receiveConn (dataAddr : Nat) (set : ConnSet) (slot : Nat) (fd : Int) (arrival : Arrival σ) :
    Except Stop (ConnSet × List ServerEvent × Bool) := do
  let res ← receive rt cfg fd arrival
  let (set, calls, connWasClosed) ← noteReception set slot fd arrival.time res
  let dispatched ← dispatchConn rt cfg fd connWasClosed res
  let log := .received fd :: (res.calls ++ calls).map .socket ++ dispatched
  if arrival.discard ∧ !connWasClosed then
    let (set, found) ← removeFinished dataAddr set slot
    pure (set, log ++ if found then [.socket (.closed fd)] else [], true)
  else pure (set, log, connWasClosed)

/-- The branches for `POLLERR`, `POLLHUP` and `POLLNVAL`. -/
def finishConn (dataAddr : Nat) (set : ConnSet) (slot : Nat) (fd : Int) :
    Except Stop (ConnSet × List ServerEvent × Bool) := do
  let revents ← loadRevents set slot
  if revents &&& (pollerr ||| pollhup) ≠ 0 then
    let (set, found) ← removeFinished dataAddr set slot
    pure (set, if found then [.socket (.closed fd)] else [], true)
  else if revents &&& pollnval ≠ 0 then
    let (set, _) ← removeFinished dataAddr set slot
    pure (set, [.socket (.invalid fd)], true)
  else pure (set, [], false)

/-- The body of the poll loop for one slot. The last component says whether the
pointer is stepped back. -/
def handleConn (dataAddr : Nat) (arrival : Arrival σ) (set : ConnSet) (slot : Nat) :
    Except Stop (ConnSet × List ServerEvent × Bool) := do
  let fd ← loadFd set slot
  let revents ← loadRevents set slot
  let (set, log, connWasClosed) ←
    if revents &&& pollin ≠ 0 then receiveConn rt cfg dataAddr set slot fd arrival
    else pure (set, [], false)
  if connWasClosed then pure (set, log, true)
  else
    let (set, more, connWasClosed) ← finishConn dataAddr set slot fd
    pure (set, log ++ more, connWasClosed)

/-- The descriptors that `recvAllData` was called for. -/
def receivedFds (log : List ServerEvent) : List Int :=
  log.filterMap fun event => match event with
    | .received fd => some fd
    | _ => none

/-- The rest of the poll loop, from a slot to the end that was computed in front of
it. The arrivals are met one after the other. Stepping the pointer back and the
increment of the loop lead to the same slot again. A pass that takes more than
`fuel` rounds counts as one that does not end. -/
def pollLoop (dataAddr : Nat) (arrivals : Nat → Arrival σ) (endSlot : Nat) :
    (fuel slot received : Nat) → ConnSet → Except Stop (ConnSet × List ServerEvent)
  | 0, slot, _, set => if slot < endSlot then .error .blocked else pure (set, [])
  | fuel + 1, slot, received, set =>
    if slot < endSlot then do
      let (set', log, again) ← handleConn rt cfg dataAddr (arrivals received) set slot
      let (set'', logs) ← pollLoop dataAddr arrivals endSlot fuel
        (if again then slot else slot + 1) (received + (receivedFds log).length) set'
      pure (set'', .visited slot set.len :: log ++ logs)
    else pure (set, [])

end Poll

section Sweep

/-- The loop that checks for timeouts, from an index on. Removing steps the index
back. -/
def sweepLoop (timeNow : Nat) : (fuel i : Nat) → ConnSet → Except Stop (ConnSet × List SocketCall)
  | 0, i, set => if i < set.len then .error .blocked else pure (set, [])
  | fuel + 1, i, set =>
    if i < set.len then do
      let timeLastUsage ← readCells ((set.data 1).drop (i * 8)) 8
      let connTimeout ← readCells ((set.data 2).drop (i * 8)) 8
      if 0 ≤ toSsize (leNat connTimeout) ∧
          toSsize (leNat connTimeout) < toSize (timeNow - leNat timeLastUsage) then
        let (set, _) ← mcfsSetRemove set ((set.data 0).drop (i * 8)) 0
        -- the memory behind the pointer has been moved meanwhile
        let fd ← loadFd set i
        let (set, calls) ← sweepLoop timeNow fuel i set
        pure (set, .closed fd :: calls)
      else sweepLoop timeNow fuel (i + 1) set
    else pure (set, [])

end Sweep

end Net77
