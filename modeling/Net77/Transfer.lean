import Net77.StringBuilder
import Net77.Utils

/-! `sendAllData` and `recvAllData` of `lib/utils.c`. Time does not appear: the
environment decides whether a `poll` times out. -/
namespace Net77

open Net77.Base

/-- The flags of `revents`. A descriptor that is not open is in no other state. -/
structure Revents where
  pollin : Bool
  pollout : Bool
  pollerr : Bool
  pollhup : Bool
  pollnval : Bool
  nval_alone : pollnval = true → pollerr = false ∧ pollhup = false

/-- Readiness, and nothing else. -/
def Revents.only (pollin pollout : Bool) : Revents :=
  ⟨pollin, pollout, false, false, false, by decide⟩

inductive PollOutcome where
  | failed
  | timedOut
  | ready (revents : Revents)

/-- A `poll`, and how much the transfer behind it moves if it gets that far. -/
structure SocketEvent where
  poll : PollOutcome
  size : Nat

/-- What happens to a descriptor: `socket` returns it, `close` is called on it,
or `poll` reports that it is not open. -/
inductive SocketCall where
  | opened (fd : Int)
  | closed (fd : Int)
  | invalid (fd : Int)
  deriving DecidableEq, Repr

structure SendResult where
  status : Int
  closedSock : Bool
  sent : Bytes
  calls : List SocketCall
  events : List SocketEvent

/-- The loop of `sendAllData`. `send` accepts what the event allows, maybe nothing. -/
def sendLoop (fd : Int) (buf : Bytes) (len : Nat) (sent : Bytes) :
    List SocketEvent → Except Stop SendResult
  | [] => if sent.length < len then .error .blocked else pure ⟨0, false, sent, [], []⟩
  | event :: events =>
    if sent.length < len then
      match event.poll with
      | .failed => pure ⟨1, false, sent, [], events⟩
      | .timedOut => pure ⟨0, false, sent, [], events⟩
      | .ready r =>
        if r.pollerr then pure ⟨-1, true, sent, [.closed fd], events⟩
        else if r.pollhup then pure ⟨-1, true, sent, [.closed fd], events⟩
        else if r.pollnval then pure ⟨-1, true, sent, [.invalid fd], events⟩
        else if !r.pollout then .error (.fault .assertFailed)
        else
          let size := min event.size (len - sent.length)
          if buf.length < sent.length + size then .error (.fault .outOfBounds)
          else sendLoop fd buf len (sent ++ (buf.drop sent.length).take size) events
    else pure ⟨0, false, sent, [], event :: events⟩

def sendAllData (fd : Int) (buf : Bytes) (len : Nat) (events : List SocketEvent) :
    Except Stop SendResult :=
  sendLoop fd buf len [] events

inductive RecvAction where
  | none
  | rejectRequest
  | finished
  deriving DecidableEq, Repr

/-- A `RecvAllDataControllerCallbackFunc`: from the received bytes, or NULL, the
capacity behind the pointer, `n`, `max_len` and the controller state. -/
abbrev RecvController (σ : Type) :=
  Option Bytes → (cap n : Nat) → Int → σ → Except Stop (Int × RecvAction × σ)

/-- The arguments that stay the same during a call. `sb_min_cap` is the value
behind the default. -/
structure RecvCall (σ : Type) where
  fd : Int
  sbMinCap : Int
  timeoutIsError : Bool
  initialLen : Nat
  controller : Option (RecvController σ)

/-- The variables of `recvAllData`, the bytes that the peer sends until it closes
the connection, and the calls on the descriptor so far. -/
structure RecvState (σ : Type) where
  builder : StringBuilder
  maxLen : Int
  received : Nat
  state : σ
  stream : Bytes
  closedSock : Bool
  calls : List SocketCall

structure RecvResult where
  status : Int
  builder : StringBuilder
  closedSock : Bool
  received : Nat
  stream : Bytes
  calls : List SocketCall
  events : List SocketEvent

/-- How an iteration of the receive loop ends: with the next test of the loop
condition or at the `done` label. -/
inductive RecvNext (σ : Type) where
  | again (st : RecvState σ)
  | done (ec : Int) (st : RecvState σ)

namespace RecvState

variable {σ : Type}

/-- `max_len < 0 || bytes_received < max_len`. -/
def wantsMore (st : RecvState σ) : Bool := st.maxLen < 0 || st.received < st.maxLen

def close (st : RecvState σ) (fd : Int) : RecvState σ :=
  { st with closedSock := true, calls := st.calls ++ [.closed fd] }

def reportInvalid (st : RecvState σ) (fd : Int) : RecvState σ :=
  { st with closedSock := true, calls := st.calls ++ [.invalid fd] }

/-- The code behind the `done` label. -/
def finish (st : RecvState σ) (ec : Int) (events : List SocketEvent) : RecvResult :=
  { status := if 0 ≤ st.maxLen ∧ st.maxLen < st.received then 1 else ec
    builder := st.builder
    closedSock := st.closedSock
    received := st.received
    stream := st.stream
    calls := st.calls
    events }

end RecvState

/-- `builder->cap - builder->len`. -/
def capLeft (builder : StringBuilder) : Nat := toSize (builder.cap - builder.len)

/-- The expansion in front of a `recv`. -/
def reserveRecv (rt : Runtime) (builder : StringBuilder) (sbMinCap : Int) :
    Except Stop StringBuilder :=
  if capLeft builder < toSize sbMinCap then
    stringBuilderExpandBuf rt builder
      (toSize (builder.cap + (sbMinCap + builder.len - builder.cap)))
  else pure builder

/-- The length that `recv` is called with. -/
def recvRequest (builder : StringBuilder) (maxLen : Int) (received : Nat) : Nat :=
  let bytesToRead := optMin (toSsize (capLeft builder)) (toSsize (maxLen - received))
  toSize (if bytesToRead ≤ 0 then -1 else bytesToRead)

/-- `recv` into the builder: at least one byte if there is one to come. -/
def recvInto (rt : Runtime) (builder : StringBuilder) (sbMinCap maxLen : Int) (received : Nat)
    (stream : Bytes) (size : Nat) : Except Stop (StringBuilder × Bytes) := do
  let builder ← reserveRecv rt builder sbMinCap
  let chunk := stream.take (min (size + 1) (recvRequest builder maxLen received))
  if chunk = [] then pure (builder, [])
  else
    let cells ← writeCells builder.data builder.len chunk
    pure (⟨builder.len + chunk.length, builder.cap, cells⟩, chunk)

section Receive

variable {σ : Type} (rt : Runtime) (call : RecvCall σ)

/-- `builder->data + initial_sb_len` as far as bytes were received. -/
def receivedBytes (st : RecvState σ) : Except Stop (Option Bytes) :=
  if st.builder.cap = 0 then pure none
  else do
    let bytes ← readCells (st.builder.data.drop call.initialLen) st.received
    pure (some bytes)

/-- The call of the controller and `DO_RECV_CONTROLLER_COMMANDED_ACTION`. -/
def runController (st : RecvState σ) : Except Stop (RecvNext σ) :=
  match call.controller with
  | none => pure (.again st)
  | some controller => do
    let buf ← receivedBytes call st
    let (maxLen, action, state) ←
      controller buf (st.builder.cap - call.initialLen) st.received st.maxLen st.state
    let st := { st with maxLen, state }
    match action with
    | .none => pure (.again st)
    | .rejectRequest => pure (.done 1 st)
    | .finished => pure (.done 0 st)

/-- The part of an iteration behind the tests of `revents`. -/
def recvChunk (size : Nat) (st : RecvState σ) : Except Stop (RecvNext σ) := do
  let (builder, chunk) ←
    recvInto rt st.builder call.sbMinCap st.maxLen st.received st.stream size
  let st := { st with builder, received := st.received + chunk.length,
                      stream := st.stream.drop chunk.length }
  if chunk = [] then pure (.done 0 (st.close call.fd)) else runController call st

/-- One iteration of the receive loop. -/
def recvStep (event : SocketEvent) (st : RecvState σ) : Except Stop (RecvNext σ) :=
  match event.poll with
  | .failed => pure (.done 1 st)
  | .timedOut => pure (.done (if call.timeoutIsError then 1 else 0) st)
  | .ready r =>
    if r.pollerr then pure (.done (-1) (st.close call.fd))
    else if r.pollhup && !r.pollin then pure (.done 0 (st.close call.fd))
    else if !r.pollhup && r.pollnval then pure (.done (-1) (st.reportInvalid call.fd))
    else if !r.pollin then .error (.fault .assertFailed)
    else recvChunk rt call event.size st

def recvLoop : List SocketEvent → RecvState σ → Except Stop RecvResult
  | [], st => if st.wantsMore then .error .blocked else pure (st.finish 0 [])
  | event :: events, st =>
    if st.wantsMore then do
      match ← recvStep rt call event st with
      | .again st => recvLoop events st
      | .done ec st => pure (st.finish ec events)
    else pure (st.finish 0 (event :: events))

end Receive

/-- `DEFAULT_RECV_ALL_DATA_SB_MIN_CAP`. -/
def defaultSbMinCap : Int := 1024

/-- `state` is the controller's own memory, zeroed, or the one shared by its callers. -/
def recvAllData {σ : Type} (rt : Runtime) (fd : Int) (builder : StringBuilder) (maxLen : Int)
    (timeoutIsError : Bool) (sbMinCap : Int) (controller : Option (RecvController σ)) (state : σ)
    (stream : Bytes) (events : List SocketEvent) : Except Stop RecvResult := do
  let sbMinCap := if sbMinCap < 0 then defaultSbMinCap else sbMinCap
  let builder ← growFor rt builder (toSize sbMinCap)
  let call : RecvCall σ := ⟨fd, sbMinCap, timeoutIsError, builder.len, controller⟩
  match ← runController call ⟨builder, maxLen, 0, state, stream, false, []⟩ with
  | .again st => recvLoop rt call events st
  | .done ec st => pure (st.finish ec events)

end Net77
