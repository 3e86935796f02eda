import Net77.Transfer

/-! `lib/sock.c` for POSIX. The results of the system calls are parameters; what
happens to descriptors is logged. -/
namespace Net77

open Net77.Base

/-- What the calls for one address of the list return. -/
structure AddressOutcome where
  socket : Int
  reuse : Int
  recvTimeout : Int
  sendTimeout : Int
  keepalive : Int
  noDelay : Int
  connect : Int

/-- The list of `getaddrinfo`, if there is one, and the results of `fcntl`. -/
structure ConnectOutcome where
  addresses : Option (List AddressOutcome)
  getFlags : Int
  setFlags : Int

def setSendRecvTimeout (timeoutUsec recvTimeout sendTimeout : Int) : Int :=
  if 0 ≤ timeoutUsec then
    if recvTimeout ≠ 0 ∨ sendTimeout ≠ 0 then 1 else 0
  else 0

def makeSocketNonBlocking (getFlags setFlags : Int) : Int :=
  if getFlags < 0 then getFlags
  else if setFlags < 0 then setFlags
  else 0

/-- The condition for giving a socket up before `connect`. The whole disjunction
is the condition of the `?:` behind it. -/
def optionsRefused (address : AddressOutcome) (timeoutUsec : Int) (enableDelaying : Bool) : Bool :=
  if address.reuse ≠ 0 ∨
      setSendRecvTimeout timeoutUsec address.recvTimeout address.sendTimeout ≠ 0 ∨
      address.keepalive ≠ 0 ∨ enableDelaying then false
  else address.noDelay ≠ 0

/-- The loop over the addresses, up to the first one that can be connected to. -/
def tryAddresses (timeoutUsec : Int) (enableDelaying : Bool) :
    List AddressOutcome → Option Int × List SocketCall
  | [] => (none, [])
  | address :: rest =>
    let (fd, calls) := tryAddresses timeoutUsec enableDelaying rest
    if address.socket < 0 then (fd, calls)
    else if optionsRefused address timeoutUsec enableDelaying then
      (fd, .opened address.socket :: .closed address.socket :: calls)
    else if address.connect = 0 then (some address.socket, [.opened address.socket])
    else (fd, .opened address.socket :: .closed address.socket :: calls)

/-- `fd` is `none` where `*out_fd` is not written. -/
structure ConnectResult where
  status : Int
  fd : Option Int
  calls : List SocketCall

/-- `DEFAULT_SERVER_CONNECT_TIMEOUT_USEC`. -/
def defaultServerConnectTimeoutUsec : Int := 5000000

def connectSocket (net : ConnectOutcome) (timeoutUsec : Int) (enableDelaying : Bool) :
    ConnectResult :=
  let timeoutUsec := if timeoutUsec < 0 then defaultServerConnectTimeoutUsec else timeoutUsec
  match net.addresses with
  | none => ⟨-1, none, []⟩
  | some addresses =>
    match tryAddresses timeoutUsec enableDelaying addresses with
    | (none, calls) => ⟨-1, none, calls⟩
    | (some fd, calls) =>
      if makeSocketNonBlocking net.getFlags net.setFlags ≠ 0 then
        ⟨-1, none, calls ++ [.closed fd]⟩
      else ⟨0, some fd, calls⟩

/-- `out` is `none` where `*out` is not written. -/
structure WaitResult where
  status : Int
  closedSock : Bool
  out : Option OwnedString
  calls : List SocketCall
  stream : Bytes
  events : List SocketEvent

/-- `DEFAULT_CLIENT_BUF_SIZE`. -/
def defaultClientBufSize : Int := 8 * 1024

section Client

variable {σ : Type} (rt : Runtime) (timeoutIsError : Bool) (clientBufSize : Int)
  (maxResponseSize : Nat) (controller : Option (RecvController σ)) (state : σ)

/-- The part of `waitThenRecvAllData` behind the first `poll`. -/
def recvResponse (fd : Int) (stream : Bytes) (events : List SocketEvent) :
    Except Stop WaitResult := do
  let clientBufSize := if clientBufSize < 0 then defaultClientBufSize else clientBufSize
  let builder ← newStringBuilder rt (toSize clientBufSize)
  let res ← recvAllData rt fd builder (toSsize maxResponseSize) timeoutIsError clientBufSize
    controller state stream events
  if res.status ≠ 0 then
    pure ⟨res.status, res.closedSock, none, res.calls, res.stream, res.events⟩
  else
    let (out, _) ← stringBuilderBuildAndDestroy rt res.builder
    pure ⟨0, res.closedSock, some out, res.calls, res.stream, res.events⟩

def waitThenRecvAllData (fd : Int) (stream : Bytes) : List SocketEvent → Except Stop WaitResult
  | [] => .error .blocked
  | event :: events =>
    match event.poll with
    | .failed | .timedOut => pure ⟨1, false, none, [], stream, events⟩
    | .ready r =>
      if r.pollerr then pure ⟨-1, true, none, [.closed fd], stream, events⟩
      else if r.pollhup then pure ⟨0, true, none, [.closed fd], stream, events⟩
      else if r.pollnval then pure ⟨-1, true, none, [.invalid fd], stream, events⟩
      else if !r.pollin then .error (.fault .assertFailed)
      else
        recvResponse rt timeoutIsError clientBufSize maxResponseSize controller state fd stream
          events

/-- `HANDLE_REQUEST_ERR`: what it does in front of its `return 1`, if it gets there. -/
def handleRequestErr (err : Int) (fd : Option Int) : Except Stop (Option (List SocketCall)) :=
  if err = 0 then pure none
  else if 0 < err then
    match fd with
    | some fd => pure (some [.closed fd])
    | none => .error (.fault .uninitialised)
  else pure (some [])

structure ClientResult where
  status : Int
  out : Option OwnedString
  calls : List SocketCall

/-- The part of `newSocketSendReceiveClose` behind `connectSocket`. -/
def sendReceiveClose (data : StringRef) (fd : Int) (stream : Bytes) (events : List SocketEvent) :
    Except Stop ClientResult := do
  let sent ← sendAllData fd data.data data.len events
  if sent.closedSock then pure ⟨1, none, sent.calls⟩
  else
    match ← handleRequestErr sent.status (some fd) with
    | some calls => pure ⟨1, none, sent.calls ++ calls⟩
    | none =>
      let res ← waitThenRecvAllData rt timeoutIsError clientBufSize maxResponseSize controller
        state fd stream sent.events
      match ← handleRequestErr res.status (some fd) with
      | some calls => pure ⟨1, res.out, sent.calls ++ res.calls ++ calls⟩
      | none =>
        pure ⟨0, res.out, sent.calls ++ res.calls ++ if res.closedSock then [] else [.closed fd]⟩

def newSocketSendReceiveClose (net : ConnectOutcome) (connectTimeoutUsec : Int)
    (enableDelaying : Bool) (data : StringRef) (stream : Bytes) (events : List SocketEvent) :
    Except Stop ClientResult := do
  let conn := connectSocket net connectTimeoutUsec enableDelaying
  match ← handleRequestErr conn.status conn.fd with
  | some calls => pure ⟨1, none, conn.calls ++ calls⟩
  | none =>
    match conn.fd with
    | none => .error (.fault .uninitialised)
    | some fd =>
      let res ← sendReceiveClose rt timeoutIsError clientBufSize maxResponseSize controller state
        data fd stream events
      pure { res with calls := conn.calls ++ res.calls }

end Client

end Net77
