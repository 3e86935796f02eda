import Net77.Sock
import Net77.StringMemory

/-! `recvAllData` and `waitThenRecvAllData` with the blocks of their builders. -/
namespace Net77

open Net77.Base

section Calls

variable (rt : Runtime) (allocator : Allocator Nat)

def reserveRecvAt (placed : PlacedBuilder) (sbMinCap : Int) : HeapCall PlacedBuilder :=
  if capLeft placed.builder < toSize sbMinCap then
    stringBuilderExpandBufAt rt allocator placed
      (toSize (placed.builder.cap + (sbMinCap + placed.builder.len - placed.builder.cap)))
  else pure placed

/-- What `recv` stores behind the bytes of the builder. -/
def storeChunkAt (placed : PlacedBuilder) (chunk : Bytes) : HeapCall (PlacedBuilder × Bytes) :=
  if chunk = [] then pure (placed, [])
  else do
    let cells ← .lift (writeCells placed.builder.data placed.builder.len chunk)
    pure (⟨⟨placed.builder.len + chunk.length, placed.builder.cap, cells⟩, placed.addr⟩, chunk)

def recvIntoAt (placed : PlacedBuilder) (sbMinCap maxLen : Int) (received : Nat)
    (stream : Bytes) (size : Nat) : HeapCall (PlacedBuilder × Bytes) := do
  let placed ← reserveRecvAt rt allocator placed sbMinCap
  storeChunkAt placed
    (stream.take (min (size + 1) (recvRequest placed.builder maxLen received)))

variable {σ : Type} (call : RecvCall σ)

/-- The pointer of the builder goes along with the state. -/
def recvChunkAt (size : Nat) (st : RecvState σ) (addr : Option Nat) :
    HeapCall (RecvNext σ × Option Nat) := do
  let (placed, chunk) ← recvIntoAt rt allocator ⟨st.builder, addr⟩ call.sbMinCap st.maxLen
    st.received st.stream size
  let st := { st with builder := placed.builder, received := st.received + chunk.length,
                      stream := st.stream.drop chunk.length }
  if chunk = [] then pure (.done 0 (st.close call.fd), placed.addr)
  else
    let next ← .lift (runController call st)
    pure (next, placed.addr)

def recvStepAt (event : SocketEvent) (st : RecvState σ) (addr : Option Nat) :
    HeapCall (RecvNext σ × Option Nat) :=
  match event.poll with
  | .failed => pure (.done 1 st, addr)
  | .timedOut => pure (.done (if call.timeoutIsError then 1 else 0) st, addr)
  | .ready r =>
    if r.pollerr then pure (.done (-1) (st.close call.fd), addr)
    else if r.pollhup && !r.pollin then pure (.done 0 (st.close call.fd), addr)
    else if !r.pollhup && r.pollnval then pure (.done (-1) (st.reportInvalid call.fd), addr)
    else if !r.pollin then .lift (.error (.fault .assertFailed))
    else recvChunkAt rt allocator call event.size st addr

def recvLoopAt : List SocketEvent → RecvState σ → Option Nat → HeapCall (RecvResult × Option Nat)
  | [], st, addr =>
    if st.wantsMore then .lift (.error .blocked) else pure (st.finish 0 [], addr)
  | event :: events, st, addr =>
    if st.wantsMore then do
      match ← recvStepAt rt allocator call event st addr with
      | (.again st, addr) => recvLoopAt events st addr
      | (.done ec st, addr) => pure (st.finish ec events, addr)
    else pure (st.finish 0 (event :: events), addr)

end Calls

section Client

variable (rt : Runtime) (allocator : Allocator Nat) {σ : Type}

/-- The result and the pointer of the builder, which is the caller's. The state of the
controller is on the stack or shared. -/
def recvAllDataAt (fd : Int) (placed : PlacedBuilder) (maxLen : Int) (timeoutIsError : Bool)
    (sbMinCap : Int) (controller : Option (RecvController σ)) (state : σ) (stream : Bytes)
    (events : List SocketEvent) : HeapCall (RecvResult × Option Nat) := do
  let sbMinCap := if sbMinCap < 0 then defaultSbMinCap else sbMinCap
  let placed ← growForAt rt allocator placed (toSize sbMinCap)
  let call : RecvCall σ := ⟨fd, sbMinCap, timeoutIsError, placed.builder.len, controller⟩
  match ← .lift (runController call ⟨placed.builder, maxLen, 0, state, stream, false, []⟩) with
  | .again st => recvLoopAt rt allocator call events st placed.addr
  | .done ec st => pure (st.finish ec events, placed.addr)

variable (timeoutIsError : Bool) (clientBufSize : Int) (maxResponseSize : Nat)
  (controller : Option (RecvController σ)) (state : σ)

/-- The result and the pointer of `*out`, or NULL where it is not written. -/
def recvResponseAt (fd : Int) (stream : Bytes) (events : List SocketEvent) :
    HeapCall (WaitResult × Option Nat) := do
  let clientBufSize := if clientBufSize < 0 then defaultClientBufSize else clientBufSize
  let placed ← newStringBuilderAt rt allocator (toSize clientBufSize)
  let (res, addr) ← recvAllDataAt rt allocator fd placed (toSsize maxResponseSize) timeoutIsError
    clientBufSize controller state stream events
  if res.status ≠ 0 then do
    let _ ← stringBuilderDestroyAt ⟨res.builder, addr⟩
    pure (⟨res.status, res.closedSock, none, res.calls, res.stream, res.events⟩, none)
  else do
    let (out, _) ← stringBuilderBuildAndDestroyAt rt allocator ⟨res.builder, addr⟩
    pure (⟨0, res.closedSock, some out.str, res.calls, res.stream, res.events⟩, out.addr)

def waitThenRecvAllDataAt (fd : Int) (stream : Bytes) :
    List SocketEvent → HeapCall (WaitResult × Option Nat)
  | [] => .lift (.error .blocked)
  | event :: events =>
    match event.poll with
    | .failed | .timedOut => pure (⟨1, false, none, [], stream, events⟩, none)
    | .ready r =>
      if r.pollerr then pure (⟨-1, true, none, [.closed fd], stream, events⟩, none)
      else if r.pollhup then pure (⟨0, true, none, [.closed fd], stream, events⟩, none)
      else if r.pollnval then pure (⟨-1, true, none, [.invalid fd], stream, events⟩, none)
      else if !r.pollin then .lift (.error (.fault .assertFailed))
      else
        recvResponseAt rt allocator timeoutIsError clientBufSize maxResponseSize controller state
          fd stream events

def sendReceiveCloseAt (data : StringRef) (fd : Int) (stream : Bytes)
    (events : List SocketEvent) : HeapCall (ClientResult × Option Nat) := do
  let sent ← .lift (sendAllData fd data.data data.len events)
  if sent.closedSock then pure (⟨1, none, sent.calls⟩, none)
  else
    match ← .lift (handleRequestErr sent.status (some fd)) with
    | some calls => pure (⟨1, none, sent.calls ++ calls⟩, none)
    | none =>
      let (res, addr) ← waitThenRecvAllDataAt rt allocator timeoutIsError clientBufSize
        maxResponseSize controller state fd stream sent.events
      match ← .lift (handleRequestErr res.status (some fd)) with
      | some calls => pure (⟨1, res.out, sent.calls ++ res.calls ++ calls⟩, addr)
      | none =>
        pure (⟨0, res.out, sent.calls ++ res.calls ++
          if res.closedSock then [] else [.closed fd]⟩, addr)

def newSocketSendReceiveCloseAt (net : ConnectOutcome) (connectTimeoutUsec : Int)
    (enableDelaying : Bool) (data : StringRef) (stream : Bytes) (events : List SocketEvent) :
    HeapCall (ClientResult × Option Nat) := do
  let conn := connectSocket net connectTimeoutUsec enableDelaying
  match ← .lift (handleRequestErr conn.status conn.fd) with
  | some calls => pure (⟨1, none, conn.calls ++ calls⟩, none)
  | none =>
    match conn.fd with
    | none => .lift (.error (.fault .uninitialised))
    | some fd =>
      let (res, addr) ← sendReceiveCloseAt rt allocator timeoutIsError clientBufSize
        maxResponseSize controller state data fd stream events
      pure ({ res with calls := conn.calls ++ res.calls }, addr)

end Client

section Specs

variable {rt : Runtime} {allocator : Allocator Nat} {σ α : Type} {call : RecvCall σ}

/-- What the receiving calls are asked: the block behind the pointer that they return is
all that is left of the ones they had. -/
def PointerHas (out : α × Option Nat) (left : Multiset Nat) : Prop := left = blocks out.2

theorem reserveRecvAt_leaves (placed : PlacedBuilder) (sbMinCap : Int) :
    Disposes (blocks placed.addr) (reserveRecvAt rt allocator placed sbMinCap)
      (Hands (BuilderHas False) fun _ => True) := by
  unfold reserveRecvAt
  split
  · exact stringBuilderExpandBufAt_leaves placed _
  · exact .pure ⟨rfl, fun h => h.elim⟩

theorem storeChunkAt_leaves (placed : PlacedBuilder) (chunk : Bytes) :
    Disposes (blocks placed.addr) (storeChunkAt placed chunk)
      (Hands (fun out left => left = blocks out.1.addr) fun _ => True) := by
  unfold storeChunkAt
  split
  · exact .pure rfl
  · refine Hands.bind (Hands.lift writeCells_ne_status) ?_
    rintro cells left rfl
    exact .pure rfl

theorem recvIntoAt_leaves (placed : PlacedBuilder) (sbMinCap maxLen : Int) (received : Nat)
    (stream : Bytes) (size : Nat) :
    Disposes (blocks placed.addr)
      (recvIntoAt rt allocator placed sbMinCap maxLen received stream size)
      (Hands (fun out left => left = blocks out.1.addr) fun _ => True) := by
  refine Hands.bind (reserveRecvAt_leaves placed sbMinCap) ?_
  rintro bigger left ⟨rfl, -⟩
  exact storeChunkAt_leaves bigger _

theorem Hands.lift_any {result : Except Stop α} {given : Multiset Nat} :
    Disposes given (.lift result) (Hands (fun _ left => left = given) fun _ => True) := by
  apply Disposes.lift
  match result with
  | .ok a => exact rfl
  | .error (.status err) => trivial
  | .error (.fault fault) => trivial
  | .error .blocked => trivial

theorem recvChunkAt_leaves (size : Nat) (st : RecvState σ) (addr : Option Nat) :
    Disposes (blocks addr) (recvChunkAt rt allocator call size st addr)
      (Hands PointerHas fun _ => True) := by
  refine Hands.bind (recvIntoAt_leaves ⟨st.builder, addr⟩ _ _ _ _ _) ?_
  rintro ⟨placed, chunk⟩ left rfl
  dsimp only
  split
  · exact .pure rfl
  · refine Hands.bind Hands.lift_any ?_
    rintro next left rfl
    exact .pure rfl

/-- Only the part behind the tests of `revents` comes to the builder. -/
theorem recvStepAt_leaves (event : SocketEvent) (st : RecvState σ) (addr : Option Nat) :
    Disposes (blocks addr) (recvStepAt rt allocator call event st addr)
      (Hands PointerHas fun _ => True) := by
  unfold recvStepAt
  split
  · exact .pure rfl
  · exact .pure rfl
  · split
    · exact .pure rfl
    · split
      · exact .pure rfl
      · split
        · exact .pure rfl
        · split
          · exact Hands.fault _
          · exact recvChunkAt_leaves _ st addr

theorem recvLoopAt_leaves (events : List SocketEvent) (st : RecvState σ) (addr : Option Nat) :
    Disposes (blocks addr) (recvLoopAt rt allocator call events st addr)
      (Hands PointerHas fun _ => True) := by
  induction events generalizing st addr with
  | nil =>
    unfold recvLoopAt
    split
    · exact .lift trivial
    · exact .pure rfl
  | cons event events ih =>
    unfold recvLoopAt
    split
    · refine Hands.bind (recvStepAt_leaves event st addr) ?_
      rintro ⟨next, addr⟩ left rfl
      cases next with
      | again st => exact ih st addr
      | done ec st => exact .pure rfl
    · exact .pure rfl

theorem recvAllDataAt_leaves (fd : Int) (placed : PlacedBuilder) (maxLen : Int)
    (timeoutIsError : Bool) (sbMinCap : Int) (controller : Option (RecvController σ)) (state : σ)
    (stream : Bytes) (events : List SocketEvent) :
    Disposes (blocks placed.addr) (recvAllDataAt rt allocator fd placed maxLen timeoutIsError
      sbMinCap controller state stream events) (Hands PointerHas fun _ => True) := by
  refine Hands.bind (growForAt_leaves placed _) ?_
  rintro bigger left ⟨rfl, -⟩
  refine Hands.bind Hands.lift_any ?_
  rintro next left rfl
  cases next with
  | again st => exact recvLoopAt_leaves events st bigger.addr
  | done ec st => exact .pure rfl

variable {timeoutIsError : Bool} {clientBufSize : Int} {maxResponseSize : Nat}
  {controller : Option (RecvController σ)} {state : σ}

/-- The block that is left is that of the response, and there is one exactly if there is a
response. -/
def ResponseHas (response : α → Option OwnedString) (out : α × Option Nat)
    (left : Multiset Nat) : Prop :=
  left = blocks out.2 ∧ (response out.1 = none ↔ out.2 = none)

theorem recvResponseAt_leaves (fd : Int) (stream : Bytes) (events : List SocketEvent) :
    Disposes 0 (recvResponseAt rt allocator timeoutIsError clientBufSize maxResponseSize controller
      state fd stream events) (Hands (ResponseHas WaitResult.out) fun _ => True) := by
  refine Hands.bind (newStringBuilderAt_leaves _) ?_
  rintro placed left ⟨rfl, -⟩
  refine Hands.bind (recvAllDataAt_leaves fd placed _ _ _ _ _ _ _) ?_
  rintro ⟨res, addr⟩ left rfl
  dsimp only
  split
  · refine Hands.bind (stringBuilderDestroyAt_leaves ⟨res.builder, addr⟩) ?_
    rintro destroyed left ⟨rfl, -⟩
    exact .pure ⟨rfl, iff_of_true rfl rfl⟩
  · refine Hands.bind (stringBuilderBuildAndDestroyAt_leaves ⟨res.builder, addr⟩) ?_
    rintro ⟨out, destroyed⟩ left ⟨hleft, hsome, -⟩
    exact .pure ⟨hleft, iff_of_false (Option.some_ne_none _) hsome⟩

theorem waitThenRecvAllDataAt_leaves (fd : Int) (stream : Bytes) (events : List SocketEvent) :
    Disposes 0 (waitThenRecvAllDataAt rt allocator timeoutIsError clientBufSize maxResponseSize
      controller state fd stream events) (Hands (ResponseHas WaitResult.out) fun _ => True) := by
  unfold waitThenRecvAllDataAt
  split
  · exact .lift trivial
  · split
    · exact .pure ⟨rfl, iff_of_true rfl rfl⟩
    · exact .pure ⟨rfl, iff_of_true rfl rfl⟩
    · split
      · exact .pure ⟨rfl, iff_of_true rfl rfl⟩
      · split
        · exact .pure ⟨rfl, iff_of_true rfl rfl⟩
        · split
          · exact .pure ⟨rfl, iff_of_true rfl rfl⟩
          · split
            · exact Hands.fault _
            · exact recvResponseAt_leaves fd stream _

theorem sendReceiveCloseAt_leaves (data : StringRef) (fd : Int) (stream : Bytes)
    (events : List SocketEvent) :
    Disposes 0 (sendReceiveCloseAt rt allocator timeoutIsError clientBufSize maxResponseSize
      controller state data fd stream events)
      (Hands (ResponseHas ClientResult.out) fun _ => True) := by
  refine Hands.bind Hands.lift_any ?_
  rintro sent left rfl
  split
  · exact .pure ⟨rfl, iff_of_true rfl rfl⟩
  · refine Hands.bind Hands.lift_any ?_
    rintro handled left rfl
    cases handled with
    | some calls => exact .pure ⟨rfl, iff_of_true rfl rfl⟩
    | none =>
      refine Hands.bind (waitThenRecvAllDataAt_leaves fd stream sent.events) ?_
      rintro ⟨res, addr⟩ left ⟨rfl, hnone⟩
      refine Hands.bind Hands.lift_any ?_
      rintro handled left rfl
      cases handled with
      | some calls => exact .pure ⟨rfl, hnone⟩
      | none => exact .pure ⟨rfl, hnone⟩

theorem newSocketSendReceiveCloseAt_leaves (net : ConnectOutcome) (connectTimeoutUsec : Int)
    (enableDelaying : Bool) (data : StringRef) (stream : Bytes) (events : List SocketEvent) :
    Disposes 0 (newSocketSendReceiveCloseAt rt allocator timeoutIsError clientBufSize
      maxResponseSize controller state net connectTimeoutUsec enableDelaying data stream events)
      (Hands (ResponseHas ClientResult.out) fun _ => True) := by
  refine Hands.bind Hands.lift_any ?_
  rintro handled left rfl
  cases handled with
  | some calls => exact .pure ⟨rfl, iff_of_true rfl rfl⟩
  | none =>
    dsimp only
    split
    · exact Hands.fault _
    · refine Hands.bind (sendReceiveCloseAt_leaves data _ stream events) ?_
      rintro ⟨res, addr⟩ left ⟨rfl, hnone⟩
      exact .pure ⟨rfl, hnone⟩

end Specs

section Agreement

variable {rt : Runtime} {allocator : Allocator Nat} {σ : Type} {call : RecvCall σ}

theorem reserveRecvAt_agrees (placed : PlacedBuilder) (sbMinCap : Int) :
    Agrees PlacedBuilder.builder (reserveRecvAt rt allocator placed sbMinCap)
      (reserveRecv rt placed.builder sbMinCap) := by
  unfold reserveRecvAt reserveRecv
  generalize toSize sbMinCap = room
  split
  · exact stringBuilderExpandBufAt_agrees placed _
  · exact .pure _ _

theorem recvIntoAt_agrees (placed : PlacedBuilder) (sbMinCap maxLen : Int) (received : Nat)
    (stream : Bytes) (size : Nat) :
    Agrees (fun out => (out.1.builder, out.2))
      (recvIntoAt rt allocator placed sbMinCap maxLen received stream size)
      (recvInto rt placed.builder sbMinCap maxLen received stream size) := by
  refine .bind (reserveRecvAt_agrees placed sbMinCap) fun bigger => ?_
  dsimp only
  generalize stream.take _ = chunk
  unfold storeChunkAt
  split
  · exact .pure _ _
  · exact .bind (.lift _) fun cells => .pure _ _

theorem recvChunkAt_agrees (size : Nat) (st : RecvState σ) (addr : Option Nat) :
    Agrees Prod.fst (recvChunkAt rt allocator call size st addr) (recvChunk rt call size st) := by
  refine .bind (recvIntoAt_agrees ⟨st.builder, addr⟩ _ _ _ _ _) fun out => ?_
  obtain ⟨placed, chunk⟩ := out
  dsimp only
  split
  · exact .pure _ _
  · intro past
    cases runController call _ <;> rfl

theorem recvStepAt_agrees (event : SocketEvent) (st : RecvState σ) (addr : Option Nat) :
    Agrees Prod.fst (recvStepAt rt allocator call event st addr) (recvStep rt call event st) := by
  unfold recvStepAt recvStep
  cases event.poll with
  | failed => exact .pure _ _
  | timedOut => exact .pure _ _
  | ready r =>
    dsimp only
    split
    · exact .pure _ _
    · split
      · exact .pure _ _
      · split
        · exact .pure _ _
        · split
          · exact fun _ => rfl
          · exact recvChunkAt_agrees _ st addr

theorem recvLoopAt_agrees (events : List SocketEvent) (st : RecvState σ) (addr : Option Nat) :
    Agrees Prod.fst (recvLoopAt rt allocator call events st addr)
      (recvLoop rt call events st) := by
  induction events generalizing st addr with
  | nil =>
    unfold recvLoopAt recvLoop
    split
    · exact fun _ => rfl
    · exact .pure _ _
  | cons event events ih =>
    unfold recvLoopAt recvLoop
    split
    · refine .bind (recvStepAt_agrees event st addr) fun out => ?_
      obtain ⟨next, addr⟩ := out
      cases next with
      | again st => exact ih st addr
      | done ec st => exact .pure _ _
    · exact .pure _ _

theorem recvAllDataAt_agrees (fd : Int) (placed : PlacedBuilder) (maxLen : Int)
    (timeoutIsError : Bool) (sbMinCap : Int) (controller : Option (RecvController σ)) (state : σ)
    (stream : Bytes) (events : List SocketEvent) :
    Agrees Prod.fst (recvAllDataAt rt allocator fd placed maxLen timeoutIsError sbMinCap
      controller state stream events) (recvAllData rt fd placed.builder maxLen timeoutIsError
        sbMinCap controller state stream events) := by
  refine .bind (growForAt_agrees placed _) fun bigger => ?_
  refine .bind (.lift _) fun next => ?_
  cases next with
  | again st => exact recvLoopAt_agrees events st bigger.addr
  | done ec st => exact .pure _ _

variable {timeoutIsError : Bool} {clientBufSize : Int} {maxResponseSize : Nat}
  {controller : Option (RecvController σ)} {state : σ}

theorem recvResponseAt_agrees (fd : Int) (stream : Bytes) (events : List SocketEvent) :
    Agrees Prod.fst (recvResponseAt rt allocator timeoutIsError clientBufSize maxResponseSize
      controller state fd stream events) (recvResponse rt timeoutIsError clientBufSize
        maxResponseSize controller state fd stream events) := by
  refine .bind (newStringBuilderAt_agrees _) fun placed => ?_
  refine .bind (recvAllDataAt_agrees fd placed _ _ _ _ _ _ _) fun out => ?_
  obtain ⟨res, addr⟩ := out
  dsimp only
  split
  · refine .skip (fun past => ?_) fun destroyed => .pure _ _
    obtain ⟨a, ha⟩ := freeBlock_ok addr past
    unfold stringBuilderDestroyAt
    rw [Traced.bind_of_ok ha]
    exact ⟨_, rfl⟩
  · exact .bind (stringBuilderBuildAndDestroyAt_agrees ⟨res.builder, addr⟩) fun out => .pure _ _

theorem waitThenRecvAllDataAt_agrees (fd : Int) (stream : Bytes) (events : List SocketEvent) :
    Agrees Prod.fst (waitThenRecvAllDataAt rt allocator timeoutIsError clientBufSize
      maxResponseSize controller state fd stream events) (waitThenRecvAllData rt timeoutIsError
        clientBufSize maxResponseSize controller state fd stream events) := by
  cases events with
  | nil => exact fun _ => rfl
  | cons event events =>
    unfold waitThenRecvAllDataAt waitThenRecvAllData
    dsimp only
    cases event.poll with
    | failed => exact .pure _ _
    | timedOut => exact .pure _ _
    | ready r =>
      dsimp only
      split
      · exact .pure _ _
      · split
        · exact .pure _ _
        · split
          · exact .pure _ _
          · split
            · exact fun _ => rfl
            · exact recvResponseAt_agrees fd stream _

theorem sendReceiveCloseAt_agrees (data : StringRef) (fd : Int) (stream : Bytes)
    (events : List SocketEvent) :
    Agrees Prod.fst (sendReceiveCloseAt rt allocator timeoutIsError clientBufSize maxResponseSize
      controller state data fd stream events) (sendReceiveClose rt timeoutIsError clientBufSize
        maxResponseSize controller state data fd stream events) := by
  refine .bind (.lift _) fun sent => ?_
  dsimp only [id]
  split
  · exact .pure _ _
  · refine .bind (.lift _) fun handled => ?_
    cases handled with
    | some calls => exact .pure _ _
    | none =>
      refine .bind (waitThenRecvAllDataAt_agrees fd stream sent.events) fun out => ?_
      obtain ⟨res, addr⟩ := out
      refine .bind (.lift _) fun handled => ?_
      cases handled with
      | some calls => exact .pure _ _
      | none => exact .pure _ _

theorem newSocketSendReceiveCloseAt_agrees (net : ConnectOutcome) (connectTimeoutUsec : Int)
    (enableDelaying : Bool) (data : StringRef) (stream : Bytes) (events : List SocketEvent) :
    Agrees Prod.fst (newSocketSendReceiveCloseAt rt allocator timeoutIsError clientBufSize
      maxResponseSize controller state net connectTimeoutUsec enableDelaying data stream events)
      (newSocketSendReceiveClose rt timeoutIsError clientBufSize maxResponseSize controller state
        net connectTimeoutUsec enableDelaying data stream events) := by
  refine .bind (.lift _) fun handled => ?_
  cases handled with
  | some calls => exact .pure _ _
  | none =>
    dsimp only [id]
    cases (connectSocket net connectTimeoutUsec enableDelaying).fd with
    | none => exact fun _ => rfl
    | some fd =>
      exact .bind (sendReceiveCloseAt_agrees data fd stream events) fun out => .pure _ _

end Agreement

end Net77
