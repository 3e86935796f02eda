import Mathlib.Algebra.GroupWithZero.Nat
import Net77.Http.Framing
import Net77.Http.RequestNetworking
import Net77.Http.RoundTrip
import Net77.SendAll
import Net77.SocketOwnership
import Net77.WaitThenReceive

/-! Requests and their responses on one session. Here a call also says what it did at the
wire, so that the next one can go on from there. -/
namespace Net77.Http

open Net77.Base

/-- A call of `httpRequestInSession`: what it returns, the bytes that `send` took, and
what it has left of the stream and of the events. -/
structure Exchange where
  result : SessionResult
  sent : Bytes
  stream : Bytes
  events : List SocketEvent

/-- `httpRawRequestInSession`, with what happens at the wire. -/
def rawExchange (rt : Runtime) (session : Session) (req : StringRef) (maxResponseSize : Nat)
    (stream : Bytes) (events : List SocketEvent) : Except Stop Exchange :=
  if !session.isOpen then .error (.fault .assertFailed)
  else do
    let sent ← sendAllData session.socketFd req.data req.len events
    let session := session.noteClosed sent.closedSock
    if sent.status ≠ 0 then
      pure ⟨⟨sent.status, session, none, sent.calls⟩, sent.sent, stream, sent.events⟩
    else
      let res ← waitThenRecvAllData rt true (-1) maxResponseSize (some httpReceiveController)
        .zeroed session.socketFd stream sent.events
      pure ⟨⟨res.status, session.noteClosed res.closedSock, res.out, sent.calls ++ res.calls⟩,
        sent.sent, res.stream, res.events⟩

/-- The wire is only watched. -/
theorem rawExchange_result (rt : Runtime) (session : Session) (req : StringRef)
    (maxResponseSize : Nat) (stream : Bytes) (events : List SocketEvent) :
    (rawExchange rt session req maxResponseSize stream events).map Exchange.result =
      httpRawRequestInSession rt session req maxResponseSize stream events := by
  unfold rawExchange httpRawRequestInSession
  split
  · rfl
  · cases sendAllData session.socketFd req.data req.len events with
    | error stop => rfl
    | ok sent =>
      rw [ok_bind, ok_bind]
      dsimp only
      split
      · rfl
      · cases waitThenRecvAllData rt true (-1) maxResponseSize (some httpReceiveController)
          .zeroed (session.noteClosed sent.closedSock).socketFd stream sent.events with
        | error stop => rfl
        | ok res => rfl

/-- A request that cannot be serialized does not reach the wire. -/
def httpRequestInSession (rt : Runtime) (session : Session) (req : HttpRequest)
    (maxResponseSize : Nat) (stream : Bytes) (events : List SocketEvent) : Except Stop Exchange :=
  if !session.isOpen then .error (.fault .assertFailed)
  else
    match stringifyRequest rt req with
    | .error (.status err) => pure ⟨⟨err, session, none, []⟩, [], stream, events⟩
    | .error stop => .error stop
    | .ok str => rawExchange rt session str.ref maxResponseSize stream events

/-- What a caller passes for one request. -/
structure RequestCall where
  req : HttpRequest
  maxResponseSize : Nat

/-- Successive calls of `httpRequestInSession` on one session. -/
def requestEach (rt : Runtime) : Session → List RequestCall → (stream : Bytes) →
    List SocketEvent → Except Stop (List Exchange × Bytes)
  | _, [], stream, _ => pure ([], stream)
  | session, call :: calls, stream, events => do
    let done ← httpRequestInSession rt session call.req call.maxResponseSize stream events
    let (more, stream) ← requestEach rt done.result.session calls done.stream done.events
    pure (done :: more, stream)

/-- Something can be sent and something can be received, and the peer is there. -/
def Prompt (event : SocketEvent) : Prop :=
  Writable event ∧ event.Readable ∧ 1 ≤ event.size

section Prompt

/-- With an event for every byte, everything is sent. -/
theorem sendRest_prompt (fd : Int) (sent rest extra : Bytes) {events : List SocketEvent}
    (hevents : ∀ event ∈ events, Prompt event) (hcount : rest.length ≤ events.length) :
    ∃ used more, events = used ++ more ∧ used.length ≤ rest.length ∧
      sendRest fd sent rest extra events = .ok ⟨0, false, sent ++ rest, [], more⟩ := by
  induction events generalizing sent rest with
  | nil =>
    obtain rfl := List.eq_nil_of_length_eq_zero (Nat.eq_zero_of_le_zero hcount)
    exact ⟨[], [], rfl, Nat.zero_le _, by rw [sendRest_nil, List.append_nil]⟩
  | cons event events ih =>
    by_cases unsent : rest = []
    · subst unsent
      exact ⟨[], _, rfl, Nat.zero_le _, by rw [sendRest_nil, List.append_nil]⟩
    · rw [List.forall_mem_cons] at hevents
      rw [List.length_cons] at hcount
      obtain ⟨ready, -, hsize⟩ := hevents.1
      have hpos := List.length_pos_iff.mpr unsent
      have hleft : (rest.drop event.size).length = rest.length - event.size := List.length_drop
      obtain ⟨used, more, rfl, hused, hrun⟩ := ih (sent ++ rest.take event.size)
        (rest.drop event.size) hevents.2 (by omega)
      refine ⟨event :: used, more, rfl, ?_, ?_⟩
      · rw [List.length_cons]
        omega
      · rw [sendRest_writable ready unsent, hrun, List.append_assoc, List.take_append_drop]

theorem sendAllData_prompt (fd : Int) (buf extra : Bytes) {events : List SocketEvent}
    (hevents : ∀ event ∈ events, Prompt event) (hcount : buf.length ≤ events.length) :
    ∃ used more, events = used ++ more ∧ used.length ≤ buf.length ∧
      sendAllData fd (buf ++ extra) buf.length events = .ok ⟨0, false, buf, [], more⟩ :=
  sendRest_prompt fd [] buf extra hevents hcount

variable {σ : Type} {rt : Runtime} {fd : Int} {timeoutIsError : Bool} {clientBufSize : Int}
  {maxResponseSize : Nat} {controller : Option (RecvController σ)} {state : σ} {stream : Bytes}

theorem waitThenRecv_prompt {event : SocketEvent} (prompt : Prompt event)
    (events : List SocketEvent) :
    waitThenRecvAllData rt timeoutIsError clientBufSize maxResponseSize controller state fd stream
        (event :: events) =
      recvResponse rt timeoutIsError clientBufSize maxResponseSize controller state fd stream
        events := by
  obtain ⟨⟨r, hpoll, herr, hhup, hnval, -⟩, ⟨r', hpoll', hin, -⟩, -⟩ := prompt
  cases PollOutcome.ready.inj (hpoll.symm.trans hpoll')
  simp [waitThenRecvAllData, hpoll, herr, hhup, hnval, hin]

end Prompt

/-- The response is one that the client can take: complete, within its limit, and small
enough for its memory. -/
structure Acceptable (maxResponseSize : Nat) (reply : Bytes) : Prop where
  line : FirstLine reply .http11
  complete : CompleteMessage reply
  limit : reply.length ≤ maxResponseSize
  limit_isSize : maxResponseSize < 2 ^ 64
  memory : reply.length + defaultClientBufSize.toNat ≤ maxCapacity + 1

theorem newStringBuilder_fresh {rt : Runtime} (halloc : rt.AllocSucceeds) {size : Nat}
    (hsize : size < 2 ^ 31) :
    ∃ builder, newStringBuilder rt size = .ok builder ∧ builder.Holds [] := by
  by_cases hzero : size = 0
  · exact ⟨_, if_pos hzero, .empty⟩
  · refine ⟨⟨0, size, List.replicate size none⟩, ?_, ?_⟩
    · rw [newStringBuilder, if_neg hzero, if_pos (halloc size hsize)]
      rfl
    · exact ⟨by dsimp only; omega, List.length_replicate, rfl, List.take_zero⟩

/-- A message from the peer is handed out as it is. -/
theorem recvResponse_reply {rt : Runtime} (halloc : rt.AllocSucceeds) (fd : Int)
    {maxResponseSize : Nat} {reply : Bytes} (acceptable : Acceptable maxResponseSize reply)
    (rest : Bytes) {events : List SocketEvent} (hevents : ∀ event ∈ events, event.Readable)
    (hcount : reply.length ≤ events.length) :
    ∃ used more, events = used ++ more ∧ used.length ≤ reply.length ∧
      recvResponse rt true (-1) maxResponseSize (some httpReceiveController) .zeroed fd
          (reply ++ rest) events =
        .ok ⟨0, false, some ⟨reply.length, reply ++ [0]⟩, [], rest, more⟩ := by
  obtain ⟨builder, hbuilder, hfresh⟩ := newStringBuilder_fresh halloc (by omega : 8192 < 2 ^ 31)
  have hlimit := acceptable.limit
  have hmemory := acceptable.memory
  have hsize := acceptable.limit_isSize
  have hdefault : defaultClientBufSize = 8192 := rfl
  have hallows : toSsize maxResponseSize < 0 ∨
      (reply.length : Int) ≤ toSsize maxResponseSize := by
    unfold toSsize Int.bmod
    dsimp only
    omega
  have hssize := toSsize_bounds maxResponseSize
  unfold recvResponse
  generalize toSsize maxResponseSize = og at hallows hssize ⊢
  have hcall : Accommodates ⟨builder, og, true, defaultClientBufSize⟩ reply :=
    ⟨hfresh, hssize, hallows, by dsimp only; omega, by dsimp only; omega⟩
  obtain ⟨res, used, hrun, hreceived, hrest, hused, hbound⟩ := recvAllData_message halloc fd hcall
    acceptable.line acceptable.complete rest hevents hcount
  have hcalls := ((recvAllData_reports hrun).kept hreceived.stillOpen).1
  have hbuild := hreceived.holds.buildAndDestroy (by omega) halloc
  refine ⟨used, res.events, hused, hbound, ?_⟩
  have hcap : toSize defaultClientBufSize = 8192 := rfl
  dsimp only at hrun ⊢
  rw [if_pos (by decide : (-1 : Int) < 0), hcap, hbuilder, ok_bind, hrun, ok_bind,
    if_neg (fun hne => hne hreceived.status), hbuild, ok_bind, hreceived.stillOpen, hcalls, hrest]
  rfl

/-- A request, and what the peer says to it. -/
structure RequestReply where
  request : RequestMessage
  reply : Bytes

/-- As many polls as an exchange can need: one for each byte, and the one in front of the
response. -/
def RequestReply.polls (turn : RequestReply) : Nat :=
  (requestWire turn.request).length + (turn.reply.length + 1)

/-- The call is for the request, and allows the reply. -/
structure Asks (call : RequestCall) (turn : RequestReply) : Prop where
  readable : call.req.Readable
  message : call.req.message = some turn.request
  wire_length : (requestWire turn.request).length ≤ maxCapacity
  acceptable : Acceptable call.maxResponseSize turn.reply

/-- The peer has got the request, which it can parse, and the caller has the reply. The
session is as good as it was. -/
structure Answered (rt : Runtime) (session : Session) (turn : RequestReply) (done : Exchange) :
    Prop where
  result : done.result = ⟨0, session, some ⟨turn.reply.length, turn.reply ++ [0]⟩, []⟩
  sent : done.sent = requestWire turn.request
  understood : turn.request.WellFormed → done.sent.length < 2 ^ 27 →
    ∃ req, parseHttpRequest rt ⟨done.sent.length, done.sent⟩ true = .ok req ∧
      req.message = some turn.request

section Answered

variable {rt : Runtime} (halloc : rt.AllocSucceeds) {session : Session}

include halloc

/-- The step of a conversation: one request goes out and one reply comes back. -/
theorem httpRequestInSession_answered (hopen : session.isOpen = true) {call : RequestCall}
    {turn : RequestReply} (asks : Asks call turn) (rest : Bytes) {events : List SocketEvent}
    (hevents : ∀ event ∈ events, Prompt event) (hcount : turn.polls ≤ events.length) :
    ∃ done used, httpRequestInSession rt session call.req call.maxResponseSize (turn.reply ++ rest)
        events = .ok done ∧ Answered rt session turn done ∧ done.stream = rest ∧
      events = used ++ done.events ∧ used.length ≤ turn.polls := by
  unfold RequestReply.polls at hcount ⊢
  have hser := stringifyRequest_eq halloc asks.readable asks.message asks.wire_length
  obtain ⟨sending, more, rfl, hsending, hsend⟩ := sendAllData_prompt session.socketFd
    (requestWire turn.request) [0] hevents (by omega)
  rw [List.length_append] at hcount
  rw [List.forall_mem_append] at hevents
  cases more with
  | nil =>
    rw [List.length_nil] at hcount
    omega
  | cons first more =>
    rw [List.length_cons] at hcount
    rw [List.forall_mem_cons] at hevents
    obtain ⟨receiving, left, rfl, hreceiving, hrecv⟩ := recvResponse_reply halloc session.socketFd
      asks.acceptable rest (fun event hmem => (hevents.2.2 event hmem).2.1) (by omega)
    refine ⟨⟨⟨0, session, some ⟨turn.reply.length, turn.reply ++ [0]⟩, []⟩,
      requestWire turn.request, rest, left⟩, sending ++ first :: receiving, ?_, ⟨rfl, rfl, ?_⟩,
      rfl, by simp, ?_⟩
    · have hassert : ¬ (!session.isOpen) = true := by simp [hopen]
      unfold httpRequestInSession
      rw [if_neg hassert, hser]
      dsimp only [OwnedString.ref]
      unfold rawExchange
      rw [if_neg hassert, hsend, ok_bind]
      dsimp only [Session.noteClosed]
      rw [if_neg (by decide), if_neg Bool.false_ne_true, waitThenRecv_prompt hevents.2.1, hrecv]
      rfl
    · intro hwf hsize
      have hparse := parse_requestWire halloc hwf hsize []
      rwa [List.append_nil] at hparse
    · rw [List.length_append, List.length_cons]
      omega

/-- A session keeps requests and replies together: where the network does not fail, every
reply comes back from the call of its request, however the network cuts the bytes. -/
theorem requestEach_answered (hopen : session.isOpen = true) {calls : List RequestCall}
    {turns : List RequestReply} (hasks : List.Forall₂ Asks calls turns) (rest : Bytes)
    {events : List SocketEvent} (hevents : ∀ event ∈ events, Prompt event)
    (hcount : (turns.map RequestReply.polls).sum ≤ events.length) :
    ∃ done, requestEach rt session calls ((turns.map RequestReply.reply).flatten ++ rest) events =
        .ok (done, rest) ∧
      List.Forall₂ (Answered rt session) turns done := by
  induction hasks generalizing events with
  | nil => exact ⟨[], rfl, .nil⟩
  | @cons call turn calls turns hask hasks ih =>
    rw [List.map_cons, List.sum_cons] at hcount
    rw [List.map_cons, List.flatten_cons, List.append_assoc]
    obtain ⟨done, used, hrun, hanswered, hrest, hused, hbound⟩ := httpRequestInSession_answered
      halloc hopen hask ((turns.map RequestReply.reply).flatten ++ rest) hevents
        (Nat.le_of_add_right_le hcount)
    have hlen := congrArg List.length hused
    rw [List.length_append] at hlen
    have hleft : (turns.map RequestReply.polls).sum ≤ done.events.length := by omega
    have hready : ∀ event ∈ done.events, Prompt event := by
      intro event hmem
      apply hevents
      rw [hused]
      exact List.mem_append_right used hmem
    obtain ⟨more, hmore, hall⟩ := ih hready hleft
    refine ⟨done :: more, ?_, .cons hanswered hall⟩
    have hsame : done.result.session = session := by rw [hanswered.result]
    rw [requestEach, hrun, ok_bind, hrest, hsame, hmore]
    rfl

end Answered

/-- `GET / HTTP/1.1` without fields. -/
def getRoot : HttpRequest := ⟨.get, ⟨1, [slash]⟩, .http11, .asStruct ⟨[]⟩, ⟨0, []⟩⟩

def getRootMessage : RequestMessage := ⟨.get, [slash], .http11, [], []⟩

/-- One byte at a time can be sent or read. -/
def duplex : SocketEvent := ⟨.ready (.only true true), 1⟩

theorem duplex_prompt : Prompt duplex :=
  ⟨⟨_, rfl, rfl, rfl, rfl, rfl⟩, ⟨_, rfl, rfl, rfl, rfl⟩, Nat.le_refl 1⟩

/-- Two requests, and the first byte of a third reply. -/
theorem requestEach_answered_greetings :
    ∃ done, requestEach .unlimited ⟨3, true⟩ [⟨getRoot, 64⟩, ⟨getRoot, 2 ^ 63⟩]
        (([⟨getRootMessage, greeting⟩, ⟨getRootMessage, greeting⟩].map RequestReply.reply).flatten ++
          [72])
        (List.replicate 200 duplex) = .ok (done, [72]) ∧
      List.Forall₂ (Answered .unlimited ⟨3, true⟩)
        [⟨getRootMessage, greeting⟩, ⟨getRootMessage, greeting⟩] done := by
  have hread : getRoot.Readable := by decide
  have asks (maxResponseSize : Nat) (hlimit : 40 ≤ maxResponseSize)
      (hsize : maxResponseSize < 2 ^ 64) :
      Asks ⟨getRoot, maxResponseSize⟩ ⟨getRootMessage, greeting⟩ :=
    ⟨hread, rfl, by decide, ⟨greeting_line, greeting_complete, hlimit, hsize, by decide⟩⟩
  refine requestEach_answered Runtime.unlimited_allocSucceeds rfl ?_ [72] ?_ ?_
  · exact .cons (asks 64 (by omega) (by omega)) (.cons (asks (2 ^ 63) (by omega) (by omega)) .nil)
  · intro event hmem
    rw [List.eq_of_mem_replicate hmem]
    exact duplex_prompt
  · rw [List.length_replicate]
    decide

end Net77.Http
