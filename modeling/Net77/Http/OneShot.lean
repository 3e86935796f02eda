import Net77.Http.Exchange

/-! Requests without a session of the caller. They share only the transfers with
`request_networking.c`: `newSocketSendReceiveClose` keeps no flag, and closes what the status
of a transfer says is still open. -/
namespace Net77.Http

open Net77.Base

/-- With the buffer size and the flags that a request is made with. -/
def httpRawRequest (rt : Runtime) (net : ConnectOutcome) (req : StringRef) (maxResponseSize : Nat)
    (connectTimeoutUsec : Int) (stream : Bytes) (events : List SocketEvent) :
    Except Stop ClientResult :=
  newSocketSendReceiveClose rt true (-1) maxResponseSize (some httpReceiveController) .zeroed net
    connectTimeoutUsec false req stream events

/-- The request is serialized before there is a connection. -/
def httpRequest (rt : Runtime) (net : ConnectOutcome) (req : HttpRequest) (maxResponseSize : Nat)
    (connectTimeoutUsec : Int) (stream : Bytes) (events : List SocketEvent) :
    Except Stop ClientResult :=
  match stringifyRequest rt req with
  | .error (.status err) => pure ⟨err, none, []⟩
  | .error stop => .error stop
  | .ok str => httpRawRequest rt net str.ref maxResponseSize connectTimeoutUsec stream events

/-- A caller of the session functions who makes one request and closes the session after it,
unless that is done. -/
def thenClose (done : SessionResult) : ClientResult :=
  ⟨done.status, done.out, done.calls ++ (closeSession done.session).calls⟩

/-- The same, from the start, with the status of the call that fails. -/
def requestOverSession (rt : Runtime) (net : ConnectOutcome) (req : StringRef)
    (maxResponseSize : Nat) (connectTimeoutUsec : Int) (stream : Bytes)
    (events : List SocketEvent) : Except Stop ClientResult := do
  let opened ← openSession net connectTimeoutUsec newSession
  if opened.status ≠ 0 then pure ⟨opened.status, none, opened.calls⟩
  else
    let done ← httpRawRequestInSession rt opened.session req maxResponseSize stream events
    let closed := thenClose done
    pure { closed with calls := opened.calls ++ closed.calls }

/-- Whatever the status is that `HANDLE_REQUEST_ERR` is used on, it returns 1. -/
def failsWithOne (res : ClientResult) : ClientResult :=
  { res with status := if res.status = 0 then 0 else 1 }

section OneShot

variable {rt : Runtime} {fd status : Int}

theorem failsWithOne_failed {res : ClientResult} (h : res.status ≠ 0) :
    failsWithOne res = ⟨1, res.out, res.calls⟩ := by
  unfold failsWithOne
  rw [if_neg h]

theorem handleRequestErr_zero (fd : Option Int) : handleRequestErr 0 fd = .ok none := rfl

/-- Who still has the descriptor behind an error has to close it, and nobody else. -/
theorem handleRequestErr_reports {closedSock : Bool} {calls : List SocketCall}
    (h : Reports fd status closedSock calls) (hne : status ≠ 0) :
    handleRequestErr status (some fd) =
      .ok (some (if closedSock then [] else [.closed fd])) := by
  unfold handleRequestErr
  rw [if_neg hne]
  cases closedSock with
  | false =>
    have := (h.kept rfl).2
    rw [if_pos (by omega)]
    rfl
  | true =>
    have := (h.disposed rfl).2
    rw [if_neg (by omega)]
    rfl

theorem closeSession_noteClosed (fd : Int) (closedSock : Bool) :
    (closeSession (Session.noteClosed ⟨fd, true⟩ closedSock)).calls =
      if closedSock then [] else [.closed fd] := by
  cases closedSock with
  | false => rfl
  | true => rfl

/-- Behind `connectSocket`, the status of a transfer says who closes, as the flag of a session
does. -/
theorem sendReceiveClose_eq (rt : Runtime) (fd : Int) (req : StringRef) (maxResponseSize : Nat)
    (stream : Bytes) (events : List SocketEvent) :
    sendReceiveClose rt true (-1) maxResponseSize (some httpReceiveController) .zeroed req fd stream
        events =
      (httpRawRequestInSession rt ⟨fd, true⟩ req maxResponseSize stream events).map
        fun done => failsWithOne (thenClose done) := by
  have hopen : ¬ (!(⟨fd, true⟩ : Session).isOpen) = true := Bool.false_ne_true
  unfold sendReceiveClose httpRawRequestInSession
  rw [if_neg hopen]
  cases hsent : sendAllData fd req.data req.len events with
  | error stop => rfl
  | ok sent =>
    have hsends := sendLoop_reports hsent
    rw [ok_bind, ok_bind]
    dsimp only
    by_cases hzero : sent.status = 0
    · have hkept : sent.closedSock = false := sendLoop_kept hsent hzero
      rw [hkept, if_neg Bool.false_ne_true, hzero, handleRequestErr_zero, ok_bind,
        if_neg (fun hne => hne rfl)]
      dsimp only [Session.noteClosed]
      rw [if_neg Bool.false_ne_true]
      cases hres : waitThenRecvAllData rt true (-1) maxResponseSize (some httpReceiveController)
          .zeroed fd stream sent.events with
      | error stop => rfl
      | ok res =>
        have hreceives := waitThenRecvAllData_reports hres
        have hclose := closeSession_noteClosed fd res.closedSock
        rw [ok_bind, ok_bind]
        by_cases hstatus : res.status = 0
        · rw [hstatus, handleRequestErr_zero, ok_bind, ← hclose]
          rfl
        · rw [handleRequestErr_reports hreceives hstatus, ok_bind, ← hclose]
          refine congrArg Except.ok ?_
          have hfails : (thenClose ⟨res.status, Session.noteClosed ⟨fd, true⟩ res.closedSock,
              res.out, sent.calls ++ res.calls⟩).status ≠ 0 := hstatus
          exact (failsWithOne_failed hfails).symm
    · have hafter : failsWithOne (thenClose ⟨sent.status,
          Session.noteClosed ⟨fd, true⟩ sent.closedSock, none, sent.calls⟩) =
            ⟨1, none, sent.calls ++ if sent.closedSock then [] else [.closed fd]⟩ := by
        rw [failsWithOne_failed hzero, thenClose, closeSession_noteClosed]
      rw [if_pos hzero]
      refine Eq.trans ?_ (congrArg Except.ok hafter).symm
      cases hclosed : sent.closedSock with
      | true =>
        rw [if_pos rfl, if_pos rfl, List.append_nil]
        rfl
      | false =>
        rw [hclosed] at hsends
        rw [if_neg Bool.false_ne_true, handleRequestErr_reports hsends hzero]
        rfl

theorem openSession_new (net : ConnectOutcome) (connectTimeoutUsec : Int) :
    openSession net connectTimeoutUsec newSession =
      match (connectSocket net connectTimeoutUsec false).fd with
      | some fd => .ok ⟨0, ⟨fd, true⟩, none, (connectSocket net connectTimeoutUsec false).calls⟩
      | none => .ok ⟨-1, newSession, none, (connectSocket net connectTimeoutUsec false).calls⟩ := by
  have hclosed : ¬ newSession.isOpen = true := Bool.false_ne_true
  obtain ⟨-, hstatus⟩ := connectSocket_leftWith net connectTimeoutUsec false
  unfold openSession
  rw [if_neg hclosed]
  dsimp only
  generalize connectSocket net connectTimeoutUsec false = conn at hstatus ⊢
  obtain ⟨status, fd, calls⟩ := conn
  dsimp only at hstatus ⊢
  subst hstatus
  cases fd with
  | none => rfl
  | some fd => rfl

/-- One request on its own and one on a session that is opened for it and closed behind it
come to the same, on every way through either of them, but for the status of a failure. -/
theorem httpRawRequest_eq_session (rt : Runtime) (net : ConnectOutcome) (req : StringRef)
    (maxResponseSize : Nat) (connectTimeoutUsec : Int) (stream : Bytes)
    (events : List SocketEvent) :
    httpRawRequest rt net req maxResponseSize connectTimeoutUsec stream events =
      (requestOverSession rt net req maxResponseSize connectTimeoutUsec stream events).map
        failsWithOne := by
  obtain ⟨-, hstatus⟩ := connectSocket_leftWith net connectTimeoutUsec false
  unfold httpRawRequest newSocketSendReceiveClose requestOverSession
  rw [openSession_new]
  dsimp only
  rw [hstatus]
  generalize connectSocket net connectTimeoutUsec false = conn
  cases hfd : conn.fd with
  | none =>
    have hnothing : handleRequestErr (-1) none = .ok (some []) := rfl
    dsimp only [Option.elim]
    rw [hnothing, ok_bind, ok_bind]
    dsimp only
    rw [List.append_nil]
    rfl
  | some fd =>
    dsimp only [Option.elim]
    rw [handleRequestErr_zero, ok_bind, ok_bind]
    dsimp only
    rw [sendReceiveClose_eq, if_neg (fun hne => hne rfl)]
    cases httpRawRequestInSession rt ⟨fd, true⟩ req maxResponseSize stream events with
    | error stop => rfl
    | ok done => rfl

/-- Whatever happened to the addresses in front, the request goes to the first one that can be
connected to, its reply comes back, and the socket is closed. -/
theorem httpRequest_answered (halloc : rt.AllocSucceeds) {net : ConnectOutcome}
    {connectTimeoutUsec : Int} (hconn : (connectSocket net connectTimeoutUsec false).fd = some fd)
    {call : RequestCall} {turn : RequestReply} (asks : Asks call turn) (rest : Bytes)
    {events : List SocketEvent} (hevents : ∀ event ∈ events, Prompt event)
    (hcount : turn.polls ≤ events.length) :
    httpRequest rt net call.req call.maxResponseSize connectTimeoutUsec (turn.reply ++ rest)
        events =
      .ok ⟨0, some ⟨turn.reply.length, turn.reply ++ [0]⟩,
        (connectSocket net connectTimeoutUsec false).calls ++ [.closed fd]⟩ := by
  obtain ⟨-, hstatus⟩ := connectSocket_leftWith net connectTimeoutUsec false
  obtain ⟨done, used, hrun, hanswered, -, -, -⟩ := httpRequestInSession_answered halloc
    (rfl : Session.isOpen ⟨fd, true⟩ = true) asks rest hevents hcount
  have hser := stringifyRequest_eq halloc asks.readable asks.message asks.wire_length
  have hopen : ¬ (!(⟨fd, true⟩ : Session).isOpen) = true := Bool.false_ne_true
  unfold httpRequestInSession at hrun
  rw [if_neg hopen, hser] at hrun
  dsimp only at hrun
  have hraw := rawExchange_result rt ⟨fd, true⟩
    (OwnedString.ref ⟨(requestWire turn.request).length, requestWire turn.request ++ [0]⟩)
    call.maxResponseSize (turn.reply ++ rest) events
  rw [hrun] at hraw
  unfold httpRequest httpRawRequest newSocketSendReceiveClose
  rw [hser]
  dsimp only
  rw [hstatus, hconn]
  dsimp only [Option.elim]
  rw [handleRequestErr_zero, ok_bind]
  dsimp only
  rw [sendReceiveClose_eq, ← hraw]
  dsimp only [Except.map]
  rw [hanswered.result]
  rfl

end OneShot

end Net77.Http
