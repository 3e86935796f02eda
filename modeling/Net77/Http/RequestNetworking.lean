import Net77.Http.RecvController
import Net77.Sock

/-! The sessions of `lib/http/request_networking.c`. -/
namespace Net77.Http

open Net77.Base

structure Session where
  socketFd : Int
  isOpen : Bool
  deriving DecidableEq, Repr

def newSession : Session := ⟨0, false⟩

/-- What a call returns and what it did to descriptors. `out` is `none` where
`*out` is not written, or where the call has no such parameter. -/
structure SessionResult where
  status : Int
  session : Session
  out : Option OwnedString
  calls : List SocketCall

def openSession (net : ConnectOutcome) (connectTimeoutUsec : Int) (session : Session) :
    Except Stop SessionResult :=
  if session.isOpen then .error (.fault .assertFailed)
  else
    let conn := connectSocket net connectTimeoutUsec false
    let session := { session with socketFd := conn.fd.getD session.socketFd }
    pure ⟨conn.status, if conn.status = 0 then { session with isOpen := true } else session, none,
      conn.calls⟩

def closeSession (session : Session) : SessionResult :=
  if session.isOpen then ⟨0, session, none, [.closed session.socketFd]⟩
  else ⟨1, session, none, []⟩

/-- `if (closed_sock) session->is_open = 0`. -/
def Session.noteClosed (session : Session) (closedSock : Bool) : Session :=
  if closedSock then { session with isOpen := false } else session

def httpRawRequestInSession (rt : Runtime) (session : Session) (req : StringRef)
    (maxResponseSize : Nat) (stream : Bytes) (events : List SocketEvent) :
    Except Stop SessionResult :=
  if !session.isOpen then .error (.fault .assertFailed)
  else do
    let sent ← sendAllData session.socketFd req.data req.len events
    let session := session.noteClosed sent.closedSock
    if sent.status ≠ 0 then pure ⟨sent.status, session, none, sent.calls⟩
    else
      let res ← waitThenRecvAllData rt true (-1) maxResponseSize (some httpReceiveController)
        .zeroed session.socketFd stream sent.events
      pure ⟨res.status, session.noteClosed res.closedSock, res.out, sent.calls ++ res.calls⟩

end Net77.Http
