import Net77.Base.Transition
import Net77.Http.RequestNetworking
import Net77.SocketOwnership

/-! A session knows whether its socket is open, until `closeSession` closes it. -/
namespace Net77

open Net77.Base

/-- The descriptor was returned by `socket`, and nobody has closed it since. -/
def SocketOpen (fd : Int) (calls : List SocketCall) : Prop := Held fd (calls.map SocketCall.entry)

/-- Every descriptor is closed at most once, each time that `socket` returns it. -/
def ClosesAtMostOnce (calls : List SocketCall) : Prop := Orderly (calls.map SocketCall.entry)

section Left

variable {calls given : List SocketCall} {fd : Int}

theorem LeftWith.not_socketOpen (h : LeftWith calls none) : ¬ SocketOpen fd calls :=
  Balanced.not_held h fd

theorem LeftWith.socketOpen (h : LeftWith calls (some fd)) : SocketOpen fd calls := by
  obtain ⟨given, rfl, -⟩ := h
  unfold SocketOpen
  rw [List.map_append]
  exact Balanced.held_acquire fd _

theorem LeftWith.closesAtMostOnce {left : Option Int} (h : LeftWith calls left) :
    ClosesAtMostOnce calls := by
  cases left with
  | none => exact Balanced.orderly h
  | some fd =>
    obtain ⟨given, rfl, hgiven⟩ := h
    unfold ClosesAtMostOnce
    rw [List.map_append]
    exact Balanced.orderly_acquire hgiven fd

/-- A transfer leaves the descriptor with its owner or disposes of it. -/
theorem LeftWith.reports {status : Int} {closedSock : Bool} {more : List SocketCall}
    (h : LeftWith calls (some fd)) (hreports : Reports fd status closedSock more) :
    LeftWith (calls ++ more) (if closedSock then none else some fd) := by
  cases closedSock with
  | false =>
    rw [(hreports.kept rfl).1, List.append_nil]
    exact h
  | true =>
    obtain ⟨given, rfl, hgiven⟩ := h
    rw [List.append_assoc]
    exact hgiven.append (.disposed (hreports.disposed rfl).1)

end Left

namespace Http

/-- A session and all that has happened to descriptors. -/
structure SessionState where
  session : Session
  calls : List SocketCall

/-- A call on the session, with what its system calls meet. -/
inductive SessionEvent where
  | openSession (net : ConnectOutcome) (connectTimeoutUsec : Int)
  | request (req : StringRef) (maxResponseSize : Nat) (stream : Bytes) (events : List SocketEvent)
  | closeSession

def runSession (rt : Runtime) (session : Session) : SessionEvent → Except Stop SessionResult
  | .openSession net connectTimeoutUsec => openSession net connectTimeoutUsec session
  | .request req maxResponseSize stream events =>
    httpRawRequestInSession rt session req maxResponseSize stream events
  | .closeSession => pure (closeSession session)

/-- The session after a call that returns. -/
def stepSession (rt : Runtime) (st : SessionState) (event : SessionEvent) : Option SessionState :=
  match runSession rt st.session event with
  | .ok res => some ⟨res.session, st.calls ++ res.calls⟩
  | .error _ => none

def sessionSystem (rt : Runtime) : System SessionState SessionEvent where
  init := ⟨newSession, []⟩
  step := stepSession rt

/-- What a session is good for between two calls. -/
structure Lifecycle (st : SessionState) : Prop where
  inStep : st.session.isOpen = true ↔ SocketOpen st.session.socketFd st.calls
  closedOnce : ClosesAtMostOnce st.calls
  closedAgain : ¬ SocketOpen st.session.socketFd st.calls →
    closeSession st.session = ⟨1, st.session, none, []⟩
  reopened : ¬ SocketOpen st.session.socketFd st.calls → ∀ net connectTimeoutUsec,
    ∃ res, openSession net connectTimeoutUsec st.session = .ok res

/-- The event is not a call of `closeSession` that finds the session open. -/
def leavesOpen (st : SessionState) : SessionEvent → Bool
  | .closeSession => !st.session.isOpen
  | _ => true

/-- The flag says which descriptor the session is left with. -/
def Tracked (st : SessionState) : Prop :=
  LeftWith st.calls (if st.session.isOpen then some st.session.socketFd else none)

section Steps

variable {rt : Runtime} {st st' : SessionState}

theorem Tracked.lifecycle (h : Tracked st) : Lifecycle st := by
  obtain ⟨⟨fd, isOpen⟩, calls⟩ := st
  unfold Tracked at h
  cases isOpen with
  | true =>
    have hopen : SocketOpen fd calls := h.socketOpen
    exact ⟨iff_of_true rfl hopen, h.closesAtMostOnce, fun hnot => absurd hopen hnot,
      fun hnot => absurd hopen hnot⟩
  | false =>
    have hclosed : ¬ SocketOpen fd calls := h.not_socketOpen
    refine ⟨iff_of_false (by simp) hclosed, h.closesAtMostOnce, fun _ => rfl, ?_⟩
    intro _ net connectTimeoutUsec
    exact ⟨_, rfl⟩

theorem Tracked.openSession (h : Tracked st) {net : ConnectOutcome} {connectTimeoutUsec : Int}
    {res : SessionResult} (hok : openSession net connectTimeoutUsec st.session = .ok res) :
    Tracked ⟨res.session, st.calls ++ res.calls⟩ := by
  unfold Http.openSession at hok
  split at hok
  · simp at hok
  · rename_i hclosed
    unfold Tracked at h ⊢
    rw [if_neg hclosed] at h
    cases Except.ok.inj hok
    obtain ⟨hleft, hstatus⟩ := connectSocket_leftWith net connectTimeoutUsec false
    have hafter := hleft.after h
    dsimp only
    generalize connectSocket net connectTimeoutUsec false = conn at hafter hstatus ⊢
    cases hfd : conn.fd with
    | none =>
      rw [hfd] at hstatus hafter
      rw [hstatus]
      simpa [hclosed] using hafter
    | some fd =>
      rw [hfd] at hstatus hafter
      rw [hstatus]
      simpa using hafter

/-- A transfer on the open session, and the note of its outcome. -/
theorem Tracked.noteClosed (h : Tracked st) (hopen : st.session.isOpen = true) {status : Int}
    {closedSock : Bool} {calls : List SocketCall}
    (hreports : Reports st.session.socketFd status closedSock calls) :
    Tracked ⟨st.session.noteClosed closedSock, st.calls ++ calls⟩ := by
  unfold Tracked at h ⊢
  rw [if_pos hopen] at h
  have hleft := h.reports hreports
  unfold Session.noteClosed
  cases closedSock with
  | false => simpa [hopen] using hleft
  | true => simpa using hleft

theorem Tracked.request (h : Tracked st) {req : StringRef} {maxResponseSize : Nat}
    {stream : Bytes} {events : List SocketEvent} {res : SessionResult}
    (hok : httpRawRequestInSession rt st.session req maxResponseSize stream events = .ok res) :
    Tracked ⟨res.session, st.calls ++ res.calls⟩ := by
  unfold httpRawRequestInSession at hok
  split at hok
  · simp at hok
  · rename_i hopen
    have hopen : st.session.isOpen = true := by simpa using hopen
    obtain ⟨sent, hsent, hok⟩ := bind_eq_ok.mp hok
    have hsends := sendLoop_reports hsent
    have hafter := h.noteClosed hopen hsends
    split at hok
    · cases Except.ok.inj hok
      exact hafter
    · rename_i hzero
      -- a send that closed the socket does not come here
      have hkept : sent.closedSock = false := sendLoop_kept hsent (not_not.mp hzero)
      obtain ⟨recv, hrecv, hok⟩ := bind_eq_ok.mp hok
      cases Except.ok.inj hok
      have hreceives := waitThenRecvAllData_reports hrecv
      rw [hkept] at hafter hreceives ⊢
      have hboth := hafter.noteClosed hopen hreceives
      rw [List.append_assoc] at hboth
      exact hboth

theorem Tracked.step (h : Tracked st) {event : SessionEvent}
    (hleaves : leavesOpen st event = true) (hstep : stepSession rt st event = some st') :
    Tracked st' := by
  unfold stepSession at hstep
  split at hstep
  · rename_i res hrun
    cases Option.some.inj hstep
    cases event with
    | openSession net connectTimeoutUsec => exact h.openSession hrun
    | request req maxResponseSize stream events => exact h.request hrun
    | closeSession =>
      have hclosed : st.session.isOpen = false := by simpa [leavesOpen] using hleaves
      cases Except.ok.inj hrun
      unfold closeSession
      rw [hclosed]
      simpa using h
  · contradiction

/-- The session is out of step as soon as `closeSession` finds it open, and not
before: it closes the socket and leaves the flag as it is. -/
theorem session_lifecycle (h : Reachable (sessionSystem rt) leavesOpen st) :
    Lifecycle st ∧ ∀ event st', stepSession rt st event = some st' →
      (Lifecycle st' ↔ leavesOpen st event = true) := by
  have htracked : Tracked st := by
    refine h.invariant ClosesEverySocket.nil ?_
    intro st event st' htracked hleaves hstep
    exact htracked.step hleaves hstep
  refine ⟨htracked.lifecycle, ?_⟩
  intro event st' hstep
  constructor
  · intro hafter
    cases event with
    | openSession net connectTimeoutUsec => rfl
    | request req maxResponseSize stream events => rfl
    | closeSession =>
      cases hopen : st.session.isOpen with
      | false => simp [leavesOpen, hopen]
      | true =>
        -- the flag is still set, and the last call closed the socket
        cases Option.some.inj hstep
        have hheld := hafter.inStep.mp (by simp [closeSession, hopen])
        simp [SocketOpen, Held, closeSession, hopen, SocketCall.entry, Entry.key] at hheld
  · intro hleaves
    exact (htracked.step hleaves hstep).lifecycle

end Steps

/-- A server at the other end of descriptor 3. -/
def reachablePeer : ConnectOutcome := ⟨some [⟨3, 0, 0, 0, 0, 0, 0⟩], 0, 0⟩

/-- The peer hangs up on a request, and the session is opened again. -/
theorem session_lifecycle_reopened :
    ∃ st, Lifecycle st ∧ st.calls = [.opened 3, .closed 3, .opened 3] := by
  obtain ⟨st, hreached, hcalls⟩ := System.reachable_of_run (sessionSystem .unlimited) leavesOpen
    [.openSession reachablePeer (-1),
      .request ⟨1, [63]⟩ 16 []
        [⟨.ready ⟨false, false, false, true, false, by decide⟩, 0⟩],
      .closeSession, .openSession reachablePeer (-1)]
    (fun st => st.calls = [.opened 3, .closed 3, .opened 3]) (by decide +kernel)
  exact ⟨st, (session_lifecycle hreached).1, of_decide_eq_true hcalls⟩

/-- A session that was opened once is closed twice. -/
theorem closeSession_closes_twice :
    ∃ st, Reachable (sessionSystem .unlimited) (fun _ _ => true) st ∧ ¬ Lifecycle st ∧
      st.calls = [.opened 3, .closed 3, .closed 3] := by
  obtain ⟨st, hreached, hends⟩ := System.reachable_of_run (sessionSystem .unlimited)
    (fun _ _ => true) [.openSession reachablePeer (-1), .closeSession, .closeSession]
    (fun st => st.session = ⟨3, true⟩ ∧ st.calls = [.opened 3, .closed 3, .closed 3])
    (by decide +kernel)
  obtain ⟨hsession, hcalls⟩ := of_decide_eq_true hends
  refine ⟨st, hreached, ?_, hcalls⟩
  intro hlifecycle
  have hheld := hlifecycle.inStep.mp (by rw [hsession])
  rw [hsession, hcalls] at hheld
  exact absurd hheld (by unfold SocketOpen Held; decide)

end Http

end Net77
