import Net77.Base.Ledger
import Net77.Receive
import Net77.Sock

/-! The client closes what it opened. A descriptor changes hands between four
functions, and each of them says by its status and by `out_closed_sock` whether
its caller still has it. -/
namespace Net77

open Net77.Base

def SocketCall.entry : SocketCall → Entry Int
  | .opened fd => .acquire fd
  | .closed fd => .release fd
  | .invalid fd => .forfeit fd

/-- Every descriptor is closed once, or reported not to be open and left alone. -/
def ClosesEverySocket (calls : List SocketCall) : Prop := Balanced (calls.map SocketCall.entry)

/-- The calls that end the life of a descriptor. -/
def Disposed (fd : Int) (calls : List SocketCall) : Prop := calls = [.closed fd] ∨ calls = [.invalid fd]

/-- What a transfer tells its caller: it has kept its hands off the descriptor,
or it is gone, which is never reported with a positive status. -/
structure Reports (fd status : Int) (closedSock : Bool) (calls : List SocketCall) : Prop where
  kept : closedSock = false → calls = [] ∧ 0 ≤ status
  disposed : closedSock = true → Disposed fd calls ∧ status ≤ 0

namespace ClosesEverySocket

theorem nil : ClosesEverySocket [] := Balanced.nil

theorem append {first second : List SocketCall} (hfirst : ClosesEverySocket first)
    (hsecond : ClosesEverySocket second) : ClosesEverySocket (first ++ second) := by
  unfold ClosesEverySocket
  rw [List.map_append]
  exact Balanced.append hfirst hsecond

theorem disposed {fd : Int} {calls : List SocketCall} (h : Disposed fd calls) :
    ClosesEverySocket (.opened fd :: calls) := by
  rcases h with rfl | rfl
  · exact Balanced.released fd
  · exact Balanced.forfeited fd

theorem closed (fd : Int) : ClosesEverySocket [.opened fd, .closed fd] := disposed (.inl rfl)

end ClosesEverySocket

namespace Reports

variable {fd status : Int}

theorem keeps (h : 0 ≤ status) : Reports fd status false [] :=
  ⟨fun _ => ⟨rfl, h⟩, fun h => by contradiction⟩

theorem disposes {calls : List SocketCall} (h : Disposed fd calls) (hstatus : status ≤ 0) :
    Reports fd status true calls :=
  ⟨fun h => by contradiction, fun _ => ⟨h, hstatus⟩⟩

end Reports

section Transfers

variable {fd : Int}

theorem sendLoop_reports {buf sent : Bytes} {len : Nat} {events : List SocketEvent}
    {res : SendResult} (h : sendLoop fd buf len sent events = .ok res) :
    Reports fd res.status res.closedSock res.calls := by
  induction events generalizing sent with
  | nil =>
    unfold sendLoop at h
    split at h
    · simp at h
    · cases Except.ok.inj h
      exact .keeps (by simp)
  | cons event events ih =>
    unfold sendLoop at h
    split at h
    · split at h
      · cases Except.ok.inj h
        exact .keeps (by simp)
      · cases Except.ok.inj h
        exact .keeps (by simp)
      · split at h
        · cases Except.ok.inj h
          exact .disposes (.inl rfl) (by simp)
        · split at h
          · cases Except.ok.inj h
            exact .disposes (.inl rfl) (by simp)
          · split at h
            · cases Except.ok.inj h
              exact .disposes (.inr rfl) (by simp)
            · split at h
              · simp at h
              · dsimp only at h
                split at h
                · simp at h
                · exact ih h
    · cases Except.ok.inj h
      exact .keeps (by simp)

/-- Who is told that the socket is gone is told of an error as well. -/
theorem sendLoop_closed_status {buf sent : Bytes} {len : Nat} {events : List SocketEvent}
    {res : SendResult} (h : sendLoop fd buf len sent events = .ok res)
    (hclosed : res.closedSock = true) : res.status ≠ 0 := by
  induction events generalizing sent with
  | nil =>
    unfold sendLoop at h
    split at h
    · simp at h
    · cases Except.ok.inj h
      contradiction
  | cons event events ih =>
    unfold sendLoop at h
    split at h
    · split at h
      · cases Except.ok.inj h
        simp
      · cases Except.ok.inj h
        contradiction
      · split at h
        · cases Except.ok.inj h
          simp
        · split at h
          · cases Except.ok.inj h
            simp
          · split at h
            · cases Except.ok.inj h
              simp
            · split at h
              · simp at h
              · dsimp only at h
                split at h
                · simp at h
                · exact ih h
    · cases Except.ok.inj h
      contradiction

theorem sendLoop_kept {buf sent : Bytes} {len : Nat} {events : List SocketEvent}
    {res : SendResult} (h : sendLoop fd buf len sent events = .ok res) (zero : res.status = 0) :
    res.closedSock = false := by
  by_contra hclosed
  exact sendLoop_closed_status h (eq_true_of_ne_false hclosed) zero

variable {σ : Type} {rt : Runtime} {call : RecvCall σ}

/-- The descriptor is still with the loop. -/
structure RecvState.Owns (st : RecvState σ) : Prop where
  closedSock : st.closedSock = false
  calls : st.calls = []

/-- How an iteration leaves the descriptor. It can only be gone where the loop
condition holds, so that the test behind `done` cannot make an error of it. -/
def RecvNext.Reports (fd : Int) : RecvNext σ → Prop
  | .again st => st.Owns
  | .done ec st => st.Owns ∧ 0 ≤ ec ∨
      st.closedSock = true ∧ Disposed fd st.calls ∧ ec ≤ 0 ∧ st.wantsMore = true

theorem finish_reports {ec : Int} {st : RecvState σ} (h : (RecvNext.done ec st).Reports fd)
    (events : List SocketEvent) :
    Net77.Reports fd (st.finish ec events).status (st.finish ec events).closedSock
      (st.finish ec events).calls := by
  rcases h with ⟨howns, hec⟩ | ⟨hclosed, hdisposed, hec, hmore⟩
  · constructor
    · intro _
      refine ⟨howns.calls, ?_⟩
      unfold RecvState.finish
      dsimp only
      split <;> omega
    · intro hclosed
      rw [RecvState.finish, howns.closedSock] at hclosed
      contradiction
  · constructor
    · intro hopen
      rw [RecvState.finish, hclosed] at hopen
      contradiction
    · intro _
      refine ⟨hdisposed, ?_⟩
      unfold RecvState.wantsMore at hmore
      unfold RecvState.finish
      dsimp only
      rw [if_neg]
      · exact hec
      · simp at hmore
        omega

theorem runController_reports {st : RecvState σ} (h : st.Owns) {next : RecvNext σ}
    (hok : runController call st = .ok next) : next.Reports fd := by
  unfold runController at hok
  split at hok
  · cases Except.ok.inj hok
    exact h
  · obtain ⟨buf, -, hok⟩ := bind_eq_ok.mp hok
    obtain ⟨⟨maxLen, action, state⟩, -, hok⟩ := bind_eq_ok.mp hok
    dsimp only at hok
    split at hok
    · cases Except.ok.inj hok
      exact ⟨h.closedSock, h.calls⟩
    · cases Except.ok.inj hok
      exact .inl ⟨⟨h.closedSock, h.calls⟩, by decide⟩
    · cases Except.ok.inj hok
      exact .inl ⟨⟨h.closedSock, h.calls⟩, by decide⟩

theorem close_reports {ec : Int} {st : RecvState σ} (h : st.Owns) (hmore : st.wantsMore = true)
    (hec : ec ≤ 0) : (RecvNext.done ec (st.close fd)).Reports fd := by
  refine .inr ⟨rfl, .inl ?_, hec, hmore⟩
  rw [RecvState.close, h.calls, List.nil_append]

theorem recvStep_reports {event : SocketEvent} {st : RecvState σ} (h : st.Owns)
    (hmore : st.wantsMore = true) {next : RecvNext σ} (hok : recvStep rt call event st = .ok next) :
    next.Reports call.fd := by
  unfold recvStep at hok
  split at hok
  · cases Except.ok.inj hok
    exact .inl ⟨h, by decide⟩
  · cases Except.ok.inj hok
    refine .inl ⟨h, ?_⟩
    split <;> decide
  · split at hok
    · cases Except.ok.inj hok
      exact close_reports h hmore (by decide)
    · split at hok
      · cases Except.ok.inj hok
        exact close_reports h hmore (by decide)
      · split at hok
        · cases Except.ok.inj hok
          refine .inr ⟨rfl, .inr ?_, by decide, hmore⟩
          rw [RecvState.reportInvalid, h.calls, List.nil_append]
        · split at hok
          · simp at hok
          · unfold recvChunk at hok
            obtain ⟨⟨builder, chunk⟩, -, hok⟩ := bind_eq_ok.mp hok
            dsimp only at hok
            split at hok
            · rename_i hnil
              subst hnil
              cases Except.ok.inj hok
              exact close_reports ⟨h.closedSock, h.calls⟩ hmore (by decide)
            · refine runController_reports ?_ hok
              exact ⟨h.closedSock, h.calls⟩

theorem LoopRun.reports {events : List SocketEvent} {st : RecvState σ} {res : RecvResult}
    (run : LoopRun rt call events st res) (h : st.Owns) :
    Reports call.fd res.status res.closedSock res.calls := by
  induction run with
  | stopped stop => exact finish_reports (.inl ⟨h, by decide⟩) _
  | again more step run ih => exact ih (recvStep_reports h more step)
  | done more step => exact finish_reports (recvStep_reports h more step) _

theorem recvAllData_reports {builder : StringBuilder} {maxLen sbMinCap : Int}
    {timeoutIsError : Bool} {controller : Option (RecvController σ)} {state : σ} {stream : Bytes}
    {events : List SocketEvent} {res : RecvResult}
    (h : recvAllData rt fd builder maxLen timeoutIsError sbMinCap controller state stream events =
      .ok res) : Reports fd res.status res.closedSock res.calls := by
  unfold recvAllData at h
  obtain ⟨room, -, h⟩ := bind_eq_ok.mp h
  obtain ⟨next, hnext, h⟩ := bind_eq_ok.mp h
  have hreports : next.Reports fd := runController_reports ⟨rfl, rfl⟩ hnext
  cases next with
  | again st => exact (recvLoop_run h).reports hreports
  | done ec st =>
    cases Except.ok.inj h
    exact finish_reports hreports events

end Transfers

section Client

variable {σ : Type} {rt : Runtime} {timeoutIsError : Bool} {clientBufSize : Int}
  {maxResponseSize : Nat} {controller : Option (RecvController σ)} {state : σ}

theorem waitThenRecvAllData_reports {fd : Int} {stream : Bytes} {events : List SocketEvent}
    {res : WaitResult}
    (h : waitThenRecvAllData rt timeoutIsError clientBufSize maxResponseSize controller state fd
      stream events = .ok res) : Reports fd res.status res.closedSock res.calls := by
  unfold waitThenRecvAllData at h
  split at h
  · simp at h
  · split at h
    · cases Except.ok.inj h
      exact .keeps (by simp)
    · cases Except.ok.inj h
      exact .keeps (by simp)
    · split at h
      · cases Except.ok.inj h
        exact .disposes (.inl rfl) (by simp)
      · split at h
        · cases Except.ok.inj h
          exact .disposes (.inl rfl) (by simp)
        · split at h
          · cases Except.ok.inj h
            exact .disposes (.inr rfl) (by simp)
          · split at h
            · simp at h
            · unfold recvResponse at h
              obtain ⟨builder, -, h⟩ := bind_eq_ok.mp h
              obtain ⟨recv, hrecv, h⟩ := bind_eq_ok.mp h
              have hreports := recvAllData_reports hrecv
              split at h
              · cases Except.ok.inj h
                exact hreports
              · rename_i hzero
                obtain ⟨⟨out, builder⟩, -, h⟩ := bind_eq_ok.mp h
                cases Except.ok.inj h
                rw [not_not] at hzero
                rw [hzero] at hreports
                exact hreports

/-- The calls of someone who is left with the given descriptor, or with none. -/
def LeftWith (calls : List SocketCall) : Option Int → Prop
  | none => ClosesEverySocket calls
  | some fd => ∃ given, calls = given ++ [.opened fd] ∧ ClosesEverySocket given

theorem LeftWith.after {first calls : List SocketCall} {fd : Option Int}
    (hfirst : ClosesEverySocket first) (h : LeftWith calls fd) : LeftWith (first ++ calls) fd := by
  cases fd with
  | none => exact hfirst.append h
  | some fd =>
    obtain ⟨given, rfl, hgiven⟩ := h
    exact ⟨first ++ given, (List.append_assoc _ _ _).symm, hfirst.append hgiven⟩

theorem tryAddresses_leftWith (timeoutUsec : Int) (enableDelaying : Bool)
    (addresses : List AddressOutcome) :
    LeftWith (tryAddresses timeoutUsec enableDelaying addresses).2
      (tryAddresses timeoutUsec enableDelaying addresses).1 := by
  induction addresses with
  | nil => exact ClosesEverySocket.nil
  | cons address rest ih =>
    have hgiven := ih.after (.closed address.socket)
    unfold tryAddresses
    dsimp only
    split
    · exact ih
    · split
      · exact hgiven
      · split
        · exact ⟨[], rfl, .nil⟩
        · exact hgiven

/-- The caller has exactly the descriptor that it is told. -/
theorem connectSocket_leftWith (net : ConnectOutcome) (timeoutUsec : Int) (enableDelaying : Bool) :
    LeftWith (connectSocket net timeoutUsec enableDelaying).calls
        (connectSocket net timeoutUsec enableDelaying).fd ∧
      (connectSocket net timeoutUsec enableDelaying).status =
        (connectSocket net timeoutUsec enableDelaying).fd.elim (-1) fun _ => 0 := by
  unfold connectSocket
  dsimp only
  cases net.addresses with
  | none => exact ⟨ClosesEverySocket.nil, rfl⟩
  | some addresses =>
    have hleft := tryAddresses_leftWith
      (if timeoutUsec < 0 then defaultServerConnectTimeoutUsec else timeoutUsec) enableDelaying
      addresses
    dsimp only
    generalize tryAddresses _ enableDelaying addresses = found at hleft ⊢
    obtain ⟨fd, calls⟩ := found
    cases fd with
    | none => exact ⟨hleft, rfl⟩
    | some fd =>
      dsimp only
      split
      · obtain ⟨given, rfl, hgiven⟩ := hleft
        refine ⟨?_, rfl⟩
        dsimp only
        rw [List.append_assoc]
        exact hgiven.append (.closed fd)
      · exact ⟨hleft, rfl⟩

/-- `HANDLE_REQUEST_ERR` disposes of the descriptor, if nobody has done it yet. -/
theorem handleRequestErr_disposes {fd status : Int} {closedSock : Bool}
    {calls more : List SocketCall} (h : Reports fd status closedSock calls)
    (hok : handleRequestErr status (some fd) = .ok (some more)) : Disposed fd (calls ++ more) := by
  unfold handleRequestErr at hok
  split at hok
  · simp at hok
  · split at hok
    · cases Except.ok.inj hok
      cases closedSock with
      | false =>
        rw [(h.kept rfl).1]
        exact .inl rfl
      | true =>
        have := (h.disposed rfl).2
        omega
    · cases Except.ok.inj hok
      cases closedSock with
      | false =>
        have := (h.kept rfl).2
        omega
      | true =>
        rw [List.append_nil]
        exact (h.disposed rfl).1

/-- Behind `connectSocket`, the descriptor is disposed of on every way out. -/
theorem sendReceiveClose_disposes {data : StringRef} {fd : Int} {stream : Bytes}
    {events : List SocketEvent} {res : ClientResult}
    (h : sendReceiveClose rt timeoutIsError clientBufSize maxResponseSize controller state data fd
      stream events = .ok res) : Disposed fd res.calls := by
  unfold sendReceiveClose at h
  obtain ⟨sent, hsent, h⟩ := bind_eq_ok.mp h
  have hsends := sendLoop_reports hsent
  split at h
  · rename_i hclosed
    cases Except.ok.inj h
    exact (hsends.disposed hclosed).1
  · rename_i hopen
    have hnothing := (hsends.kept (by simpa using hopen)).1
    obtain ⟨handled, hhandled, h⟩ := bind_eq_ok.mp h
    cases handled with
    | some calls =>
      cases Except.ok.inj h
      exact handleRequestErr_disposes hsends hhandled
    | none =>
      obtain ⟨recv, hrecv, h⟩ := bind_eq_ok.mp h
      have hreceives := waitThenRecvAllData_reports hrecv
      obtain ⟨handled, hhandled, h⟩ := bind_eq_ok.mp h
      rw [hnothing] at h
      cases handled with
      | some calls =>
        cases Except.ok.inj h
        exact handleRequestErr_disposes hreceives hhandled
      | none =>
        cases Except.ok.inj h
        dsimp only
        rw [List.nil_append]
        cases hclosed : recv.closedSock with
        | false =>
          rw [(hreceives.kept hclosed).1]
          exact .inl rfl
        | true =>
          rw [if_pos rfl, List.append_nil]
          exact (hreceives.disposed hclosed).1

/-- The client closes every socket exactly once. -/
theorem newSocketSendReceiveClose_closes {net : ConnectOutcome} {connectTimeoutUsec : Int}
    {enableDelaying : Bool} {data : StringRef} {stream : Bytes} {events : List SocketEvent}
    {res : ClientResult}
    (h : newSocketSendReceiveClose rt timeoutIsError clientBufSize maxResponseSize controller state
      net connectTimeoutUsec enableDelaying data stream events = .ok res) :
    ClosesEverySocket res.calls := by
  obtain ⟨hleft, hstatus⟩ := connectSocket_leftWith net connectTimeoutUsec enableDelaying
  unfold newSocketSendReceiveClose at h
  dsimp only at h
  generalize connectSocket net connectTimeoutUsec enableDelaying = conn at h hleft hstatus
  obtain ⟨status, fd, calls⟩ := conn
  dsimp only at h hleft hstatus
  subst hstatus
  cases fd with
  | none =>
    cases Except.ok.inj h
    dsimp only
    rw [List.append_nil]
    exact hleft
  | some fd =>
    obtain ⟨handled, hhandled, h⟩ := bind_eq_ok.mp h
    cases Except.ok.inj hhandled
    obtain ⟨res, hres, h⟩ := bind_eq_ok.mp h
    cases Except.ok.inj h
    obtain ⟨given, rfl, hgiven⟩ := hleft
    have hdisposed := sendReceiveClose_disposes hres
    dsimp only
    rw [List.append_assoc]
    exact hgiven.append (.disposed hdisposed)

/-- The first address does not take `TCP_NODELAY`, the second one answers. -/
def secondAddress : Except Stop ClientResult :=
  newSocketSendReceiveClose .unlimited true 16 2 (none : Option (RecvController Unit)) ()
    ⟨some [⟨3, 0, 0, 0, 0, 1, 0⟩, ⟨3, 0, 0, 0, 0, 0, 0⟩], 0, 0⟩ (-1) false ⟨1, [63]⟩ [111, 107]
    (List.replicate 4 ⟨.ready (.only true true), 1⟩)

theorem newSocketSendReceiveClose_closes_both :
    ∃ res, secondAddress = .ok res ∧ ClosesEverySocket res.calls := by
  cases hrun : secondAddress with
  | ok res => exact ⟨res, rfl, newSocketSendReceiveClose_closes hrun⟩
  | error stop =>
    have hreturns : secondAddress.toOption.isSome = true := by decide +kernel
    rw [hrun] at hreturns
    contradiction

end Client

end Net77
