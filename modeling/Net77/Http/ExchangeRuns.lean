import Net77.Http.Exchange

/-! What successful calls on a session say about the wire, whatever the peer sends, whatever
`poll` reports and however the bytes are cut. -/
namespace Net77

open Net77.Base

section Wire

variable {fd : Int}

theorem not_timesOut {left : Nat} {events : List SocketEvent}
    (patient : ∀ event ∈ events, event.poll ≠ .timedOut) : ¬ TimesOut left events := by
  intro h
  induction h with
  | now unsent poll => exact patient _ List.mem_cons_self poll
  | later ready more ih => exact ih fun event hmem => patient event (List.mem_cons_of_mem _ hmem)

/-- Without a timeout, a status of 0 means that everything was sent. -/
theorem sendAllData_patient {buf extra : Bytes} {events : List SocketEvent} {res : SendResult}
    (hok : sendAllData fd (buf ++ extra) buf.length events = .ok res)
    (patient : ∀ event ∈ events, event.poll ≠ .timedOut) (zero : res.status = 0) :
    res.sent = buf := by
  have hsends : SendsAll buf res :=
    (sendRest_right_iff fd [] buf extra events).mpr (not_timesOut patient) res hok
  exact hsends.complete.mp zero

/-- The events are used up from the front. -/
theorem sendLoop_events {buf sent : Bytes} {len : Nat} {events : List SocketEvent}
    {res : SendResult} (h : sendLoop fd buf len sent events = .ok res) : res.events <:+ events := by
  induction events generalizing sent with
  | nil =>
    unfold sendLoop at h
    split at h
    · contradiction
    · cases Except.ok.inj h
      exact List.suffix_rfl
  | cons event events ih =>
    have htail : events <:+ event :: events := List.suffix_cons event events
    unfold sendLoop at h
    split at h
    · split at h
      · cases Except.ok.inj h
        exact htail
      · cases Except.ok.inj h
        exact htail
      · split at h
        · cases Except.ok.inj h
          exact htail
        · split at h
          · cases Except.ok.inj h
            exact htail
          · split at h
            · cases Except.ok.inj h
              exact htail
            · split at h
              · contradiction
              · dsimp only at h
                split at h
                · contradiction
                · exact (ih h).trans htail
    · cases Except.ok.inj h
      exact List.suffix_rfl

variable {σ : Type} {rt : Runtime} {call : RecvCall σ} {st : RecvState σ}

theorem LoopRun.events_suffix {events : List SocketEvent} {res : RecvResult}
    (run : LoopRun rt call events st res) : res.events <:+ events := by
  induction run with
  | stopped stop => exact List.suffix_rfl
  | again more step run ih => exact ih.trans (List.suffix_cons _ _)
  | done more step => exact List.suffix_cons _ _

theorem recvAllData_events {builder : StringBuilder} {maxLen sbMinCap : Int}
    {timeoutIsError : Bool} {controller : Option (RecvController σ)} {state : σ} {stream : Bytes}
    {events : List SocketEvent} {res : RecvResult}
    (h : recvAllData rt fd builder maxLen timeoutIsError sbMinCap controller state stream events =
      .ok res) : res.events <:+ events := by
  unfold recvAllData at h
  obtain ⟨room, -, h⟩ := bind_eq_ok.mp h
  obtain ⟨next, -, h⟩ := bind_eq_ok.mp h
  cases next with
  | again st => exact (recvLoop_run h).events_suffix
  | done ec st =>
    cases Except.ok.inj h
    exact List.suffix_rfl

/-- Only a readable descriptor and a hang-up let a call go on that takes a timeout for an
error. -/
theorem recvStep_polled (impatient : call.timeoutIsError = true) {event : SocketEvent}
    {next : RecvNext σ} (hok : recvStep rt call event st = .ok next) :
    event.Readable ∨ event.HungUp ∨ ∃ ec gone, next = .done ec gone ∧ ec ≠ 0 := by
  unfold recvStep at hok
  split at hok
  · cases Except.ok.inj hok
    exact .inr (.inr ⟨1, st, rfl, by decide⟩)
  · cases Except.ok.inj hok
    rw [impatient]
    exact .inr (.inr ⟨1, st, rfl, by decide⟩)
  · rename_i r hpoll
    split at hok
    · cases Except.ok.inj hok
      exact .inr (.inr ⟨-1, _, rfl, by decide⟩)
    · rename_i herr
      have herr : r.pollerr = false := by simpa using herr
      split at hok
      · rename_i hhup
        rw [Bool.and_eq_true, Bool.not_eq_true'] at hhup
        exact .inr (.inl ⟨r, hpoll, hhup.2, herr, hhup.1⟩)
      · split at hok
        · cases Except.ok.inj hok
          exact .inr (.inr ⟨-1, _, rfl, by decide⟩)
        · rename_i hnval
          split at hok
          · contradiction
          · rename_i hin
            refine .inl ⟨r, hpoll, by simpa using hin, herr, ?_⟩
            cases hinvalid : r.pollnval with
            | false => rfl
            | true =>
              have hhup := (r.nval_alone hinvalid).2
              simp [hinvalid, hhup] at hnval

end Wire

namespace Http

/-- The receptions that successive calls with these limits take off a stream. -/
def takeReceptions : List Int → Bytes → Except Stop (List Reception × Bytes)
  | [], stream => pure ([], stream)
  | limit :: limits, stream => do
    let r ← receiveMessage stream limit
    let (more, rest) ← takeReceptions limits (stream.drop r.bytes.length)
    pure (r :: more, rest)

section Loop

variable {rt : Runtime} {call : RecvCall HttpReceiveControllerState} {stream text : Bytes}
  {og : Int} {st : RecvState HttpReceiveControllerState}

/-- An iteration that ends the loop without an error has seen the end of the stream. -/
theorem recvChunk_ended (hcall : Controls call []) (hog : IsSsize og)
    (h : Receiving og [] stream text st) (hmore : st.wantsMore = true) {size : Nat}
    {st' : RecvState HttpReceiveControllerState}
    (hok : recvChunk rt call size st = .ok (.done 0 st')) :
    MayHold st'.builder text ∧ st'.received = text.length := by
  have hholds : st.builder.Holds text := h.holds
  unfold recvChunk at hok
  obtain ⟨⟨builder, chunk⟩, hinto, hok⟩ := bind_eq_ok.mp hok
  have hlen : st.received ≤ ([] ++ text : Bytes).length := h.received.le
  obtain ⟨hchunk, -, hfull⟩ := recvInto_spec h.holds hlen (h.limit_isSsize hog)
    (wantsMore_iff.mp hmore) hinto
  dsimp only at hok
  by_cases hnil : chunk = []
  · subst hnil
    rw [if_pos rfl] at hok
    cases Except.ok.inj hok
    obtain ⟨room, hroom, hinto⟩ := bind_eq_ok.mp hinto
    have hsame : room = builder := by
      dsimp only at hinto
      split at hinto
      · exact (Prod.mk.inj (Except.ok.inj hinto)).1
      · rename_i hne
        obtain ⟨cells, -, hinto⟩ := bind_eq_ok.mp hinto
        exact absurd (Prod.mk.inj (Except.ok.inj hinto)).2 hne
    subst hsame
    exact ⟨reserveRecv_mayHold hholds hroom, h.received⟩
  · rw [if_neg hnil] at hok
    obtain ⟨hmoved, hlimit⟩ := hfull hnil
    obtain ⟨tail, htail⟩ := hchunk
    have hspec := runController_spec { st with
        builder, received := st.received + chunk.length, stream := st.stream.drop chunk.length }
      stream hcall hnil h.phase (by rw [← List.append_assoc]; exact hmoved)
      (by rw [List.length_append, h.received])
      (by rw [← htail, List.drop_left, List.append_assoc, htail, h.rest]) h.within
      (by rw [List.length_append, ← h.received]; exact hlimit) h.stillOpen
    rw [hok] at hspec
    exact absurd hspec.1 (by decide)

/-- A loop that ends with success has received what the stream says, and its builder can be
turned into it. -/
theorem loopRun_succeeds (hcall : Controls call []) (hog : IsSsize og)
    (impatient : call.timeoutIsError = true) {events : List SocketEvent} {res : RecvResult}
    (run : LoopRun rt call events st res) (zero : res.status = 0)
    (hend : res.closedSock = true → res.stream = []) (h : Receiving og [] stream text st) :
    ∃ r, receiveMessage stream og = .ok r ∧ Delivers [] stream r res ∧
      MayHold res.builder r.bytes := by
  induction run generalizing text with
  | stopped stop =>
    obtain ⟨hmessage, hdelivers⟩ := h.finish_done (by simpa using stop) _
    have hholds := hdelivers.holds rfl
    exact ⟨_, hmessage, hdelivers, hholds.mayHold⟩
  | again more step run ih =>
    rcases recvStep_polled impatient step with hread | hhup | ⟨ec, gone, hdone, -⟩
    · rw [recvStep_readable hread] at step
      obtain ⟨chunk, -, hreceiving⟩ := recvChunk_spec hcall hog h more step
      exact ih zero hend hreceiving
    · rw [recvStep_hungUp hhup] at step
      cases Except.ok.inj step
    · contradiction
  | @done event events st st' ec more step =>
    obtain rfl := finish_status zero
    rcases recvStep_polled impatient step with hread | hhup | ⟨ec, gone, hdone, hec⟩
    · rw [recvStep_readable hread] at step
      obtain ⟨r, hmessage, hdelivers⟩ := recvChunk_spec hcall hog h more step
      obtain ⟨hmay, hreceived⟩ := recvChunk_ended hcall hog h more step
      have hsame : r.bytes = text := by
        have hlen : text.length = r.bytes.length := by
          rw [← hreceived]
          exact (hdelivers events).received
        have hprefix : r.bytes <+: stream := ⟨_, (hdelivers events).rest⟩
        exact (List.prefix_of_prefix_length_le hprefix h.text_isPrefix hlen.ge).eq_of_length
          hlen.symm
      refine ⟨r, hmessage, hdelivers _, ?_⟩
      rw [hsame]
      exact hmay
    · rw [recvStep_hungUp hhup] at step
      cases Except.ok.inj step
      have hholds : st.builder.Holds text := h.holds
      obtain ⟨hmessage, hdelivers⟩ := h.finish_close more (hend rfl) st.builder call.fd events
      exact ⟨_, hmessage, hdelivers, hholds.mayHold⟩
    · cases hdone
      exact absurd rfl hec

end Loop

/-- The caller has what was received. -/
structure Obtained (r : Reception) (out : Option OwnedString) : Prop where
  success : r.status = 0
  written : ∃ str, out = some str ∧ str.bytes = r.bytes

section Call

variable {rt : Runtime} {stream : Bytes} {events : List SocketEvent} {maxResponseSize : Nat}

theorem recvAllData_succeeds {fd og sbMinCap : Int} {builder : StringBuilder}
    (hbuilder : builder.Holds []) (hog : IsSsize og) {res : RecvResult}
    (hok : recvAllData rt fd builder og true sbMinCap (some httpReceiveController) .zeroed stream
      events = .ok res) (zero : res.status = 0) (hend : res.closedSock = true → res.stream = []) :
    ∃ r, receiveMessage stream og = .ok r ∧ Delivers [] stream r res ∧
      MayHold res.builder r.bytes := by
  unfold recvAllData at hok
  obtain ⟨room, hroom, hok⟩ := bind_eq_ok.mp hok
  have hfresh := hbuilder.grow_fresh hroom
  have hcall : Controls ⟨fd, if sbMinCap < 0 then defaultSbMinCap else sbMinCap, true, room.len,
      some httpReceiveController⟩ [] := ⟨hfresh.len_eq, rfl⟩
  obtain ⟨next, hnext, hok⟩ := bind_eq_ok.mp hok
  by_cases hcap : room.cap = 0
  · rw [runController, receivedBytes, if_pos hcap] at hnext
    simp [httpReceiveController, bind, Except.bind] at hnext
  · obtain ⟨st, hstart, hreceiving⟩ := runController_start hcall hfresh hcap og stream
    cases Except.ok.inj (hstart.symm.trans hnext)
    exact loopRun_succeeds hcall hog rfl (recvLoop_run hok) zero hend hreceiving

theorem recvResponse_succeeds {fd : Int} {res : WaitResult}
    (hok : recvResponse rt true (-1) maxResponseSize (some httpReceiveController) .zeroed fd stream
      events = .ok res) (zero : res.status = 0) (hend : res.closedSock = true → res.stream = []) :
    res.events <:+ events ∧ ∃ r, receiveMessage stream (toSsize maxResponseSize) = .ok r ∧
      Obtained r res.out ∧ r.bytes ++ res.stream = stream ∧ res.closedSock = r.closed := by
  unfold recvResponse at hok
  obtain ⟨builder, hbuilder, hok⟩ := bind_eq_ok.mp hok
  obtain ⟨recv, hrecv, hok⟩ := bind_eq_ok.mp hok
  have hevents := recvAllData_events hrecv
  by_cases hzero : recv.status = 0
  · rw [if_neg (fun hne => hne hzero)] at hok
    obtain ⟨⟨out, left⟩, hbuild, hok⟩ := bind_eq_ok.mp hok
    cases Except.ok.inj hok
    have hsize : toSize (if (-1 : Int) < 0 then defaultClientBufSize else -1) < 2 ^ 62 := by
      decide
    have hfresh := newStringBuilder_holds hsize hbuilder
    have hssize := toSsize_bounds maxResponseSize
    generalize toSsize maxResponseSize = og at hrecv hssize ⊢
    obtain ⟨r, hr, hdelivers, hmay⟩ := recvAllData_succeeds hfresh hssize hrecv hzero hend
    refine ⟨hevents, r, hr, ⟨?_, out, rfl, hmay.built hbuild⟩, hdelivers.rest,
      hdelivers.closedSock⟩
    rw [← hdelivers.status, hzero]
  · rw [if_pos hzero] at hok
    cases Except.ok.inj hok
    exact absurd zero hzero

/-- Behind the first poll, which finds something to read, it is the reception of the response. -/
theorem waitThenRecv_succeeds {fd : Int} {res : WaitResult}
    (hok : waitThenRecvAllData rt true (-1) maxResponseSize (some httpReceiveController) .zeroed fd
      stream events = .ok res) (zero : res.status = 0) (written : res.out ≠ none)
    (hend : res.closedSock = true → res.stream = []) :
    res.events <:+ events ∧ ∃ r, receiveMessage stream (toSsize maxResponseSize) = .ok r ∧
      Obtained r res.out ∧ r.bytes ++ res.stream = stream ∧ res.closedSock = r.closed := by
  cases events with
  | nil => contradiction
  | cons first more =>
    cases waitThenRecv_firstPoll hok with
    | failed quiet status => exact absurd zero status
    | hungUp hup status unwritten => exact absurd unwritten written
    | received quiet recv =>
      obtain ⟨hevents, hobtained⟩ := recvResponse_succeeds recv zero hend
      exact ⟨hevents.trans (List.suffix_cons first more), hobtained⟩

/-- A call that returns 0 and writes `*out`. -/
structure Succeeds (done : Exchange) : Prop where
  zero : done.result.status = 0
  written : done.result.out ≠ none
  /-- The connection ends only where everything has been read. -/
  ended : done.result.session.isOpen = false → done.stream = []

/-- What success of an exchange says: the peer has the whole text, unless a send timed out,
and the caller has what the stream says. -/
theorem rawExchange_succeeds {session : Session} {req : StringRef} {done : Exchange}
    (hok : rawExchange rt session req maxResponseSize stream events = .ok done)
    (succeeds : Succeeds done) :
    done.events <:+ events ∧
      (∀ text, req = ⟨text.length, text ++ [0]⟩ →
        (∀ event ∈ events, event.poll ≠ .timedOut) → done.sent = text) ∧
      ∃ r, receiveMessage stream (toSsize maxResponseSize) = .ok r ∧
        Obtained r done.result.out ∧ r.bytes ++ done.stream = stream ∧
        done.result.session = session.noteClosed r.closed := by
  obtain ⟨zero, written, ended⟩ := succeeds
  unfold rawExchange at hok
  split at hok
  · contradiction
  obtain ⟨sent, hsent, hok⟩ := bind_eq_ok.mp hok
  dsimp only at hok
  by_cases hzero : sent.status = 0
  · rw [if_neg (fun hne => hne hzero)] at hok
    obtain ⟨res, hres, hok⟩ := bind_eq_ok.mp hok
    have hkept : sent.closedSock = false := sendLoop_kept hsent hzero
    rw [hkept] at hok hres
    cases Except.ok.inj hok
    have hresEnd : res.closedSock = true → res.stream = [] := by
      intro hclosed
      apply ended
      simp [Session.noteClosed, hclosed]
    obtain ⟨hevents, r, hr, hobtained, hrest, hclosed⟩ :=
      waitThenRecv_succeeds hres zero written hresEnd
    refine ⟨hevents.trans (sendLoop_events hsent), ?_, r, hr, hobtained, hrest, ?_⟩
    · rintro text rfl patient
      exact sendAllData_patient hsent patient hzero
    · rw [← hclosed]
      rfl
  · rw [if_pos hzero] at hok
    cases Except.ok.inj hok
    exact absurd zero hzero

/-- The same for a call with a request. -/
theorem httpRequestInSession_succeeds {session : Session} {req : HttpRequest} {done : Exchange}
    (hok : httpRequestInSession rt session req maxResponseSize stream events = .ok done)
    (succeeds : Succeeds done) :
    done.events <:+ events ∧
      (∀ text, stringifyRequest rt req = .ok ⟨text.length, text ++ [0]⟩ →
        (∀ event ∈ events, event.poll ≠ .timedOut) → done.sent = text) ∧
      ∃ r, receiveMessage stream (toSsize maxResponseSize) = .ok r ∧
        Obtained r done.result.out ∧ r.bytes ++ done.stream = stream ∧
        done.result.session = session.noteClosed r.closed := by
  unfold httpRequestInSession at hok
  split at hok
  · contradiction
  cases hser : stringifyRequest rt req with
  | error stop =>
    rw [hser] at hok
    cases stop with
    | status err =>
      cases Except.ok.inj hok
      exact absurd rfl succeeds.written
    | fault reason => contradiction
    | blocked => contradiction
  | ok str =>
    rw [hser] at hok
    obtain ⟨hevents, hsent, hreceived⟩ := rawExchange_succeeds hok succeeds
    refine ⟨hevents, fun text htext patient => ?_, hreceived⟩
    cases Except.ok.inj htext
    exact hsent text rfl patient

/-- The call is for a request that can be serialized, whatever its head is. -/
structure Sends (rt : Runtime) (call : RequestCall) (wire : Bytes) : Prop where
  serialized : stringifyRequest rt call.req = .ok ⟨wire.length, wire ++ [0]⟩

/-- With fields in a struct, the text is the one of the message. -/
theorem sends_struct (halloc : rt.AllocSucceeds) {call : RequestCall} {m : RequestMessage}
    (hread : call.req.Readable) (hm : call.req.message = some m)
    (hsize : (requestWire m).length ≤ maxCapacity) : Sends rt call (requestWire m) :=
  ⟨stringifyRequest_eq halloc hread hm hsize⟩

/-- As long as the calls on a session succeed, requests and responses stay in step: the peer
has got the requests one after another, and what the callers have are the receptions that the
bytes of the peer alone determine. -/
theorem requestEach_refines {session : Session} {calls : List RequestCall} {wires : List Bytes}
    {done : List Exchange} {rest : Bytes} (hsends : List.Forall₂ (Sends rt) calls wires)
    (hrun : requestEach rt session calls stream events = .ok (done, rest))
    (hsucceeds : ∀ exchange ∈ done, Succeeds exchange)
    (patient : ∀ event ∈ events, event.poll ≠ .timedOut) :
    done.map Exchange.sent = wires ∧
      ∃ receptions, takeReceptions (calls.map fun call => toSsize call.maxResponseSize) stream =
          .ok (receptions, rest) ∧
        List.Forall₂ (fun r exchange => Obtained r exchange.result.out) receptions done := by
  induction hsends generalizing session stream events done with
  | nil =>
    obtain ⟨rfl, rfl⟩ := Prod.mk.inj (Except.ok.inj hrun)
    exact ⟨rfl, [], rfl, .nil⟩
  | @cons call wire calls wires hsend hsends ih =>
    unfold requestEach at hrun
    obtain ⟨first, hfirst, hrun⟩ := bind_eq_ok.mp hrun
    obtain ⟨⟨more, left⟩, hmore, hrun⟩ := bind_eq_ok.mp hrun
    obtain ⟨rfl, rfl⟩ := Prod.mk.inj (Except.ok.inj hrun)
    rw [List.forall_mem_cons] at hsucceeds
    obtain ⟨hevents, hsent, r, hr, hobtained, hrest, -⟩ :=
      httpRequestInSession_succeeds hfirst hsucceeds.1
    obtain ⟨hall, receptions, htake, hpairs⟩ := ih hmore hsucceeds.2
      fun event hmem => patient event (hevents.subset hmem)
    refine ⟨?_, r :: receptions, ?_, .cons hobtained hpairs⟩
    · rw [List.map_cons, hall, hsent _ hsend.serialized patient]
    · have hleft : stream.drop r.bytes.length = first.stream := by
        rw [← hrest, List.drop_left]
      rw [List.map_cons, takeReceptions, hr, ok_bind, hleft, htake]
      rfl

end Call

/-- A response that ends with its connection. -/
def untilClosed : Bytes :=
  ascii ['H', 'T', 'T', 'P', '/', '1', '.', '0', ' ', '2', '0', '0', ' ', 'O', 'K'] ++ crlf ++
    crlf ++ ascii ['h', 'i']

/-- Two requests, of which the second one closes the connection. -/
def closedByPeer : Except Stop (List Exchange × Bytes) :=
  requestEach .unlimited ⟨3, true⟩ [⟨getRoot, 64⟩, ⟨getRoot, 64⟩] (greeting ++ untilClosed)
    (List.replicate 200 duplex)

/-- What a caller looks at. -/
def Exchange.view (exchange : Exchange) : Int × Bool × Bool × Bytes :=
  (exchange.result.status, exchange.result.out.isSome, exchange.result.session.isOpen,
    exchange.stream)

theorem requestEach_refines_closedByPeer : ∃ done, closedByPeer = .ok (done, []) ∧
    done.map Exchange.sent = [getRootMessage, getRootMessage].map requestWire ∧
    ∃ receptions,
      takeReceptions [toSsize (64 : Nat), toSsize (64 : Nat)] (greeting ++ untilClosed) =
        .ok (receptions, []) ∧
      List.Forall₂ (fun r exchange => Obtained r exchange.result.out) receptions done := by
  have hview : closedByPeer.toOption.map (fun done => (done.2, done.1.map Exchange.view)) =
      some ([], [(0, true, true, untilClosed), (0, true, false, [])]) := by decide +kernel
  have hread : getRoot.Readable := by decide
  have hsend : Sends .unlimited ⟨getRoot, 64⟩ (requestWire getRootMessage) :=
    sends_struct Runtime.unlimited_allocSucceeds hread rfl (by decide)
  cases hdone : closedByPeer with
  | error stop =>
    rw [hdone] at hview
    contradiction
  | ok result =>
    obtain ⟨done, rest⟩ := result
    rw [hdone] at hview
    obtain ⟨rfl, hviews⟩ := Prod.mk.inj (Option.some.inj hview)
    refine ⟨done, rfl, requestEach_refines (.cons hsend (.cons hsend .nil)) hdone ?_ ?_⟩
    · intro exchange hmem
      have hmem := List.mem_map_of_mem (f := Exchange.view) hmem
      rw [hviews] at hmem
      obtain ⟨result, sent, stream, events⟩ := exchange
      simp only [Exchange.view, List.mem_cons, List.not_mem_nil, or_false, Prod.mk.injEq] at hmem
      rcases hmem with ⟨hzero, hout, hopen, -⟩ | ⟨hzero, hout, -, hend⟩
      · exact ⟨hzero, by simpa using Option.isSome_iff_ne_none.mp hout, by simp [hopen]⟩
      · exact ⟨hzero, by simpa using Option.isSome_iff_ne_none.mp hout, fun _ => hend⟩
    · intro event hmem
      rw [List.eq_of_mem_replicate hmem]
      exact fun h => nomatch h

end Http

end Net77
