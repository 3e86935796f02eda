import Net77.Http.Framing
import Net77.TwoEnds

/-! A message that `sendAllData` sends at one end of a connection, and `http_recv_controller`
at the other one. -/
namespace Net77

open Net77.Base

theorem readable_of_polls {events others : List SocketEvent}
    (h : events.map SocketEvent.poll = others.map SocketEvent.poll)
    (readable : ∀ event ∈ others, event.Readable) : ∀ event ∈ events, event.Readable := by
  intro event hevent
  have hpoll := List.mem_map_of_mem (f := SocketEvent.poll) hevent
  rw [h] at hpoll
  obtain ⟨other, hother, hsame⟩ := List.mem_map.mp hpoll
  obtain ⟨r, hready, hflags⟩ := readable other hother
  exact ⟨r, by rw [← hsame, hready], hflags⟩

namespace Http

section Transfer

variable {rt : Runtime} {fd : Int} {buf : Bytes} {len : Nat}
  {call : RecvCall HttpReceiveControllerState} {entry : RecvState HttpReceiveControllerState}
  {link last : Link HttpReceiveControllerState} {moves : List LinkMove} {og : Int}

/-- As long as the call runs, it has received a part of what is sent in the end. -/
theorem receiving_run (hcall : Controls call []) (hog : IsSsize og)
    (h : LinkRun rt fd buf len call entry link moves last) (running : last.recvRes = none)
    (readable : ∀ event ∈ recvEvents moves, event.Readable)
    (sane : link.closed = true → link.sendRes.isSome = true) {more future text : Bytes}
    (hsent : last.sent = link.sent ++ more) (hfuture : last.closed = true → future = [])
    (hlink : Receiving og [] (last.sent ++ future) text (link.recv.feed (more ++ future))) :
    ∃ text, Receiving og [] (last.sent ++ future) text (last.recv.feed future) := by
  induction moves generalizing link more text with
  | nil =>
    cases Option.some.inj h
    rw [List.self_eq_append_right] at hsent
    subst hsent
    exact ⟨text, hlink⟩
  | cons move moves ih =>
    obtain ⟨next, hstep, hrun⟩ := h.cons
    cases hstep with
    | @sends event chunk _ unsent step =>
      obtain ⟨rest, hrest⟩ := hrun.sent_isPrefix
      have hmore : more = chunk ++ rest := by
        have hsame : link.sent ++ more = link.sent ++ (chunk ++ rest) := by
          rw [← hsent, ← hrest]
          exact List.append_assoc _ _ _
        exact List.append_cancel_left hsame
      subst hmore
      have hfed : Receiving og [] (last.sent ++ future) text
          ((link.recv.feed chunk).feed (rest ++ future)) := by
        rwa [RecvState.feed_feed, ← List.append_assoc]
      exact ih hrun readable sane hrest.symm hfed
    | sendEnds => exact ih hrun readable (fun _ => rfl) hsent hlink
    | sendReturns => exact ih hrun readable (fun _ => rfl) hsent hlink
    | closes already => exact ih hrun readable (fun _ => already) hsent hlink
    | @recvs event st _ wants polls step =>
      have hread : event.Readable := readable event List.mem_cons_self
      have hfed : recvStep rt call (event.within link.recv.stream)
          (link.recv.feed (more ++ future)) = .ok (.again (st.feed (more ++ future))) := by
        rw [recvStep_feed event link.recv fun hin hnil =>
          h.nothing_more sane hsent hfuture (polls hin hnil), step]
        rfl
      have hwithin : (event.within link.recv.stream).Readable := hread
      rw [recvStep_readable hwithin] at hfed
      obtain ⟨chunk, -, hreceiving⟩ := recvChunk_spec hcall hog hlink wants hfed
      exact ih hrun (fun other hother => readable other (List.mem_cons_of_mem event hother)) sane
        hsent hreceiving
    | recvEnds =>
      rw [(hrun.recvRes_kept rfl).1] at running
      contradiction
    | recvReturns =>
      rw [(hrun.recvRes_kept rfl).1] at running
      contradiction

end Transfer

section Message

variable {rt : Runtime} {fd recvFd : Int} {buf message : Bytes} {len : Nat} {call : ReceiveCall}
  {entry : RecvState HttpReceiveControllerState} {last : Link HttpReceiveControllerState}
  {moves : List LinkMove}

/-- The call of `recvAllData` behind what it does in front of its loop. -/
def ReceiveCall.loop (call : ReceiveCall) (fd : Int) : RecvCall HttpReceiveControllerState :=
  recvCall fd call.builder call.timeoutIsError call.sbMinCap (some httpReceiveController)

/-- The loop begins with nothing received, whatever is to come. -/
theorem entry_receiving (fresh : call.builder.Holds [])
    (enters : EntersLoop rt (call.loop recvFd) (recvStart call.builder call.maxLen .zeroed [])
      entry)
    (stream : Bytes) : Receiving call.maxLen [] stream [] (entry.feed stream) := by
  obtain ⟨room, hgrow, hfirst⟩ := enters
  have hroom : room.Holds [] := StringBuilder.Holds.grow_fresh fresh hgrow
  have hcall : Controls (call.loop recvFd) [] := ⟨fresh.len_eq, rfl⟩
  have hfed : runController (call.loop recvFd)
      ⟨room, call.maxLen, 0, .zeroed, stream, false, []⟩ = .ok (.again (entry.feed stream)) := by
    have hstart := runController_feed (call.loop recvFd)
      { recvStart call.builder call.maxLen .zeroed [] with builder := room } stream
    exact hstart.trans (by rw [hfirst]; rfl)
  by_cases hcap : room.cap = 0
  · rw [runController, receivedBytes, if_pos hcap] at hfirst
    contradiction
  · obtain ⟨st, hstart, hreceiving⟩ := runController_start hcall hroom hcap call.maxLen stream
    cases Except.ok.inj (hstart.symm.trans hfed)
    exact hreceiving

/-- In every order of the iterations at the two ends, a complete message at the front of what
is sent is what the other end receives, and no part of it is left behind. Once it is sent,
the receiver is never stuck. -/
theorem message_crosses (halloc : rt.AllocSucceeds) (hcall : Accommodates call message)
    (line : FirstLine message .http11) (complete : CompleteMessage message)
    (hbuf : message <+: buf.take len)
    (enters : EntersLoop rt (call.loop recvFd) (recvStart call.builder call.maxLen .zeroed [])
      entry)
    (h : LinkRun rt fd buf len (call.loop recvFd) entry ⟨[], none, false, entry, none⟩ moves last)
    (readable : ∀ event ∈ recvEvents moves, event.Readable)
    (hsent : last.closed = true → message.length ≤ last.sent.length) :
    (∀ res, last.recvRes = some res →
        Received message res ∧ last.sent = message ++ last.recv.stream) ∧
      (last.recvRes = none → message.length ≤ last.sent.length → ∀ event, event.Readable →
        ∃ move next, (move = .recvs event ∨ move = .recvReturns) ∧
          (linkSystem rt fd buf len (call.loop recvFd) entry).step last move = some next) := by
  have hfrontOf := h.sent_isPrefix_buf List.nil_prefix
  obtain ⟨future, rest, hfuture, hrest⟩ : ∃ future rest,
      (last.closed = true → future = []) ∧ last.sent ++ future = message ++ rest := by
    cases hclosed : last.closed with
    | true =>
      obtain ⟨rest, hrest⟩ := List.prefix_of_prefix_length_le hbuf hfrontOf (hsent hclosed)
      exact ⟨[], rest, fun _ => rfl, by rw [List.append_nil, hrest]⟩
    | false =>
      obtain ⟨future, hfuture⟩ := hfrontOf
      obtain ⟨rest, hrest⟩ := hbuf
      exact ⟨future, rest, fun hend => by contradiction, by rw [hfuture, hrest]⟩
  have hmessage : receiveMessage (last.sent ++ future) call.maxLen = .ok ⟨0, message, false⟩ := by
    have hmemory := hcall.memory
    have hpos := hcall.minCap_pos
    have hlen : message.length < 2 ^ 62 := by
      unfold maxCapacity at hmemory
      omega
    rw [hrest]
    exact receive_complete line complete hlen hcall.limit rest
  constructor
  · intro res returned
    obtain ⟨events, hpolls, hrun⟩ := LinkRun.recvAllData enters h returned
    obtain ⟨r, hr, hdelivers⟩ := recvAllData_spec hcall.fresh hcall.maxLen_isSsize
      (fun event hmem => .inl (readable_of_polls hpolls readable event hmem)) (hrun future hfuture)
    cases Except.ok.inj (hr.symm.trans hmessage)
    refine ⟨⟨hdelivers.status, hdelivers.holds rfl, hdelivers.closedSock⟩, ?_⟩
    have hsame : last.sent ++ future = message ++ last.recv.stream ++ future := by
      rw [List.append_assoc]
      exact hdelivers.rest.symm
    exact List.append_cancel_right hsame
  · intro running hall event hread
    have hcontrols : Controls (call.loop recvFd) [] := ⟨hcall.fresh.len_eq, rfl⟩
    obtain ⟨text, hreceiving⟩ := receiving_run hcontrols hcall.maxLen_isSsize h running readable
      (fun hclosed => by contradiction) (List.nil_append last.sent).symm hfuture
      (entry_receiving hcall.fresh enters (last.sent ++ future))
    cases wants : last.recv.wantsMore with
    | false =>
      refine ⟨.recvReturns, _, .inr rfl, if_pos ⟨?_, ?_⟩⟩
      · rw [running]
        rfl
      · rw [wants]
        rfl
    | true =>
      have hshort := hreceiving.length_lt wants hmessage rfl
      have hway : last.recv.stream ≠ [] := by
        intro hnil
        have hlength := congrArg List.length hreceiving.rest
        dsimp only [RecvState.feed] at hlength
        rw [hnil] at hlength
        simp only [List.length_append, List.length_nil] at hlength
        dsimp only at hshort
        omega
      have hminCap : (call.loop recvFd).sbMinCap = call.sbMinCap := by
        have hpos := hcall.minCap_pos
        exact if_neg (by omega)
      obtain ⟨fed, hchunk⟩ := recvChunk_total hcontrols hcall.maxLen_isSsize hreceiving wants halloc
        (by rw [hminCap]; exact hcall.minCap_pos) hmessage rfl
        (by rw [hminCap]; simpa using hcall.memory) (event.within last.recv.stream).size
      have hstep : recvStep rt (call.loop recvFd) (event.within last.recv.stream)
          (last.recv.feed future) =
            (recvStep rt (call.loop recvFd) event last.recv).map (RecvNext.feed future) :=
        recvStep_feed event last.recv fun _ hnil => absurd hnil hway
      have hwithin : (event.within last.recv.stream).Readable := hread
      rw [recvStep_readable hwithin, hchunk] at hstep
      cases hnext : recvStep rt (call.loop recvFd) event last.recv with
      | error stop =>
        rw [hnext] at hstep
        contradiction
      | ok next =>
        obtain ⟨link, hlink⟩ := linkSystem_recvs running wants hway hnext
        exact ⟨_, link, .inl rfl, hlink⟩

end Message

/-- A call for a message of up to 64 bytes. -/
def greetingCall : ReceiveCall := ⟨freshBuilder 64, -1, true, 8⟩

/-- Behind the first call of the controller. -/
def greetingEntry : RecvState HttpReceiveControllerState :=
  ⟨freshBuilder 64, nextByte 0 (-1), 0, ⟨-1, 0, 0, 1⟩, [], false, []⟩

/-- The message is sent in two pieces, with a byte of the next one behind it. -/
def greetingMoves : List LinkMove :=
  .sends (moved 30) :: List.replicate 20 (.recvs (moved 8)) ++
    .sends (moved 30) :: List.replicate 19 (.recvs (moved 8)) ++ [.recvReturns, .sendReturns]

theorem message_crosses_greeting : ∃ last res,
    LinkRun .unlimited 3 (greeting ++ [72]) 41 (greetingCall.loop 4) greetingEntry
        ⟨[], none, false, greetingEntry, none⟩ greetingMoves last ∧
      last.recvRes = some res ∧ Received greeting res ∧
      last.sent = greeting ++ last.recv.stream := by
  have hcall : Accommodates greetingCall greeting :=
    ⟨freshBuilder_holds (by decide), by decide, by decide, by decide, by decide⟩
  have henters : EntersLoop .unlimited (greetingCall.loop 4)
      (recvStart greetingCall.builder greetingCall.maxLen .zeroed []) greetingEntry :=
    ⟨freshBuilder 64, rfl, rfl⟩
  have hreadable : ∀ event ∈ recvEvents greetingMoves, event.Readable := by
    intro event hevent
    have hmoved : recvEvents greetingMoves = List.replicate 39 (moved 8) := rfl
    rw [hmoved] at hevent
    rw [List.eq_of_mem_replicate hevent]
    exact ⟨_, rfl, rfl, rfl, rfl⟩
  have hrun : ((linkSystem .unlimited 3 (greeting ++ [72]) 41 (greetingCall.loop 4)
      greetingEntry).run (fun _ _ => true) ⟨[], none, false, greetingEntry, none⟩
        greetingMoves).map (fun last => (last.recvRes.isSome, last.closed)) =
          some (true, false) := by
    decide +kernel
  obtain ⟨last, hlast, hends⟩ := Option.map_eq_some_iff.mp hrun
  obtain ⟨hreturned, hopen⟩ := Prod.mk.inj hends
  obtain ⟨res, hres⟩ := Option.isSome_iff_exists.mp hreturned
  obtain ⟨hreceived, hsent⟩ := (message_crosses Runtime.unlimited_allocSucceeds hcall
    greeting_line greeting_complete (by decide) henters hlast hreadable fun hclosed => by
      rw [hopen] at hclosed
      contradiction).1 res hres
  exact ⟨last, res, hlast, hres, hreceived, hsent⟩

end Http

end Net77
