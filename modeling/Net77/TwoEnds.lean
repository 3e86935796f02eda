import Net77.Base.Transition
import Net77.ReceiveBounds

/-! `sendAllData` at one end of a connection and `recvAllData` at the other one, which take
their iterations in any order, with what is on its way between them. -/
namespace Net77

open Net77.Base

/-- How an iteration of the send loop ends. -/
inductive SendNext where
  | again (chunk : Bytes)
  | done (res : SendResult)

/-- One iteration of the send loop. -/
def sendStep (fd : Int) (buf : Bytes) (len : Nat) (sent : Bytes) (event : SocketEvent) :
    Except Stop SendNext :=
  match event.poll with
  | .failed => pure (.done ⟨1, false, sent, [], []⟩)
  | .timedOut => pure (.done ⟨0, false, sent, [], []⟩)
  | .ready r =>
    if r.pollerr then pure (.done ⟨-1, true, sent, [.closed fd], []⟩)
    else if r.pollhup then pure (.done ⟨-1, true, sent, [.closed fd], []⟩)
    else if r.pollnval then pure (.done ⟨-1, true, sent, [.invalid fd], []⟩)
    else if !r.pollout then .error (.fault .assertFailed)
    else
      let size := min event.size (len - sent.length)
      if buf.length < sent.length + size then .error (.fault .outOfBounds)
      else pure (.again ((buf.drop sent.length).take size))

theorem sendLoop_cons {fd : Int} {buf sent : Bytes} {len : Nat} (unsent : sent.length < len)
    (event : SocketEvent) (events : List SocketEvent) :
    sendLoop fd buf len sent (event :: events) = (do
      match ← sendStep fd buf len sent event with
      | .again chunk => sendLoop fd buf len (sent ++ chunk) events
      | .done res => pure { res with events }) := by
  rw [sendLoop, if_pos unsent]
  unfold sendStep
  cases event.poll with
  | failed => rfl
  | timedOut => rfl
  | ready r =>
    dsimp only
    repeat' split
    all_goals rfl

/-- An iteration sends bytes from the front of what is left, or it is the last one. -/
theorem sendStep_cases {fd : Int} {buf sent : Bytes} {len : Nat} {event : SocketEvent}
    {next : SendNext} (h : sendStep fd buf len sent event = .ok next) :
    (∃ chunk, next = .again chunk ∧ chunk <+: (buf.drop sent.length).take (len - sent.length)) ∨
      ∃ res, next = .done res ∧ res.events = [] := by
  unfold sendStep at h
  split at h
  · cases Except.ok.inj h
    exact .inr ⟨_, rfl, rfl⟩
  · cases Except.ok.inj h
    exact .inr ⟨_, rfl, rfl⟩
  · split at h
    · cases Except.ok.inj h
      exact .inr ⟨_, rfl, rfl⟩
    · split at h
      · cases Except.ok.inj h
        exact .inr ⟨_, rfl, rfl⟩
      · split at h
        · cases Except.ok.inj h
          exact .inr ⟨_, rfl, rfl⟩
        · split at h
          · contradiction
          · dsimp only at h
            split at h
            · contradiction
            · cases Except.ok.inj h
              refine .inl ⟨_, rfl, ?_⟩
              rw [← List.take_take]
              exact List.take_prefix _ _

theorem sendStep_again {fd : Int} {buf sent chunk : Bytes} {len : Nat} {event : SocketEvent}
    (h : sendStep fd buf len sent event = .ok (.again chunk)) :
    chunk <+: (buf.drop sent.length).take (len - sent.length) := by
  rcases sendStep_cases h with ⟨_, heq, hchunk⟩ | ⟨_, heq, -⟩
  · cases heq
    exact hchunk
  · contradiction

theorem sendStep_done {fd : Int} {buf sent : Bytes} {len : Nat} {event : SocketEvent}
    {res : SendResult} (h : sendStep fd buf len sent event = .ok (.done res)) :
    res.events = [] := by
  rcases sendStep_cases h with ⟨_, heq, -⟩ | ⟨_, heq, hevents⟩
  · contradiction
  · cases heq
    exact hevents

section Feed

variable {σ : Type}

/-- The same state with more to come behind what is there. -/
def RecvState.feed (st : RecvState σ) (more : Bytes) : RecvState σ :=
  { st with stream := st.stream ++ more }

def RecvNext.feed (more : Bytes) : RecvNext σ → RecvNext σ
  | .again st => .again (st.feed more)
  | .done ec st => .done ec (st.feed more)

theorem RecvState.feed_nil (st : RecvState σ) : st.feed [] = st := by
  unfold feed
  rw [List.append_nil]

theorem RecvState.feed_feed (st : RecvState σ) (more rest : Bytes) :
    (st.feed more).feed rest = st.feed (more ++ rest) := by
  unfold feed
  rw [List.append_assoc]

/-- The poll reports something to read, or the end. -/
def SocketEvent.pollsIn (event : SocketEvent) : Bool :=
  match event.poll with
  | .ready r => r.pollin
  | _ => false

/-- The transfer takes no more than there is. -/
def SocketEvent.within (event : SocketEvent) (stream : Bytes) : SocketEvent :=
  { event with size := min event.size (stream.length - 1) }

variable {rt : Runtime} {call : RecvCall σ}

theorem runController_feed (call : RecvCall σ) (st : RecvState σ) (more : Bytes) :
    runController call (st.feed more) = (runController call st).map (RecvNext.feed more) := by
  unfold runController
  cases call.controller with
  | none => rfl
  | some controller =>
    have hbytes : receivedBytes call (st.feed more) = receivedBytes call st := rfl
    dsimp only
    rw [hbytes]
    cases receivedBytes call st with
    | error stop => rfl
    | ok buf =>
      rw [ok_bind, ok_bind]
      have hcall : controller buf ((st.feed more).builder.cap - call.initialLen)
          (st.feed more).received (st.feed more).maxLen (st.feed more).state =
            controller buf (st.builder.cap - call.initialLen) st.received st.maxLen st.state := rfl
      rw [hcall]
      cases controller buf (st.builder.cap - call.initialLen) st.received st.maxLen st.state with
      | error stop => rfl
      | ok answer =>
        obtain ⟨maxLen, action, state⟩ := answer
        cases action <;> rfl

/-- What comes later is not touched by a transfer of what is there. -/
theorem recvInto_feed (builder : StringBuilder) (sbMinCap maxLen : Int) (received size : Nat)
    {stream more : Bytes} (hmore : stream = [] → more = []) :
    recvInto rt builder sbMinCap maxLen received (stream ++ more) (min size (stream.length - 1)) =
      recvInto rt builder sbMinCap maxLen received stream size := by
  have htake (request : Nat) (hpos : 1 ≤ request) :
      (stream ++ more).take (min (min size (stream.length - 1) + 1) request) =
        stream.take (min (size + 1) request) := by
    by_cases hnil : stream = []
    · rw [hmore hnil, hnil, List.append_nil, List.take_nil, List.take_nil]
    · have hlen := List.length_pos_iff.mpr hnil
      rw [List.take_append_of_le_length (by omega), List.take_eq_take_iff]
      omega
  unfold recvInto
  refine congrArg (reserveRecv rt builder sbMinCap >>= ·) (funext fun room => ?_)
  dsimp only
  rw [htake _ (recvRequest_pos room maxLen received)]

theorem recvInto_isPrefix {builder room : StringBuilder} {sbMinCap maxLen : Int}
    {received size : Nat} {stream chunk : Bytes}
    (h : recvInto rt builder sbMinCap maxLen received stream size = .ok (room, chunk)) :
    chunk <+: stream := by
  unfold recvInto at h
  obtain ⟨reserved, -, h⟩ := bind_eq_ok.mp h
  dsimp only at h
  split at h
  · obtain ⟨-, rfl⟩ := Prod.mk.inj (Except.ok.inj h)
    exact List.nil_prefix
  · obtain ⟨cells, -, h⟩ := bind_eq_ok.mp h
    obtain ⟨-, rfl⟩ := Prod.mk.inj (Except.ok.inj h)
    exact List.take_prefix _ _

theorem recvChunk_feed (size : Nat) (st : RecvState σ) {more : Bytes}
    (hmore : st.stream = [] → more = []) :
    recvChunk rt call (min size (st.stream.length - 1)) (st.feed more) =
      (recvChunk rt call size st).map (RecvNext.feed more) := by
  have hinto : recvInto rt (st.feed more).builder call.sbMinCap (st.feed more).maxLen
      (st.feed more).received (st.feed more).stream (min size (st.stream.length - 1)) =
        recvInto rt st.builder call.sbMinCap st.maxLen st.received st.stream size :=
    recvInto_feed st.builder call.sbMinCap st.maxLen st.received size hmore
  unfold recvChunk
  rw [hinto]
  cases hchunk : recvInto rt st.builder call.sbMinCap st.maxLen st.received st.stream size with
  | error stop => rfl
  | ok result =>
    obtain ⟨builder, chunk⟩ := result
    have hdrop : (st.feed more).stream.drop chunk.length = st.stream.drop chunk.length ++ more :=
      List.drop_append_of_le_length (recvInto_isPrefix hchunk).length_le
    rw [ok_bind, ok_bind]
    dsimp only
    rw [hdrop]
    split
    · rfl
    · exact runController_feed call ⟨builder, st.maxLen, st.received + chunk.length, st.state,
        st.stream.drop chunk.length, st.closedSock, st.calls⟩ more

/-- An iteration that takes its bytes from what is there is one of the loop that knows all
that is to come. Only a poll that reports the end has to know that nothing is. -/
theorem recvStep_feed (event : SocketEvent) (st : RecvState σ) {more : Bytes}
    (hmore : event.pollsIn = true → st.stream = [] → more = []) :
    recvStep rt call (event.within st.stream) (st.feed more) =
      (recvStep rt call event st).map (RecvNext.feed more) := by
  unfold recvStep SocketEvent.within
  unfold SocketEvent.pollsIn at hmore
  cases hpoll : event.poll with
  | failed => rfl
  | timedOut => rfl
  | ready r =>
    rw [hpoll] at hmore
    dsimp only at hmore ⊢
    split
    · rfl
    · split
      · rfl
      · split
        · rfl
        · split
          · rfl
          · rename_i hin
            exact recvChunk_feed event.size st (hmore (by simpa using hin))

end Feed

/-- A connection with a call of `sendAllData` at one end and a call of `recvAllData` at the
other one. The stream of the receiver is what is on its way, and `closed` says that there is
nothing more to come. -/
structure Link (σ : Type) where
  sent : Bytes
  sendRes : Option SendResult
  closed : Bool
  recv : RecvState σ
  recvRes : Option RecvResult

/-- An iteration of one of the loops, the end of one at the test of its condition, or the
end of the connection behind the call that sends. -/
inductive LinkMove where
  | sends (event : SocketEvent)
  | sendReturns
  | closes
  | recvs (event : SocketEvent)
  | recvReturns

section Moves

variable {σ : Type} (rt : Runtime) (fd : Int) (buf : Bytes) (len : Nat) (call : RecvCall σ)

def sendMove (link : Link σ) (event : SocketEvent) : Option (Link σ) :=
  if link.sendRes.isNone ∧ link.sent.length < len then
    match sendStep fd buf len link.sent event with
    | .ok (.again chunk) =>
      some { link with sent := link.sent ++ chunk, recv := link.recv.feed chunk }
    | .ok (.done res) => some { link with sendRes := some res }
    | .error _ => none
  else none

/-- There is nothing to read unless something is on its way or the connection has ended. -/
def recvMove (link : Link σ) (event : SocketEvent) : Option (Link σ) :=
  if link.recvRes.isNone ∧ link.recv.wantsMore ∧
      (event.pollsIn → link.recv.stream ≠ [] ∨ link.closed) then
    match recvStep rt call event link.recv with
    | .ok (.again st) => some { link with recv := st }
    | .ok (.done ec st) => some { link with recv := st, recvRes := some (st.finish ec []) }
    | .error _ => none
  else none

/-- The two calls, from the first tests of their loop conditions on. -/
def linkSystem (entry : RecvState σ) : System (Link σ) LinkMove where
  init := ⟨[], none, false, entry, none⟩
  step link move :=
    match move with
    | .sends event => sendMove fd buf len link event
    | .sendReturns =>
      if link.sendRes.isNone ∧ len ≤ link.sent.length then
        some { link with sendRes := some ⟨0, false, link.sent, [], []⟩ }
      else none
    | .closes => if link.sendRes.isSome then some { link with closed := true } else none
    | .recvs event => recvMove rt call link event
    | .recvReturns =>
      if link.recvRes.isNone ∧ !link.recv.wantsMore then
        some { link with recvRes := some (link.recv.finish 0 []) }
      else none

end Moves

/-- The polls of one end. -/
def sendEvents (moves : List LinkMove) : List SocketEvent :=
  moves.filterMap fun move => match move with
    | .sends event => some event
    | _ => none

def recvEvents (moves : List LinkMove) : List SocketEvent :=
  moves.filterMap fun move => match move with
    | .recvs event => some event
    | _ => none

section Link

variable {σ : Type} {rt : Runtime} {fd : Int} {buf : Bytes} {len : Nat} {call : RecvCall σ}
  {entry : RecvState σ} {link link' last : Link σ} {moves : List LinkMove}

/-- What a move does. -/
inductive LinkStep (rt : Runtime) (fd : Int) (buf : Bytes) (len : Nat) (call : RecvCall σ)
    (link : Link σ) : LinkMove → Link σ → Prop where
  | sends {event : SocketEvent} {chunk : Bytes} (running : link.sendRes = none)
      (unsent : link.sent.length < len)
      (step : sendStep fd buf len link.sent event = .ok (.again chunk)) :
      LinkStep rt fd buf len call link (.sends event)
        { link with sent := link.sent ++ chunk, recv := link.recv.feed chunk }
  | sendEnds {event : SocketEvent} {res : SendResult} (running : link.sendRes = none)
      (unsent : link.sent.length < len)
      (step : sendStep fd buf len link.sent event = .ok (.done res)) :
      LinkStep rt fd buf len call link (.sends event) { link with sendRes := some res }
  | sendReturns (running : link.sendRes = none) (all : len ≤ link.sent.length) :
      LinkStep rt fd buf len call link .sendReturns
        { link with sendRes := some ⟨0, false, link.sent, [], []⟩ }
  | closes (returned : link.sendRes.isSome = true) :
      LinkStep rt fd buf len call link .closes { link with closed := true }
  | recvs {event : SocketEvent} {st : RecvState σ} (running : link.recvRes = none)
      (more : link.recv.wantsMore = true)
      (polls : event.pollsIn = true → link.recv.stream = [] → link.closed = true)
      (step : recvStep rt call event link.recv = .ok (.again st)) :
      LinkStep rt fd buf len call link (.recvs event) { link with recv := st }
  | recvEnds {event : SocketEvent} {ec : Int} {st : RecvState σ} (running : link.recvRes = none)
      (more : link.recv.wantsMore = true)
      (polls : event.pollsIn = true → link.recv.stream = [] → link.closed = true)
      (step : recvStep rt call event link.recv = .ok (.done ec st)) :
      LinkStep rt fd buf len call link (.recvs event)
        { link with recv := st, recvRes := some (st.finish ec []) }
  | recvReturns (running : link.recvRes = none) (stopped : link.recv.wantsMore = false) :
      LinkStep rt fd buf len call link .recvReturns
        { link with recvRes := some (link.recv.finish 0 []) }

theorem linkSystem_step {move : LinkMove}
    (h : (linkSystem rt fd buf len call entry).step link move = some link') :
    LinkStep rt fd buf len call link move link' := by
  cases move with
  | sends event =>
    have h : sendMove fd buf len link event = some link' := h
    unfold sendMove at h
    split at h
    · rename_i hruns
      have running := Option.isNone_iff_eq_none.mp hruns.1
      cases hstep : sendStep fd buf len link.sent event with
      | error stop =>
        rw [hstep] at h
        contradiction
      | ok next =>
        rw [hstep] at h
        cases next with
        | again chunk =>
          cases Option.some.inj h
          exact .sends running hruns.2 hstep
        | done res =>
          cases Option.some.inj h
          exact .sendEnds running hruns.2 hstep
    · contradiction
  | sendReturns =>
    have h : (if link.sendRes.isNone ∧ len ≤ link.sent.length then
        some { link with sendRes := some ⟨0, false, link.sent, [], []⟩ } else none) =
          some link' := h
    split at h
    · rename_i hruns
      cases Option.some.inj h
      exact .sendReturns (Option.isNone_iff_eq_none.mp hruns.1) hruns.2
    · contradiction
  | closes =>
    have h : (if link.sendRes.isSome then some { link with closed := true } else none) =
        some link' := h
    split at h
    · rename_i hreturned
      cases Option.some.inj h
      exact .closes hreturned
    · contradiction
  | recvs event =>
    have h : recvMove rt call link event = some link' := h
    unfold recvMove at h
    split at h
    · rename_i hruns
      obtain ⟨hrunning, hmore, hpolls⟩ := hruns
      have running := Option.isNone_iff_eq_none.mp hrunning
      have polls : event.pollsIn = true → link.recv.stream = [] → link.closed = true :=
        fun hin hnil => (hpolls hin).resolve_left fun hne => hne hnil
      cases hstep : recvStep rt call event link.recv with
      | error stop =>
        rw [hstep] at h
        contradiction
      | ok next =>
        rw [hstep] at h
        cases next with
        | again st =>
          cases Option.some.inj h
          exact .recvs running hmore polls hstep
        | done ec st =>
          cases Option.some.inj h
          exact .recvEnds running hmore polls hstep
    · contradiction
  | recvReturns =>
    have h : (if link.recvRes.isNone ∧ !link.recv.wantsMore then
        some { link with recvRes := some (link.recv.finish 0 []) } else none) = some link' := h
    split at h
    · rename_i hruns
      cases Option.some.inj h
      exact .recvReturns (Option.isNone_iff_eq_none.mp hruns.1) (by simpa using hruns.2)
    · contradiction

/-- With something on its way, an iteration that does not fail is a move. -/
theorem linkSystem_recvs {event : SocketEvent} (running : link.recvRes = none)
    (more : link.recv.wantsMore = true) (way : link.recv.stream ≠ []) {next : RecvNext σ}
    (hstep : recvStep rt call event link.recv = .ok next) :
    ∃ link', (linkSystem rt fd buf len call entry).step link (.recvs event) = some link' := by
  have hpolls : link.recvRes.isNone = true ∧ link.recv.wantsMore = true ∧
      (event.pollsIn = true → link.recv.stream ≠ [] ∨ link.closed = true) :=
    ⟨by rw [running]; rfl, more, fun _ => .inl way⟩
  have hmove : (linkSystem rt fd buf len call entry).step link (.recvs event) =
      recvMove rt call link event := rfl
  unfold recvMove at hmove
  rw [if_pos hpolls, hstep] at hmove
  cases next with
  | again st => exact ⟨_, hmove⟩
  | done ec st => exact ⟨_, hmove⟩

/-- The calls get from one state to another one. -/
def LinkRun (rt : Runtime) (fd : Int) (buf : Bytes) (len : Nat) (call : RecvCall σ)
    (entry : RecvState σ) (link : Link σ) (moves : List LinkMove) (last : Link σ) : Prop :=
  (linkSystem rt fd buf len call entry).run (fun _ _ => true) link moves = some last

namespace LinkRun

theorem cons {move : LinkMove} (h : LinkRun rt fd buf len call entry link (move :: moves) last) :
    ∃ next, LinkStep rt fd buf len call link move next ∧
      LinkRun rt fd buf len call entry next moves last := by
  obtain ⟨next, hstep, hrun⟩ := System.run_cons h
  exact ⟨next, linkSystem_step hstep, hrun⟩

theorem sent_isPrefix (h : LinkRun rt fd buf len call entry link moves last) :
    link.sent <+: last.sent := by
  induction moves generalizing link with
  | nil =>
    cases Option.some.inj h
    exact List.prefix_rfl
  | cons move moves ih =>
    obtain ⟨next, hstep, hrun⟩ := h.cons
    refine List.IsPrefix.trans ?_ (ih hrun)
    cases hstep with
    | sends => exact List.prefix_append _ _
    | _ => exact List.prefix_rfl

/-- The call that sends does nothing behind its return. -/
theorem sendRes_kept (h : LinkRun rt fd buf len call entry link moves last)
    (returned : link.sendRes.isSome = true) :
    last.sendRes = link.sendRes ∧ last.sent = link.sent ∧ sendEvents moves = [] ∧
      (link.closed = true → last.closed = true) := by
  induction moves generalizing link with
  | nil =>
    cases Option.some.inj h
    exact ⟨rfl, rfl, rfl, id⟩
  | cons move moves ih =>
    obtain ⟨next, hstep, hrun⟩ := h.cons
    cases hstep with
    | sends running =>
      rw [running] at returned
      contradiction
    | sendEnds running =>
      rw [running] at returned
      contradiction
    | sendReturns running =>
      rw [running] at returned
      contradiction
    | closes =>
      obtain ⟨hres, hsent, hevents, hclosed⟩ := ih hrun returned
      exact ⟨hres, hsent, hevents, fun _ => hclosed rfl⟩
    | recvs => exact (ih hrun returned :)
    | recvEnds => exact (ih hrun returned :)
    | recvReturns => exact (ih hrun returned :)

/-- Nor does the one that receives, but more may be on its way then. -/
theorem recvRes_kept (h : LinkRun rt fd buf len call entry link moves last) {res : RecvResult}
    (returned : link.recvRes = some res) :
    last.recvRes = some res ∧ recvEvents moves = [] ∧
      ∃ more, last.sent = link.sent ++ more ∧ last.recv = link.recv.feed more := by
  induction moves generalizing link with
  | nil =>
    cases Option.some.inj h
    exact ⟨returned, rfl, [], (List.append_nil _).symm, (RecvState.feed_nil _).symm⟩
  | cons move moves ih =>
    obtain ⟨next, hstep, hrun⟩ := h.cons
    cases hstep with
    | sends running unsent step =>
      obtain ⟨hres, hevents, more, hsent, hrecv⟩ := ih hrun returned
      refine ⟨hres, hevents, _, hsent.trans (List.append_assoc _ _ _), ?_⟩
      rw [hrecv, RecvState.feed_feed]
    | sendEnds => exact (ih hrun returned :)
    | sendReturns => exact (ih hrun returned :)
    | closes => exact (ih hrun returned :)
    | recvs running =>
      rw [running] at returned
      contradiction
    | recvEnds running =>
      rw [running] at returned
      contradiction
    | recvReturns running =>
      rw [running] at returned
      contradiction

/-- What the call at the one end returns is what it returns on its own. -/
theorem sends (h : LinkRun rt fd buf len call entry link moves last) {res : SendResult}
    (running : link.sendRes = none) (returned : last.sendRes = some res) :
    sendLoop fd buf len link.sent (sendEvents moves) = .ok res := by
  induction moves generalizing link with
  | nil =>
    cases Option.some.inj h
    rw [running] at returned
    contradiction
  | cons move moves ih =>
    obtain ⟨next, hstep, hrun⟩ := h.cons
    cases hstep with
    | @sends event chunk _ unsent step =>
      have hfirst : sendEvents (.sends event :: moves) = event :: sendEvents moves := rfl
      rw [hfirst, sendLoop_cons unsent, step, ok_bind]
      exact (ih hrun running :)
    | @sendEnds event ended _ unsent step =>
      have hfirst : sendEvents (.sends event :: moves) = event :: sendEvents moves := rfl
      obtain ⟨hres, -, hevents, -⟩ := hrun.sendRes_kept rfl
      cases Option.some.inj (returned.symm.trans hres)
      rw [hfirst, sendLoop_cons unsent, step, ok_bind, hevents, ← sendStep_done step]
      rfl
    | sendReturns _ all =>
      have hsame : sendEvents (.sendReturns :: moves) = sendEvents moves := rfl
      obtain ⟨hres, -, hevents, -⟩ := hrun.sendRes_kept rfl
      cases Option.some.inj (returned.symm.trans hres)
      rw [hsame, hevents, sendLoop, if_neg (by omega)]
      rfl
    | closes already =>
      rw [running] at already
      contradiction
    | recvs => exact (ih hrun running :)
    | recvEnds => exact (ih hrun running :)
    | recvReturns => exact (ih hrun running :)

/-- What is sent is the front of the buffer. -/
theorem sent_isPrefix_buf (h : LinkRun rt fd buf len call entry link moves last)
    (hsent : link.sent <+: buf.take len) : last.sent <+: buf.take len := by
  induction moves generalizing link with
  | nil =>
    cases Option.some.inj h
    exact hsent
  | cons move moves ih =>
    obtain ⟨next, hstep, hrun⟩ := h.cons
    refine ih hrun ?_
    cases hstep with
    | sends running unsent step =>
      obtain ⟨rest, hrest⟩ := hsent
      have hleft : (buf.drop link.sent.length).take (len - link.sent.length) = rest := by
        rw [← List.drop_take, ← hrest, List.drop_left]
      have hchunk := sendStep_again step
      rw [hleft] at hchunk
      rw [← hrest]
      exact (List.prefix_append_right_inj _).mpr hchunk
    | _ => exact hsent

/-- Behind the end of the connection, nothing more is sent. -/
theorem nothing_more (h : LinkRun rt fd buf len call entry link moves last)
    (sane : link.closed = true → link.sendRes.isSome = true) {more future : Bytes}
    (hsent : last.sent = link.sent ++ more) (hfuture : last.closed = true → future = [])
    (hend : link.closed = true) : more ++ future = [] := by
  obtain ⟨-, hkept, -, hclosed⟩ := h.sendRes_kept (sane hend)
  rw [hkept, List.self_eq_append_right] at hsent
  rw [hsent, hfuture (hclosed hend)]
  rfl

/-- What the call at the other end returns is what it returns on its own for all that is
sent, whatever else is still to come. The polls are the same, and the transfers stop where
nothing was there yet. -/
theorem receives (h : LinkRun rt fd buf len call entry link moves last) {res : RecvResult}
    (running : link.recvRes = none) (returned : last.recvRes = some res)
    (sane : link.closed = true → link.sendRes.isSome = true) :
    ∃ more events, last.sent = link.sent ++ more ∧
      events.map SocketEvent.poll = (recvEvents moves).map SocketEvent.poll ∧
      ∀ future, (last.closed = true → future = []) →
        recvLoop rt call events (link.recv.feed (more ++ future)) =
          .ok { res with stream := last.recv.stream ++ future } := by
  induction moves generalizing link with
  | nil =>
    cases Option.some.inj h
    rw [running] at returned
    contradiction
  | cons move moves ih =>
    obtain ⟨next, hstep, hrun⟩ := h.cons
    cases hstep with
    | @sends event chunk _ unsent step =>
      obtain ⟨more, events, hsent, hpolls, hloop⟩ := (ih hrun running sane :)
      refine ⟨chunk ++ more, events, hsent.trans (List.append_assoc _ _ _), hpolls, ?_⟩
      intro future hfuture
      have hrest := hloop future hfuture
      rwa [RecvState.feed_feed, ← List.append_assoc] at hrest
    | sendEnds => exact (ih hrun running fun _ => rfl :)
    | sendReturns => exact (ih hrun running fun _ => rfl :)
    | closes already => exact (ih hrun running fun _ => already :)
    | @recvs event st _ more polls step =>
      obtain ⟨rest, events, hsent, hpolls, hloop⟩ := (ih hrun running sane :)
      refine ⟨rest, event.within link.recv.stream :: events, hsent, ?_, ?_⟩
      · have hfirst : recvEvents (.recvs event :: moves) = event :: recvEvents moves := rfl
        rw [hfirst, List.map_cons, List.map_cons, hpolls]
        rfl
      · intro future hfuture
        have hmore : (link.recv.feed (rest ++ future)).wantsMore = true := more
        have hfed : recvStep rt call (event.within link.recv.stream)
            (link.recv.feed (rest ++ future)) = .ok (.again (st.feed (rest ++ future))) := by
          rw [recvStep_feed event link.recv fun hin hnil =>
            h.nothing_more sane hsent hfuture (polls hin hnil), step]
          rfl
        rw [recvLoop_again hmore hfed]
        exact hloop future hfuture
    | @recvEnds event ec st _ more polls step =>
      obtain ⟨hres, hevents, rest, hsent, hrecv⟩ := hrun.recvRes_kept rfl
      cases Option.some.inj (returned.symm.trans hres)
      refine ⟨rest, [event.within link.recv.stream], hsent, ?_, ?_⟩
      · have hfirst : recvEvents (.recvs event :: moves) = event :: recvEvents moves := rfl
        rw [hfirst, hevents]
        rfl
      · intro future hfuture
        have hmore : (link.recv.feed (rest ++ future)).wantsMore = true := more
        have hfed : recvStep rt call (event.within link.recv.stream)
            (link.recv.feed (rest ++ future)) = .ok (.done ec (st.feed (rest ++ future))) := by
          rw [recvStep_feed event link.recv fun hin hnil =>
            h.nothing_more sane hsent hfuture (polls hin hnil), step]
          rfl
        rw [recvLoop_done hmore hfed, hrecv]
        have hstream : (st.feed rest).stream ++ future = st.stream ++ (rest ++ future) :=
          List.append_assoc _ _ _
        rw [hstream]
        rfl
    | recvReturns _ stopped =>
      obtain ⟨hres, hevents, rest, hsent, hrecv⟩ := hrun.recvRes_kept rfl
      cases Option.some.inj (returned.symm.trans hres)
      refine ⟨rest, [], hsent, ?_, ?_⟩
      · have hsame : recvEvents (.recvReturns :: moves) = recvEvents moves := rfl
        rw [hsame, hevents]
      · intro future _
        have hstopped : ¬ (link.recv.feed (rest ++ future)).wantsMore = true := by
          have hwants : (link.recv.feed (rest ++ future)).wantsMore = link.recv.wantsMore := rfl
          rw [hwants, stopped]
          exact Bool.false_ne_true
        rw [recvLoop_stopped hstopped, hrecv]
        have hstream : (link.recv.feed rest).stream ++ future =
            link.recv.stream ++ (rest ++ future) := List.append_assoc _ _ _
        rw [hstream]
        rfl

/-- As long as the call runs, what it has received is in its builder, and the rest of what
is sent is on its way. -/
theorem gathered (typed : TypedCall call) (h : LinkRun rt fd buf len call entry link moves last)
    (running : last.recvRes = none) {text : Bytes} (hlink : Gathered [] link.sent text link.recv) :
    ∃ text, Gathered [] last.sent text last.recv := by
  induction moves generalizing link text with
  | nil =>
    cases Option.some.inj h
    exact ⟨text, hlink⟩
  | cons move moves ih =>
    obtain ⟨next, hstep, hrun⟩ := h.cons
    cases hstep with
    | @sends event chunk _ unsent step =>
      have hfed : Gathered [] (link.sent ++ chunk) text (link.recv.feed chunk) := by
        refine ⟨hlink.holds, hlink.received, ?_, hlink.limit⟩
        rw [← hlink.rest]
        exact (List.append_assoc _ _ _).symm
      exact ih hrun hfed
    | sendEnds => exact ih hrun hlink
    | sendReturns => exact ih hrun hlink
    | closes => exact ih hrun hlink
    | recvs _ more _ step =>
      cases recvStep_outcome typed hlink more step with
      | received chunk next some gathered kept => exact ih hrun gathered
    | recvEnds =>
      rw [(hrun.recvRes_kept rfl).1] at running
      contradiction
    | recvReturns =>
      rw [(hrun.recvRes_kept rfl).1] at running
      contradiction

end LinkRun

section Refines

variable {recvFd maxLen sbMinCap : Int} {builder : StringBuilder} {timeoutIsError : Bool}
  {controller : Option (RecvController σ)} {state : σ}

/-- In front of its loop, the call does not look at the stream. -/
theorem recvAllData_entered
    (enters : EntersLoop rt (recvCall recvFd builder timeoutIsError sbMinCap controller)
      (recvStart builder maxLen state []) entry) (stream : Bytes) (events : List SocketEvent) :
    recvAllData rt recvFd builder maxLen timeoutIsError sbMinCap controller state stream events =
      recvLoop rt (recvCall recvFd builder timeoutIsError sbMinCap controller) events
        (entry.feed stream) := by
  obtain ⟨room, hgrow, hfirst⟩ := enters
  have hfed : runController (recvCall recvFd builder timeoutIsError sbMinCap controller)
      ⟨room, maxLen, 0, state, stream, false, []⟩ = .ok (.again (entry.feed stream)) := by
    have hstart := runController_feed (recvCall recvFd builder timeoutIsError sbMinCap controller)
      { recvStart builder maxLen state [] with builder := room } stream
    exact hstart.trans (by rw [hfirst]; rfl)
  have hgrow : growFor rt builder
      (toSize (if sbMinCap < 0 then defaultSbMinCap else sbMinCap)) = .ok room := hgrow
  unfold recvAllData
  dsimp only
  rw [hgrow, ok_bind, growFor_len hgrow]
  unfold recvCall at hfed ⊢
  rw [hfed]
  rfl

/-- The whole of the call that receives. -/
theorem LinkRun.recvAllData
    (enters : EntersLoop rt (recvCall recvFd builder timeoutIsError sbMinCap controller)
      (recvStart builder maxLen state []) entry)
    (h : LinkRun rt fd buf len (recvCall recvFd builder timeoutIsError sbMinCap controller) entry
      ⟨[], none, false, entry, none⟩ moves last) {res : RecvResult}
    (returned : last.recvRes = some res) :
    ∃ events, events.map SocketEvent.poll = (recvEvents moves).map SocketEvent.poll ∧
      ∀ future, (last.closed = true → future = []) →
        Net77.recvAllData rt recvFd builder maxLen timeoutIsError sbMinCap controller state
            (last.sent ++ future) events =
          .ok { res with stream := last.recv.stream ++ future } := by
  obtain ⟨more, events, hsent, hpolls, hloop⟩ := h.receives rfl returned fun hclosed => by
    contradiction
  refine ⟨events, hpolls, fun future hfuture => ?_⟩
  have hall : last.sent = more := hsent
  rw [recvAllData_entered enters, hall]
  exact hloop future hfuture

/-- In every order of the iterations at the two ends, each of the calls returns what it
returns on its own: the call that sends whatever becomes of its bytes, and the call that
receives as if all of them had been there from the start. -/
theorem link_refines (holds : builder.Holds []) (limit : IsSsize maxLen)
    (minCap : IsSsize sbMinCap) (typed : ∀ c, controller = some c → SsizeController c)
    (enters : EntersLoop rt (recvCall recvFd builder timeoutIsError sbMinCap controller)
      (recvStart builder maxLen state []) entry)
    (h : LinkRun rt fd buf len (recvCall recvFd builder timeoutIsError sbMinCap controller) entry
      ⟨[], none, false, entry, none⟩ moves last) :
    last.sent <+: buf.take len ∧
      (last.recvRes = none →
        ∃ text, last.recv.builder.Holds text ∧ text ++ last.recv.stream = last.sent) ∧
      (∀ res, last.sendRes = some res → sendAllData fd buf len (sendEvents moves) = .ok res) ∧
      ∀ res, last.recvRes = some res → ∃ events,
        events.map SocketEvent.poll = (recvEvents moves).map SocketEvent.poll ∧
        ∀ future, (last.closed = true → future = []) →
          recvAllData rt recvFd builder maxLen timeoutIsError sbMinCap controller state
              (last.sent ++ future) events =
            .ok { res with stream := last.recv.stream ++ future } := by
  refine ⟨h.sent_isPrefix_buf List.nil_prefix, ?_, fun res returned => h.sends rfl returned,
    fun res returned => h.recvAllData enters returned⟩
  intro running
  have hcall : TypedCall (recvCall recvFd builder timeoutIsError sbMinCap controller) :=
    recvCall_typed minCap typed
  have hstart : Gathered [] [] [] (recvStart builder maxLen state []) :=
    recvStart_gathered holds limit
  obtain ⟨room, hgrow, hfirst⟩ := enters
  have hentry := runController_gathered hcall
    (hstart.moved (StringBuilder.Holds.grow_fresh holds hgrow)) hfirst
  obtain ⟨text, hgathered⟩ := h.gathered hcall running hentry
  exact ⟨text, hgathered.holds, hgathered.rest⟩

end Refines

end Link

/-- A `poll` that reports that bytes can be sent and received. -/
def moved (size : Nat) : SocketEvent := ⟨.ready (.only true true), size⟩

/-- A byte is received before the other one is sent, and then the connection ends. -/
def twoBytesMoves : List LinkMove :=
  [.sends (moved 1), .recvs (moved 8), .sends (moved 8), .sendReturns, .closes, .recvs (moved 8),
    .recvs (moved 8)]

/-- A new builder. -/
def freshBuilder (cap : Nat) : StringBuilder := ⟨0, cap, List.replicate cap none⟩

theorem freshBuilder_holds {cap : Nat} (hcap : cap < 2 ^ 62) : (freshBuilder cap).Holds [] :=
  ⟨hcap, List.length_replicate, rfl, List.take_zero⟩

/-- The receiver in front of its loop. -/
def twoBytesEntry : RecvState Unit := recvStart (freshBuilder 4) (-1) () []

theorem link_refines_twoBytes : ∃ last res,
    LinkRun .unlimited 3 [104, 105] 2 (recvCall 4 (freshBuilder 4) true 4 none) twoBytesEntry
        ⟨[], none, false, twoBytesEntry, none⟩ twoBytesMoves last ∧
      last.recvRes = some res ∧ res.status = 0 ∧ last.sent <+: [104, 105] ∧
      (∀ res, last.sendRes = some res →
        sendAllData 3 [104, 105] 2 (sendEvents twoBytesMoves) = .ok res) ∧
      ∃ events, events.map SocketEvent.poll = (recvEvents twoBytesMoves).map SocketEvent.poll ∧
        ∀ future, (last.closed = true → future = []) →
          recvAllData .unlimited 4 (freshBuilder 4) (-1) true 4 none () (last.sent ++ future)
              events =
            .ok { res with stream := last.recv.stream ++ future } := by
  have henters : EntersLoop .unlimited (recvCall 4 (freshBuilder 4) true 4 none)
      (recvStart (freshBuilder 4) (-1) () []) twoBytesEntry := ⟨freshBuilder 4, rfl, rfl⟩
  have hrun : ((linkSystem .unlimited 3 [104, 105] 2 (recvCall 4 (freshBuilder 4) true 4 none)
      twoBytesEntry).run (fun _ _ => true) ⟨[], none, false, twoBytesEntry, none⟩
        twoBytesMoves).map (fun last => last.recvRes.map RecvResult.status) = some (some 0) := by
    decide +kernel
  obtain ⟨last, hlast, hres⟩ := Option.map_eq_some_iff.mp hrun
  obtain ⟨res, hres, hstatus⟩ := Option.map_eq_some_iff.mp hres
  obtain ⟨hsent, -, hsends, hreceives⟩ := link_refines (freshBuilder_holds (by decide))
    (by decide) (by decide) (fun c hc => by contradiction) henters hlast
  exact ⟨last, res, hlast, hres, hstatus, hsent, hsends, hreceives res hres⟩

end Net77
