import Net77.Http.ControllerRefinement

/-! `recvAllData` with the HTTP controller returns what `receiveMessage` says. -/
namespace Net77

open Net77.Base

/-- The bytes behind what a builder held before. -/
theorem StringBuilder.Holds.readFrom {builder : StringBuilder} {prior text : Bytes}
    (h : builder.Holds (prior ++ text)) :
    readCells (builder.data.drop prior.length) text.length = .ok text := by
  apply StringBuilder.Holds.readCells_eq
  have hcells := congrArg (List.drop prior.length) h.cells_eq
  rw [h.len_eq, List.length_append, List.drop_take, Nat.add_sub_cancel_left, List.map_append,
    List.drop_left' (List.length_map some)] at hcells
  exact hcells

namespace Http

variable {rt : Runtime} {call : RecvCall HttpReceiveControllerState} {prior stream text : Bytes}
  {og : Int} {st : RecvState HttpReceiveControllerState} {event : SocketEvent}

/-- The call is about a builder that held `prior`, with the HTTP controller. -/
structure Controls (call : RecvCall HttpReceiveControllerState) (prior : Bytes) : Prop where
  behind : call.initialLen = prior.length
  controller : call.controller = some httpReceiveController

/-- The loop has received `text` of the stream. -/
structure Receiving (og : Int) (prior stream text : Bytes)
    (st : RecvState HttpReceiveControllerState) : Prop where
  holds : st.builder.Holds (prior ++ text)
  received : st.received = text.length
  rest : text ++ st.stream = stream
  phase : Phase og text st.state st.maxLen
  within : 0 ≤ og → (text.length : Int) ≤ og
  limit : 0 ≤ st.maxLen → (text.length : Int) ≤ st.maxLen
  stillOpen : st.closedSock = false

/-- What the call returns is a reception; the builder has it unless a close
came in between, which may have been in front of the last expansion. -/
structure Delivers (prior stream : Bytes) (r : Reception) (res : RecvResult) : Prop where
  status : res.status = r.status
  closedSock : res.closedSock = r.closed
  received : res.received = r.bytes.length
  rest : r.bytes ++ res.stream = stream
  holds : r.closed = false → res.builder.Holds (prior ++ r.bytes)

namespace Receiving

theorem text_isPrefix (h : Receiving og prior stream text st) : text <+: stream := ⟨_, h.rest⟩

theorem limit_isSsize (h : Receiving og prior stream text st) (hog : IsSsize og) :
    IsSsize st.maxLen := by
  apply (h.phase.maxLen_bounds h.within).2 hog
  have hlen := h.holds.len_le
  rw [h.holds.len_eq, List.length_append] at hlen
  have := h.holds.cap_lt
  omega

theorem guard (h : Receiving og prior stream text st) (hmore : st.wantsMore = true) :
    st.maxLen < 0 ∨ (text.length : Int) < st.maxLen := by
  rw [← h.received]
  exact wantsMore_iff.mp hmore

/-- The loop condition fails. -/
theorem finish_done (h : Receiving og prior stream text st) (hstop : st.wantsMore = false)
    (events : List SocketEvent) :
    receiveMessage stream og = .ok ⟨0, text, false⟩ ∧
      Delivers prior stream ⟨0, text, false⟩ (st.finish 0 events) := by
  have hguard := wantsMore_iff.not.mp (by rw [hstop]; decide)
  rw [h.received] at hguard
  have hlimit := h.limit (by omega)
  refine ⟨h.phase.done h.text_isPrefix h.within (by omega) hlimit, ?_⟩
  exact ⟨by rw [RecvState.finish, h.received, if_neg (by omega)], h.stillOpen, h.received, h.rest,
    fun _ => h.holds⟩

/-- The end of the stream is seen. -/
theorem finish_close (h : Receiving og prior stream text st) (hmore : st.wantsMore = true)
    (hend : st.stream = []) (builder : StringBuilder) (fd : Int) (events : List SocketEvent) :
    receiveMessage stream og = .ok ⟨0, text, true⟩ ∧
      Delivers prior stream ⟨0, text, true⟩
        (({ st with builder } : RecvState _).close fd |>.finish 0 events) := by
  have hguard := h.guard hmore
  have hall : text = stream := by rw [← h.rest, hend, List.append_nil]
  subst hall
  refine ⟨h.phase.close h.within hguard, ?_⟩
  refine ⟨?_, rfl, h.received, h.rest, fun hopen => by contradiction⟩
  rw [RecvState.finish, RecvState.close, h.received, if_neg (by dsimp only; omega)]

end Receiving

/-- What the controller decides about the bytes that have just been received. -/
theorem runController_spec (st : RecvState HttpReceiveControllerState) (stream : Bytes)
    (hcall : Controls call prior) {chunk : Bytes} (hchunk : chunk ≠ [])
    (h : Phase og text st.state st.maxLen) (holds : st.builder.Holds (prior ++ (text ++ chunk)))
    (hreceived : st.received = (text ++ chunk).length) (hrest : text ++ chunk ++ st.stream = stream)
    (hwithin : 0 ≤ og → (text.length : Int) ≤ og)
    (hlimit : 0 ≤ st.maxLen → ((text ++ chunk).length : Int) ≤ st.maxLen)
    (hopen : st.closedSock = false) :
    match runController call st with
    | .ok (.again st') => Receiving og prior stream (text ++ chunk) st'
    | .ok (.done ec st') => ec = 1 ∧ receiveMessage stream og = .ok ⟨1, text ++ chunk, false⟩ ∧
        ∀ events, Delivers prior stream ⟨1, text ++ chunk, false⟩ (st'.finish 1 events)
    | .error stop => receiveMessage stream og = .error stop := by
  have hstep := h.step hchunk ⟨_, hrest⟩ hwithin hlimit
    (st.builder.cap - call.initialLen)
  have hpos := List.length_pos_iff.mpr hchunk
  have hcap : st.builder.cap ≠ 0 := by
    have := holds.len_le
    rw [holds.len_eq, List.length_append, List.length_append] at this
    omega
  have hread := holds.readFrom
  unfold runController
  rw [hcall.controller]
  dsimp only
  rw [receivedBytes, if_neg hcap, hcall.behind, hreceived, hread]
  rw [hcall.behind] at hstep
  dsimp only [ok_bind, pure_eq_ok]
  generalize httpReceiveController _ _ _ _ _ = answer at hstep
  rw [← hreceived]
  cases answer with
  | error stop => exact hstep
  | ok result =>
    obtain ⟨maxLen, action, state⟩ := result
    cases action with
    | none =>
      obtain ⟨hphase, hmax⟩ := hstep
      exact ⟨holds, hreceived, hrest, hphase, h.within hwithin hlimit, hmax, hopen⟩
    | rejectRequest =>
      obtain ⟨hmessage, hmax⟩ := hstep
      refine ⟨rfl, hmessage, fun events => ?_⟩
      refine ⟨?_, hopen, hreceived, hrest, fun _ => holds⟩
      simp [RecvState.finish]
    | finished => exact absurd hstep id

/-- An iteration that received something, or saw the end of the stream. -/
theorem recvChunk_result (hcall : Controls call prior) (hog : IsSsize og)
    (h : Receiving og prior stream text st) (hmore : st.wantsMore = true) {size : Nat}
    {builder : StringBuilder} {chunk : Bytes}
    (hinto : recvInto rt st.builder call.sbMinCap st.maxLen st.received st.stream size =
      .ok (builder, chunk)) :
    match recvChunk rt call size st with
    | .ok (.again st') => ∃ chunk, chunk ≠ [] ∧ Receiving og prior stream (text ++ chunk) st'
    | .ok (.done ec st') => ∃ r, receiveMessage stream og = .ok r ∧
        ∀ events, Delivers prior stream r (st'.finish ec events)
    | .error stop => receiveMessage stream og = .error stop := by
  have hlen : st.received ≤ (prior ++ text).length := by
    rw [h.received, List.length_append]
    omega
  obtain ⟨hchunk, hempty, hfull⟩ := recvInto_spec h.holds hlen (h.limit_isSsize hog)
    (wantsMore_iff.mp hmore) hinto
  unfold recvChunk
  rw [hinto, ok_bind]
  dsimp only
  by_cases hnil : chunk = []
  · subst hnil
    have hclose := h.finish_close hmore (hempty rfl) builder call.fd
    rw [if_pos rfl]
    exact ⟨_, (hclose []).1, fun events => (hclose events).2⟩
  · rw [if_neg hnil]
    obtain ⟨hholds, hlimit⟩ := hfull hnil
    obtain ⟨tail, htail⟩ := hchunk
    have hspec := runController_spec { st with
        builder, received := st.received + chunk.length, stream := st.stream.drop chunk.length }
      stream hcall hnil h.phase (by rw [← List.append_assoc]; exact hholds)
      (by rw [List.length_append, h.received])
      (by rw [← htail, List.drop_left, List.append_assoc, htail, h.rest]) h.within
      (by rw [List.length_append, ← h.received]; exact hlimit) h.stillOpen
    generalize runController call _ = answer at hspec ⊢
    cases answer with
    | error stop => exact hspec
    | ok next =>
      cases next with
      | again st' => exact ⟨chunk, hnil, hspec⟩
      | done ec st' =>
        obtain ⟨rfl, hmessage, hdelivers⟩ := hspec
        exact ⟨_, hmessage, hdelivers⟩

theorem recvChunk_spec (hcall : Controls call prior) (hog : IsSsize og)
    (h : Receiving og prior stream text st) (hmore : st.wantsMore = true) {size : Nat}
    {next : RecvNext HttpReceiveControllerState} (hok : recvChunk rt call size st = .ok next) :
    match next with
    | .again st' => ∃ chunk, chunk ≠ [] ∧ Receiving og prior stream (text ++ chunk) st'
    | .done ec st' => ∃ r, receiveMessage stream og = .ok r ∧
        ∀ events, Delivers prior stream r (st'.finish ec events) := by
  obtain ⟨⟨builder, chunk⟩, hinto, -⟩ := bind_eq_ok.mp hok
  have hresult := recvChunk_result hcall hog h hmore hinto
  rw [hok] at hresult
  cases next with
  | again st' => exact hresult
  | done ec st' => exact hresult

theorem Receiving.length_lt (h : Receiving og prior stream text st) (hmore : st.wantsMore = true)
    {r : Reception} (hr : receiveMessage stream og = .ok r) (hopen : r.closed = false) :
    text.length < r.bytes.length := by
  cases hstream : st.stream with
  | nil =>
    have hclose := (h.finish_close hmore hstream st.builder 0 []).1
    cases Except.ok.inj (hr.symm.trans hclose)
    contradiction
  | cons b tail =>
    have hguard := h.guard hmore
    have hrest := h.rest
    have hlen : (text ++ [b]).length = text.length + 1 := List.length_append
    rw [hstream, ← List.singleton_append, ← List.append_assoc] at hrest
    have := h.phase.length_chunk_le (List.cons_ne_nil b []) ⟨tail, hrest⟩ h.within (by omega) hr
    omega

theorem recvChunk_total (hcall : Controls call prior) (hog : IsSsize og)
    (h : Receiving og prior stream text st) (hmore : st.wantsMore = true)
    (halloc : rt.AllocSucceeds) (hmin : 1 ≤ call.sbMinCap) {r : Reception}
    (hr : receiveMessage stream og = .ok r) (hopen : r.closed = false)
    (hmem : (prior.length + r.bytes.length + call.sbMinCap : Int) ≤ maxCapacity + 1) (size : Nat) :
    ∃ next, recvChunk rt call size st = .ok next := by
  have hlt := h.length_lt hmore hr hopen
  have hlen : (prior ++ text).length = prior.length + text.length := List.length_append
  obtain ⟨builder, chunk, hinto, -⟩ := recvInto_total st.stream size h.holds halloc
    hmin (by omega) (by rw [h.received]; omega) (h.limit_isSsize hog) (wantsMore_iff.mp hmore)
  have hresult := recvChunk_result hcall hog h hmore hinto
  cases hchunk : recvChunk rt call size st with
  | ok next => exact ⟨next, rfl⟩
  | error stop =>
    rw [hchunk, hr] at hresult
    contradiction

/-- Wherever the loop ends, it has received what the stream says. -/
theorem loopRun_delivers (hcall : Controls call prior) (hog : IsSsize og)
    {events : List SocketEvent} {res : RecvResult} (run : LoopRun rt call events st res)
    (hevents : ∀ event ∈ events, event.Readable ∨
      event.HungUp ∧ (res.closedSock = true → res.stream = []))
    (h : Receiving og prior stream text st) :
    ∃ r, receiveMessage stream og = .ok r ∧ Delivers prior stream r res := by
  induction run generalizing text with
  | stopped stop =>
    obtain ⟨hmessage, hdelivers⟩ := h.finish_done (by simpa using stop) _
    exact ⟨_, hmessage, hdelivers⟩
  | again more step run ih =>
    rw [List.forall_mem_cons] at hevents
    rcases hevents.1 with hread | ⟨hhup, -⟩
    · rw [recvStep_readable hread] at step
      obtain ⟨chunk, -, hreceiving⟩ := recvChunk_spec hcall hog h more step
      exact ih hevents.2 hreceiving
    · rw [recvStep_hungUp hhup] at step
      cases Except.ok.inj step
  | @done event events st st' ec more step =>
    rw [List.forall_mem_cons] at hevents
    rcases hevents.1 with hread | ⟨hhup, hend⟩
    · rw [recvStep_readable hread] at step
      obtain ⟨r, hmessage, hdelivers⟩ := recvChunk_spec hcall hog h more step
      exact ⟨r, hmessage, hdelivers _⟩
    · rw [recvStep_hungUp hhup] at step
      cases Except.ok.inj step
      obtain ⟨hmessage, hdelivers⟩ := h.finish_close more (hend rfl) st.builder call.fd events
      exact ⟨_, hmessage, hdelivers⟩

/-- With memory, the loop ends after at most one event for every byte. -/
theorem recvLoop_total (hcall : Controls call prior) (hog : IsSsize og)
    (halloc : rt.AllocSucceeds) (hmin : 1 ≤ call.sbMinCap) {r : Reception}
    (hr : receiveMessage stream og = .ok r) (hopen : r.closed = false)
    (hmem : (prior.length + r.bytes.length + call.sbMinCap : Int) ≤ maxCapacity + 1)
    {events : List SocketEvent} (hevents : ∀ event ∈ events, event.Readable)
    (h : Receiving og prior stream text st)
    (hcount : r.bytes.length ≤ text.length + events.length) :
    ∃ res used, recvLoop rt call events st = .ok res ∧ events = used ++ res.events ∧
      text.length + used.length ≤ r.bytes.length := by
  have hle := h.phase.length_le h.text_isPrefix h.within h.limit hr
  induction events generalizing text st with
  | nil =>
    have hstop : ¬ st.wantsMore = true := by
      intro more
      have hlt := h.length_lt more hr hopen
      rw [List.length_nil] at hcount
      omega
    exact ⟨_, [], recvLoop_stopped hstop, rfl, hle⟩
  | cons event events ih =>
    rw [List.forall_mem_cons] at hevents
    rw [List.length_cons] at hcount
    by_cases more : st.wantsMore = true
    · have hlt := h.length_lt more hr hopen
      obtain ⟨next, hnext⟩ := recvChunk_total hcall hog h more halloc hmin hr hopen hmem event.size
      have hspec := recvChunk_spec hcall hog h more hnext
      have hstep : recvStep rt call event st = .ok next := by
        rw [recvStep_readable hevents.1, hnext]
      cases next with
      | again st' =>
        obtain ⟨chunk, hchunk, hreceiving⟩ := hspec
        have hpos := List.length_pos_iff.mpr hchunk
        have hlen : (text ++ chunk).length = text.length + chunk.length := List.length_append
        obtain ⟨res, used, hloop, hused, hbound⟩ := ih hevents.2 hreceiving (by omega)
          (hreceiving.phase.length_le hreceiving.text_isPrefix hreceiving.within
            hreceiving.limit hr)
        refine ⟨res, event :: used, ?_, by rw [hused, List.cons_append], ?_⟩
        · rw [recvLoop_again more hstep, hloop]
        · rw [List.length_cons]
          omega
      | done ec st' =>
        refine ⟨_, [event], recvLoop_done more hstep, rfl, ?_⟩
        rw [List.length_singleton]
        omega
    · exact ⟨_, [], recvLoop_stopped more, rfl, hle⟩

/-- The first call of the controller, in front of the first `recv`. -/
theorem runController_start (hcall : Controls call prior) {builder : StringBuilder}
    (h : builder.Holds prior) (hcap : builder.cap ≠ 0) (og : Int) (stream : Bytes) :
    ∃ st, runController call ⟨builder, og, 0, .zeroed, stream, false, []⟩ = .ok (.again st) ∧
      Receiving og prior stream [] st := by
  refine ⟨⟨builder, nextByte 0 og, 0, ⟨og, 0, 0, 1⟩, stream, false, []⟩, ?_, ?_⟩
  · unfold runController
    rw [hcall.controller]
    dsimp only
    rw [receivedBytes, if_neg hcap]
    have hnothing (cells : List (Option Byte)) : readCells cells 0 = .ok [] := by
      cases cells <;> rfl
    rw [hnothing]
    rfl
  · refine ⟨by rwa [List.append_nil], rfl, rfl, .firstLine rfl, ?_, ?_, rfl⟩
    · intro hpos
      exact hpos
    · intro hpos
      exact hpos

section Call

variable {builder : StringBuilder} {fd sbMinCap : Int} {timeoutIsError : Bool}
  {events : List SocketEvent}

/-- With a fresh builder, a call that returns delivers what the stream says. -/
theorem recvAllData_spec (hbuilder : builder.Holds []) (hog : IsSsize og) {res : RecvResult}
    (hevents : ∀ event ∈ events, event.Readable ∨
      event.HungUp ∧ (res.closedSock = true → res.stream = []))
    (hok : recvAllData rt fd builder og timeoutIsError sbMinCap (some httpReceiveController)
      .zeroed stream events = .ok res) :
    ∃ r, receiveMessage stream og = .ok r ∧ Delivers [] stream r res := by
  unfold recvAllData at hok
  obtain ⟨room, hroom, hok⟩ := bind_eq_ok.mp hok
  have hfresh := hbuilder.grow_fresh hroom
  have hcall : Controls ⟨fd, if sbMinCap < 0 then defaultSbMinCap else sbMinCap, timeoutIsError,
      room.len, some httpReceiveController⟩ [] := ⟨hfresh.len_eq, rfl⟩
  obtain ⟨next, hnext, hok⟩ := bind_eq_ok.mp hok
  by_cases hcap : room.cap = 0
  · rw [runController, receivedBytes, if_pos hcap] at hnext
    simp [httpReceiveController, bind, Except.bind] at hnext
  · obtain ⟨st, hstart, hreceiving⟩ := runController_start hcall hfresh hcap og stream
    cases Except.ok.inj (hstart.symm.trans hnext)
    exact loopRun_delivers hcall hog (recvLoop_run hok) hevents hreceiving

/-- With memory and an event for every byte, the call returns. -/
theorem recvAllData_total (fd : Int) (timeoutIsError : Bool) (hbuilder : builder.Holds [])
    (hog : IsSsize og) (halloc : rt.AllocSucceeds) (hmin : 1 ≤ sbMinCap) (hmax : sbMinCap ≤ maxCapacity)
    {r : Reception} (hr : receiveMessage stream og = .ok r) (hopen : r.closed = false)
    (hmem : (r.bytes.length + sbMinCap : Int) ≤ maxCapacity + 1)
    (hevents : ∀ event ∈ events, event.Readable) (hcount : r.bytes.length ≤ events.length) :
    ∃ res used, recvAllData rt fd builder og timeoutIsError sbMinCap (some httpReceiveController)
      .zeroed stream events = .ok res ∧ events = used ++ res.events ∧
        used.length ≤ r.bytes.length := by
  have hsize : toSize sbMinCap ≤ maxCapacity ∧ 1 ≤ toSize sbMinCap := by
    unfold maxCapacity at hmax ⊢
    unfold toSize
    omega
  obtain ⟨room, hroom, hholds, hcap⟩ := hbuilder.grow hsize.1 halloc
  have hcall : Controls ⟨fd, sbMinCap, timeoutIsError, room.len, some httpReceiveController⟩ [] :=
    ⟨hholds.len_eq, rfl⟩
  obtain ⟨st, hstart, hreceiving⟩ := runController_start hcall hholds (by omega) og stream
  unfold recvAllData
  rw [if_neg (by omega : ¬ sbMinCap < 0)]
  dsimp only
  rw [hroom, ok_bind, hstart, ok_bind]
  obtain ⟨res, used, hloop, hused, hbound⟩ := recvLoop_total hcall hog halloc hmin hr hopen
    (by simpa using hmem) hevents hreceiving (by simpa using hcount)
  exact ⟨res, used, hloop, hused, by simpa using hbound⟩

end Call

end Http

end Net77
