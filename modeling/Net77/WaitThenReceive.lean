import Net77.ReceiveBounds
import Net77.Sock

/-! What a status of 0 of `waitThenRecvAllData` says about the response. -/
namespace Net77

open Net77.Base

section Built

variable {rt : Runtime} {builder : StringBuilder} {text : Bytes}

/-- The text is in the builder, unless the last expansion has cut it off. -/
structure MayHold (builder : StringBuilder) (text : Bytes) : Prop where
  len_eq : builder.len = text.length
  size_eq : builder.data.length = builder.cap
  holds : builder.len ≤ builder.cap → builder.Holds text

theorem StringBuilder.Holds.mayHold (h : builder.Holds text) : MayHold builder text :=
  ⟨h.len_eq, h.size_eq, fun _ => h⟩

theorem reserveRecv_mayHold {room : StringBuilder} {sbMinCap : Int} (h : builder.Holds text)
    (hok : reserveRecv rt builder sbMinCap = .ok room) : MayHold room text := by
  obtain ⟨hlen, hsize, -, hholds⟩ := reserveRecv_spec h hok
  exact ⟨hlen, hsize, hholds⟩

theorem readCells_length {cells : List (Option Byte)} {n : Nat} {bytes : Bytes}
    (hok : readCells cells n = .ok bytes) : bytes.length = n := by
  fun_induction readCells cells n generalizing bytes with
  | case1 =>
    cases Except.ok.inj hok
    rfl
  | case2 => contradiction
  | case3 => contradiction
  | case4 byte cells n ih =>
    obtain ⟨rest, hrest, hok⟩ := bind_eq_ok.mp hok
    cases Except.ok.inj hok
    rw [List.length_cons, ih hrest]

/-- A cell that was never written is not read. -/
theorem readCells_written {cells : List (Option Byte)} {n i : Nat} {bytes : Bytes} (hi : i < n)
    (hok : readCells cells n = .ok bytes) : cells[i]? ≠ some none := by
  fun_induction readCells cells n generalizing i bytes with
  | case1 => omega
  | case2 => contradiction
  | case3 => contradiction
  | case4 byte cells n ih =>
    obtain ⟨rest, hrest, -⟩ := bind_eq_ok.mp hok
    cases i with
    | zero => simp
    | succ i => simpa using ih (by omega) hrest

/-- A string that was built is the whole text: where the text was cut off, cells are
missing. -/
theorem MayHold.built (h : MayHold builder text) {out : OwnedString} {rest : StringBuilder}
    (hok : stringBuilderBuildAndDestroy rt builder = .ok (out, rest)) : out.bytes = text := by
  unfold stringBuilderBuildAndDestroy at hok
  dsimp only at hok
  split at hok
  · split at hok
    · contradiction
    · rename_i hsize
      have hwrap := Nat.mod_le (builder.len + 1) (2 ^ 64)
      generalize (builder.len + 1) % 2 ^ 64 = size at hok hsize hwrap
      obtain ⟨bytes, hread, hok⟩ := bind_eq_ok.mp hok
      obtain ⟨rfl, -⟩ := Prod.mk.inj (Except.ok.inj hok)
      have hlength := readCells_length hread
      have hbytes : OwnedString.bytes ⟨builder.len, bytes ++ [0]⟩ = bytes := by
        unfold OwnedString.bytes
        dsimp only
        rw [← hlength, List.take_left]
      rw [hbytes]
      by_cases hcut : builder.len ≤ builder.cap
      · have hcells := (h.holds hcut).cells_eq
        have hkept : (reallocCells builder.data size).take text.length = text.map some := by
          rw [← h.len_eq, take_reallocCells (by rw [h.size_eq]; exact hcut) (by omega), hcells]
        have hwhole := StringBuilder.Holds.readCells_eq hkept
        rw [← h.len_eq, hread] at hwhole
        exact Except.ok.inj hwhole
      · have hmissing : (reallocCells builder.data size)[builder.cap]? = some none := by
          unfold reallocCells
          rw [List.take_of_length_le (by rw [h.size_eq]; omega),
            List.getElem?_append_right (by rw [h.size_eq]), h.size_eq, Nat.sub_self,
            List.getElem?_replicate, if_pos (by omega)]
        exact absurd hmissing (readCells_written (by omega) hread)
  · contradiction

theorem newStringBuilder_holds {size : Nat} (hsize : size < 2 ^ 62)
    (hok : newStringBuilder rt size = .ok builder) : builder.Holds [] := by
  unfold newStringBuilder at hok
  split at hok
  · cases Except.ok.inj hok
    exact .empty
  · split at hok
    · cases Except.ok.inj hok
      exact ⟨hsize, List.length_replicate, rfl, List.take_zero⟩
    · contradiction

end Built

section Loop

variable {σ : Type} {rt : Runtime} {call : RecvCall σ} {st : RecvState σ} {stream text : Bytes}
  {pending : Nat} {event : SocketEvent}

/-- A hang-up without `POLLIN` is not reported before the first `pending` bytes are read. -/
def HangsUpEmpty (rt : Runtime) (call : RecvCall σ) (pending : Nat) :
    RecvState σ → List SocketEvent → Prop
  | _, [] => True
  | st, event :: events =>
    (event.HungUp → pending ≤ st.received) ∧
      ∀ st', recvStep rt call event st = .ok (.again st') →
        HangsUpEmpty rt call pending st' events

/-- What was read is in the builder, and none of the first bytes is lost with the socket. -/
structure Kept (pending : Nat) (stream : Bytes) (builder : StringBuilder) (closed : Bool)
    (rest : Bytes) : Prop where
  read : ∃ text, MayHold builder text ∧ text ++ rest = stream
  unread : closed = true → rest.length + pending ≤ stream.length

theorem Gathered.kept (h : Gathered [] stream text st) {builder : StringBuilder} {closed : Bool}
    (hbuilder : MayHold builder text) (unread : closed = true → pending ≤ st.received) :
    Kept pending stream builder closed st.stream := by
  refine ⟨⟨text, hbuilder, h.rest⟩, fun hclosed => ?_⟩
  have hlength := congrArg List.length h.rest
  have := unread hclosed
  rw [List.length_append, ← h.received] at hlength
  omega

theorem Gathered.kept_open (h : Gathered [] stream text st) (stillOpen : st.closedSock = false) :
    Kept pending stream st.builder st.closedSock st.stream := by
  have hholds : st.builder.Holds text := h.holds
  refine h.kept hholds.mayHold fun hclosed => ?_
  rw [stillOpen] at hclosed
  contradiction

/-- An iteration that ends the loop without an error. -/
theorem StepOutcome.kept {st' : RecvState σ} (h : Gathered [] stream text st)
    (stillOpen : st.closedSock = false) (hpending : pending ≤ stream.length)
    (hup : event.HungUp → pending ≤ st.received)
    (outcome : StepOutcome rt call event [] stream text st (.done 0 st')) :
    Kept pending stream st'.builder st'.closedSock st'.stream := by
  have hholds : st.builder.Holds text := h.holds
  cases outcome with
  | waited => exact h.kept_open stillOpen
  | hungUp hhup => exact h.kept hholds.mayHold fun _ => hup hhup
  | ended room reserve used =>
    refine h.kept (reserveRecv_mayHold hholds reserve) fun _ => ?_
    have hlength := congrArg List.length h.rest
    rw [used, List.append_nil] at hlength
    rw [h.received, hlength]
    exact hpending
  | received chunk next some gathered kept =>
    exact Gathered.kept_open gathered (kept.trans stillOpen)

theorem finish_status {ec : Int} {events : List SocketEvent}
    (zero : (st.finish ec events).status = 0) : ec = 0 := by
  unfold RecvState.finish at zero
  dsimp only at zero
  split at zero
  · contradiction
  · exact zero

/-- By the iterations. -/
theorem LoopRun.kept (typed : TypedCall call) (hpending : pending ≤ stream.length)
    {events : List SocketEvent} {res : RecvResult} (run : LoopRun rt call events st res)
    (polls : HangsUpEmpty rt call pending st events) (h : Gathered [] stream text st)
    (stillOpen : st.closedSock = false) (zero : res.status = 0) :
    Kept pending stream res.builder res.closedSock res.stream := by
  induction run generalizing text with
  | stopped stop => exact h.kept_open stillOpen
  | again more step run ih =>
    cases recvStep_outcome typed h more step with
    | received chunk _ some gathered kept =>
      exact ih (polls.2 _ step) gathered (kept.trans stillOpen) zero
  | done more step =>
    obtain rfl := finish_status zero
    exact (recvStep_outcome typed h more step).kept h stillOpen hpending polls.1

/-- The whole of `recvAllData`, into a new builder. A builder without a text loses nothing
when it grows. -/
theorem recvAllData_kept {fd maxLen sbMinCap : Int} {builder : StringBuilder}
    {timeoutIsError : Bool} {controller : Option (RecvController σ)} {state : σ}
    {events : List SocketEvent} {res : RecvResult} (holds : builder.Holds [])
    (limit : IsSsize maxLen) (minCap : IsSsize sbMinCap)
    (typed : ∀ c, controller = some c → SsizeController c) (hpending : pending ≤ stream.length)
    (polls : ∀ entry, EntersLoop rt (recvCall fd builder timeoutIsError sbMinCap controller)
      (recvStart builder maxLen state stream) entry →
        HangsUpEmpty rt (recvCall fd builder timeoutIsError sbMinCap controller) pending entry
          events)
    (hok : recvAllData rt fd builder maxLen timeoutIsError sbMinCap controller state stream events =
      .ok res) (zero : res.status = 0) :
    Kept pending stream res.builder res.closedSock res.stream := by
  have hcall : TypedCall (recvCall fd builder timeoutIsError sbMinCap controller) :=
    recvCall_typed minCap typed
  have hstart : Gathered [] stream [] (recvStart builder maxLen state stream) :=
    recvStart_gathered holds limit
  cases recvAllData_outcome hok with
  | looped enters loop =>
    obtain ⟨room, hgrow, hfirst⟩ := enters
    have hroom := hstart.moved (StringBuilder.Holds.grow_fresh holds hgrow)
    exact (recvLoop_run loop).kept hcall hpending (polls _ ⟨room, hgrow, hfirst⟩)
      (runController_gathered hcall hroom hfirst) (runController_keeps hfirst).2.2 zero
  | ended grown first =>
    have hroom := hstart.moved (StringBuilder.Holds.grow_fresh holds grown)
    have hentry := runController_gathered hcall hroom first
    exact Gathered.kept_open hentry (runController_keeps first).2.2

end Loop

section Response

variable {σ : Type} {rt : Runtime} {timeoutIsError : Bool} {clientBufSize : Int}
  {maxResponseSize : Nat} {controller : Option (RecvController σ)} {state : σ} {fd : Int}
  {stream : Bytes} {pending : Nat}

/-- The size of the first buffer, which is the minimum for `recvAllData` as well. -/
def responseBufSize (clientBufSize : Int) : Int :=
  if clientBufSize < 0 then defaultClientBufSize else clientBufSize

/-- The call of `recvAllData`, and where its loop begins. -/
def ResponseLoop (rt : Runtime) (timeoutIsError : Bool) (clientBufSize : Int)
    (maxResponseSize : Nat) (controller : Option (RecvController σ)) (state : σ) (fd : Int)
    (stream : Bytes) (call : RecvCall σ) (entry : RecvState σ) : Prop :=
  ∃ builder, newStringBuilder rt (toSize (responseBufSize clientBufSize)) = .ok builder ∧
    call = recvCall fd builder timeoutIsError (responseBufSize clientBufSize) controller ∧
    EntersLoop rt call (recvStart builder (toSsize maxResponseSize) state stream) entry

/-- With a status of 0, `*out` is what was read, and nothing that could be read at the first
`poll` went with the socket. -/
structure DeliversResponse (pending : Nat) (stream : Bytes) (res : WaitResult) : Prop where
  written : res.status = 0 → ∃ out, res.out = some out ∧ out.bytes ++ res.stream = stream
  unread : res.status = 0 → res.closedSock = true → res.stream.length + pending ≤ stream.length

/-- The first `poll` reports a hang-up, and no error. -/
def HangsUpFirst (event : SocketEvent) : Prop :=
  ∃ r, event.poll = .ready r ∧ r.pollerr = false ∧ r.pollhup = true

theorem responseBufSize_bounds (bufSize : clientBufSize < 2 ^ 31) :
    0 ≤ responseBufSize clientBufSize ∧ responseBufSize clientBufSize < 2 ^ 31 := by
  have hdefault : defaultClientBufSize = 8 * 1024 := rfl
  unfold responseBufSize
  split <;> omega

/-- Behind the first `poll` everything is as it should be. -/
theorem recvResponse_delivers {events : List SocketEvent} {res : WaitResult}
    (typed : ∀ c, controller = some c → SsizeController c) (bufSize : clientBufSize < 2 ^ 31)
    (hpending : pending ≤ stream.length)
    (polls : ∀ call entry, ResponseLoop rt timeoutIsError clientBufSize maxResponseSize controller
      state fd stream call entry → HangsUpEmpty rt call pending entry events)
    (hok : recvResponse rt timeoutIsError clientBufSize maxResponseSize controller state fd stream
      events = .ok res) : DeliversResponse pending stream res := by
  obtain ⟨hnonneg, hsmall⟩ := responseBufSize_bounds bufSize
  unfold recvResponse at hok
  obtain ⟨builder, hbuilder, hok⟩ := bind_eq_ok.mp hok
  obtain ⟨recv, hrecv, hok⟩ := bind_eq_ok.mp hok
  by_cases zero : recv.status = 0
  · rw [if_neg (fun hne => hne zero)] at hok
    obtain ⟨⟨out, rest⟩, hbuild, hok⟩ := bind_eq_ok.mp hok
    cases Except.ok.inj hok
    have hbuilder' : newStringBuilder rt (toSize (responseBufSize clientBufSize)) = .ok builder :=
      hbuilder
    have hholds := newStringBuilder_holds (by unfold toSize; omega) hbuilder'
    have hkept : Kept pending stream recv.builder recv.closedSock recv.stream :=
      recvAllData_kept hholds (toSsize_bounds maxResponseSize) ⟨by omega, by omega⟩ typed hpending
        (fun entry henters => polls _ entry ⟨builder, hbuilder', rfl, henters⟩) hrecv zero
    obtain ⟨⟨text, hmay, hrest⟩, hunread⟩ := hkept
    exact ⟨fun _ => ⟨out, rfl, by rw [hmay.built hbuild]; exact hrest⟩, fun _ => hunread⟩
  · rw [if_pos zero] at hok
    cases Except.ok.inj hok
    exact ⟨fun hzero => absurd hzero zero, fun hzero => absurd hzero zero⟩

/-- What a call comes to behind its first `poll`. -/
inductive FirstPoll (rt : Runtime) (timeoutIsError : Bool) (clientBufSize : Int)
    (maxResponseSize : Nat) (controller : Option (RecvController σ)) (state : σ) (fd : Int)
    (stream : Bytes) (event : SocketEvent) (events : List SocketEvent) (res : WaitResult) : Prop where
  | failed (quiet : ¬ HangsUpFirst event) (status : res.status ≠ 0)
  | hungUp (hup : HangsUpFirst event) (status : res.status = 0) (unwritten : res.out = none)
  | received (quiet : ¬ HangsUpFirst event)
      (recv : recvResponse rt timeoutIsError clientBufSize maxResponseSize controller state fd
        stream events = .ok res)

theorem waitThenRecv_firstPoll {event : SocketEvent} {events : List SocketEvent} {res : WaitResult}
    (hok : waitThenRecvAllData rt timeoutIsError clientBufSize maxResponseSize controller state fd
      stream (event :: events) = .ok res) :
    FirstPoll rt timeoutIsError clientBufSize maxResponseSize controller state fd stream event
      events res := by
  unfold waitThenRecvAllData at hok
  dsimp only at hok
  cases hpoll : event.poll with
  | failed =>
    rw [hpoll] at hok
    cases Except.ok.inj hok
    refine .failed (fun ⟨r, hready, _⟩ => ?_) (by simp)
    rw [hpoll] at hready
    contradiction
  | timedOut =>
    rw [hpoll] at hok
    cases Except.ok.inj hok
    refine .failed (fun ⟨r, hready, _⟩ => ?_) (by simp)
    rw [hpoll] at hready
    contradiction
  | ready r =>
    have hfirst : HangsUpFirst event ↔ r.pollerr = false ∧ r.pollhup = true := by
      unfold HangsUpFirst
      rw [hpoll]
      simp
    rw [hpoll] at hok
    dsimp only at hok
    split at hok
    · rename_i herr
      cases Except.ok.inj hok
      refine .failed (fun hup => ?_) (by simp)
      rw [(hfirst.mp hup).1] at herr
      contradiction
    · rename_i herr
      split at hok
      · rename_i hhup
        cases Except.ok.inj hok
        exact .hungUp (hfirst.mpr ⟨by simpa using herr, hhup⟩) rfl rfl
      · rename_i hhup
        have quiet : ¬ HangsUpFirst event := fun hup => hhup (hfirst.mp hup).2
        split at hok
        · cases Except.ok.inj hok
          exact .failed quiet (by simp)
        · split at hok
          · contradiction
          · exact .received quiet hok

/-- A hang-up at the first `poll` is taken for the end of the data. -/
theorem waitThenRecv_delivers_iff {event : SocketEvent} {events : List SocketEvent}
    {res : WaitResult} (typed : ∀ c, controller = some c → SsizeController c)
    (bufSize : clientBufSize < 2 ^ 31) (hpending : pending ≤ stream.length)
    (polls : ∀ call entry, ResponseLoop rt timeoutIsError clientBufSize maxResponseSize controller
      state fd stream call entry → HangsUpEmpty rt call pending entry events)
    (hok : waitThenRecvAllData rt timeoutIsError clientBufSize maxResponseSize controller state fd
      stream (event :: events) = .ok res) :
    DeliversResponse pending stream res ↔ ¬ HangsUpFirst event := by
  cases waitThenRecv_firstPoll hok with
  | failed quiet status =>
    exact iff_of_true ⟨fun hzero => absurd hzero status, fun hzero => absurd hzero status⟩ quiet
  | hungUp hup status unwritten =>
    refine iff_of_false (fun delivers => ?_) (fun quiet => quiet hup)
    obtain ⟨out, hout, -⟩ := delivers.written status
    rw [unwritten] at hout
    contradiction
  | received quiet recv =>
    exact iff_of_true (recvResponse_delivers typed bufSize hpending polls recv) quiet

end Response

section OneByte

/-- The response of one byte, behind this result of the first `poll`. -/
def awaitByte (first : SocketEvent) : Except Stop WaitResult :=
  waitThenRecvAllData .unlimited true 16 1 (none : Option (RecvController Unit)) () 3 [7]
    [first, ⟨.ready (.only true false), 0⟩]

/-- Without a hang-up it is delivered. -/
theorem waitThenRecv_delivers_one : ∃ res, awaitByte ⟨.ready (.only true false), 0⟩ = .ok res ∧
    (DeliversResponse 1 [7] res ↔ ¬ HangsUpFirst ⟨.ready (.only true false), 0⟩) := by
  have hrun : (awaitByte ⟨.ready (.only true false), 0⟩).toOption.isSome = true := by
    decide +kernel
  cases hres : awaitByte ⟨.ready (.only true false), 0⟩ with
  | error stop =>
    rw [hres] at hrun
    contradiction
  | ok res =>
    unfold awaitByte at hres
    refine ⟨res, rfl, waitThenRecv_delivers_iff ?_ (by decide) (by decide) ?_ hres⟩
    · exact fun _ h => nomatch h
    · intro call entry _
      unfold HangsUpEmpty
      refine ⟨fun hup => ?_, fun _ _ => trivial⟩
      obtain ⟨r, hready, hin, -⟩ := hup
      cases hready
      contradiction

/-- With one it stays unread, in a socket that was closed, and `*out` is not written. -/
theorem waitThenRecv_hangUp : ∃ res,
    awaitByte ⟨.ready ⟨true, false, false, true, false, fun h => nomatch h⟩, 0⟩ = .ok res ∧
      res.status = 0 ∧ res.out = none ∧ res.closedSock = true ∧ res.stream = [7] ∧
      ¬ DeliversResponse 1 [7] res := by
  refine ⟨_, rfl, rfl, rfl, rfl, rfl, fun h => ?_⟩
  obtain ⟨out, hout, -⟩ := h.written rfl
  contradiction

end OneByte

end Net77
