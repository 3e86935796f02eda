import Net77.Http.Reception
import Net77.ReceiveBounds

/-! The size limit of `recvAllData`, without a controller. -/
namespace Net77

open Net77.Base
open Net77.Http (cut cut_full cut_short length_cut)

section Schedule

variable {σ : Type}

/-- There is something to read as long as the peer's data is not used up. Then comes a
timeout or the close. -/
def Truthful (rt : Runtime) (call : RecvCall σ) : RecvState σ → List SocketEvent → Prop
  | _, [] => True
  | st, event :: events =>
    (event.Readable ∨ st.stream = [] ∧ (event.poll = .timedOut ∨ event.HungUp)) ∧
      ∀ st', recvStep rt call event st = .ok (.again st') → Truthful rt call st' events

end Schedule

/-- All of the peer's data is in the builder, behind what it held before. -/
def HoldsAll (prior stream : Bytes) (res : RecvResult) : Prop :=
  res.status = 0 ∧ res.builder.Holds (prior ++ stream)

/-- What the documentation says of the limit. -/
structure LimitKept (prior stream : Bytes) (maxLen : Int) (res : RecvResult) : Prop where
  rejects : 0 < maxLen → maxLen < stream.length → res.status ≠ 0
  accepts : 0 < maxLen → stream.length ≤ maxLen → HoldsAll prior stream res
  unlimited : maxLen ≤ 0 → HoldsAll prior stream res

/-- The call returns, and with what the documentation says. -/
def ReturnsKept (prior stream : Bytes) (maxLen : Int) (result : Except Stop RecvResult) : Prop :=
  ∃ res, result = .ok res ∧ LimitKept prior stream maxLen res

theorem returnsKept_ok {prior stream : Bytes} {maxLen : Int} {res : RecvResult} :
    ReturnsKept prior stream maxLen (.ok res) ↔ LimitKept prior stream maxLen res := by
  constructor
  · rintro ⟨other, hok, kept⟩
    cases Except.ok.inj hok
    exact kept
  · intro kept
    exact ⟨res, rfl, kept⟩

/-- What the loop does instead: it stops at the limit, and reports success. -/
structure StopsAtLimit (prior stream : Bytes) (maxLen : Int) (res : RecvResult) : Prop where
  status : res.status = 0
  holds : res.builder.Holds (prior ++ cut stream maxLen)

theorem StopsAtLimit.kept_iff {prior stream : Bytes} {maxLen : Int} {res : RecvResult}
    (h : StopsAtLimit prior stream maxLen res) :
    LimitKept prior stream maxLen res ↔ maxLen < 0 ∨ stream.length ≤ maxLen := by
  constructor
  · intro kept
    by_cases hpos : 0 < maxLen
    · by_cases hlong : maxLen < stream.length
      · exact absurd h.status (kept.rejects hpos hlong)
      · exact .inr (by omega)
    · have hall := (kept.unlimited (by omega)).2.len_eq
      have hcut := h.holds.len_eq
      have hlength := length_cut stream maxLen
      rw [List.length_append] at hall hcut
      split at hlength
      · exact .inl (by assumption)
      · exact .inr (by omega)
  · intro hshort
    have hcut : cut stream maxLen = stream := by
      by_cases hless : maxLen < 0 ∨ (stream.length : Int) < maxLen
      · exact cut_short hless
      · exact cut_full List.prefix_rfl (by omega)
    have hall : HoldsAll prior stream res := ⟨h.status, hcut ▸ h.holds⟩
    exact ⟨fun _ hlong => by omega, fun _ _ => hall, fun _ => hall⟩

section Loop

variable {σ : Type} {rt : Runtime} {call : RecvCall σ} {st : RecvState σ}
  {prior stream text : Bytes} {maxLen : Int}

/-- The call has no controller and a minimum, and a timeout is no error. -/
structure PlainCall (call : RecvCall σ) : Prop where
  controller : call.controller = none
  timeout : call.timeoutIsError = false
  positive : 1 ≤ call.sbMinCap
  minCap : IsSsize call.sbMinCap

theorem PlainCall.typed (h : PlainCall call) : TypedCall call := by
  have := h.positive
  refine ⟨by omega, h.minCap, fun controller hsome => ?_⟩
  rw [h.controller] at hsome
  contradiction

/-- The limit is the one of the call, and `text` keeps to it. -/
structure Bounded (prior stream text : Bytes) (maxLen : Int) (st : RecvState σ) : Prop where
  gathered : Gathered prior stream text st
  maxLen_eq : st.maxLen = maxLen
  within : 0 ≤ maxLen → (text.length : Int) ≤ maxLen

/-- The loop ends with what the limit lets through, and `finish` sees nothing beyond it. -/
theorem Bounded.finish (h : Bounded prior stream text maxLen st) (hcut : cut stream maxLen = text)
    (events : List SocketEvent) : StopsAtLimit prior stream maxLen (st.finish 0 events) := by
  have hwithin := h.within
  have hreceived := h.gathered.received
  have hmaxLen := h.maxLen_eq
  refine ⟨?_, by rw [hcut]; exact h.gathered.holds⟩
  unfold RecvState.finish
  exact if_neg (by omega)

theorem Bounded.close (h : Bounded prior stream text maxLen st) (fd : Int) :
    Bounded prior stream text maxLen (st.close fd) :=
  ⟨h.gathered.close fd, h.maxLen_eq, h.within⟩

/-- The loop condition fails at the limit. -/
theorem Bounded.cut_stopped (h : Bounded prior stream text maxLen st)
    (stopped : ¬ st.wantsMore = true) : cut stream maxLen = text := by
  have hguard := wantsMore_iff.not.mp stopped
  have hwithin := h.within
  rw [h.maxLen_eq, h.gathered.received] at hguard
  exact cut_full ⟨_, h.gathered.rest⟩ (by omega)

/-- The peer's data is used up in front of the limit. -/
theorem Bounded.used (h : Bounded prior stream text maxLen st) (more : st.wantsMore = true)
    (used : st.stream = []) : maxLen < 0 ∨ (stream.length : Int) < maxLen := by
  have hguard := wantsMore_iff.mp more
  have hall : text = stream := by rw [← h.gathered.rest, used, List.append_nil]
  rwa [h.maxLen_eq, h.gathered.received, hall] at hguard

theorem Bounded.cut_used (h : Bounded prior stream text maxLen st) (more : st.wantsMore = true)
    (used : st.stream = []) : cut stream maxLen = text := by
  rw [cut_short (h.used more used), ← h.gathered.rest, used, List.append_nil]

/-- The expansion in front of a `recv` keeps the text, and leaves room for what is to come. -/
def LeavesRoom (rt : Runtime) (sbMinCap : Int) (st : RecvState σ) : Prop :=
  ∀ room, reserveRecv rt st.builder sbMinCap = .ok room →
    room.len ≤ room.cap ∧ (st.stream ≠ [] → room.len < room.cap)

/-- Each `recv` of the run has the room for it. -/
def KeepsRoom (rt : Runtime) (call : RecvCall σ) : RecvState σ → List SocketEvent → Prop
  | _, [] => True
  | st, event :: events => st.wantsMore = true → event.Readable →
      LeavesRoom rt call.sbMinCap st ∧
        ∀ st', recvStep rt call event st = .ok (.again st') → KeepsRoom rt call st' events

/-- A `recv` at the end of the stream ends the loop. -/
theorem recvChunk_used {room : StringBuilder}
    (hroom : reserveRecv rt st.builder call.sbMinCap = .ok room) (used : st.stream = [])
    (size : Nat) : recvChunk rt call size st =
      .ok (.done 0 (RecvState.close { st with builder := room } call.fd)) := by
  have hnil (n : Nat) : st.stream.take n = [] := by rw [used, List.take_nil]
  unfold recvChunk recvInto
  rw [hroom, ok_bind]
  dsimp only
  rw [if_pos (hnil _)]
  rfl

/-- With room, a `recv` takes some of what is left. -/
theorem recvChunk_takes {room : StringBuilder} (plain : PlainCall call)
    (h : Bounded prior stream text maxLen st) (more : st.wantsMore = true)
    (hroom : reserveRecv rt st.builder call.sbMinCap = .ok room) (hleft : room.len < room.cap)
    (unused : st.stream ≠ []) (size : Nat) :
    ∃ st' chunk, recvChunk rt call size st = .ok (.again st') ∧
      Bounded prior stream (text ++ chunk) maxLen st' ∧
      st'.stream.length < st.stream.length := by
  have hguard := wantsMore_iff.mp more
  have hholds := h.gathered.holds
  have hroomHolds := (reserveRecv_spec hholds hroom).2.2.2 (Nat.le_of_lt hleft)
  obtain ⟨builder, chunk, hinto, hbuilder⟩ := recvInto_fits st.stream size hroom hroomHolds hleft
    h.gathered.received_le h.gathered.limit hguard
  obtain ⟨hchunk, hempty, hfull⟩ := recvInto_spec hholds h.gathered.received_le
    h.gathered.limit hguard hinto
  have hsome : chunk ≠ [] := fun hnil => unused (hempty hnil)
  have hpos := List.length_pos_iff.mpr hsome
  have hlonger : Bounded prior stream (text ++ chunk) maxLen
      { st with builder, received := st.received + chunk.length,
                stream := st.stream.drop chunk.length } := by
    refine ⟨h.gathered.extended hbuilder hchunk, h.maxLen_eq, fun hmax => ?_⟩
    have hlimit := (hfull hsome).2 (by rw [h.maxLen_eq]; exact hmax)
    rw [h.maxLen_eq, h.gathered.received] at hlimit
    rw [List.length_append]
    omega
  refine ⟨_, chunk, ?_, hlonger, ?_⟩
  · unfold recvChunk
    rw [hinto, ok_bind]
    dsimp only
    rw [if_neg hsome]
    unfold runController
    rw [plain.controller]
    rfl
  · have hle := hchunk.length_le
    dsimp only
    rw [List.length_drop]
    omega

/-- Without room, what is left of the stream is written behind the allocation. -/
theorem recvChunk_overruns {room : StringBuilder}
    (hroom : reserveRecv rt st.builder call.sbMinCap = .ok room)
    (hsize : room.data.length = room.cap) (full : room.cap ≤ room.len) (unused : st.stream ≠ [])
    (size : Nat) : recvChunk rt call size st = .error (.fault .outOfBounds) := by
  have hpos := recvRequest_pos room st.maxLen st.received
  have hsome : st.stream.take (min (size + 1) (recvRequest room st.maxLen st.received)) ≠ [] := by
    intro hnil
    rcases List.take_eq_nil_iff.mp hnil with hzero | hnil
    · omega
    · exact unused hnil
  have hlength := List.length_pos_iff.mpr hsome
  unfold recvChunk recvInto
  rw [hroom, ok_bind]
  dsimp only
  rw [if_neg hsome]
  unfold writeCells
  rw [if_neg (by omega)]
  rfl

/-- Where there is something to read, one step of the run is taken off. -/
theorem keepsRoom_readable {room : StringBuilder} {event : SocketEvent}
    {events : List SocketEvent} (more : st.wantsMore = true) (readable : event.Readable)
    (hroom : reserveRecv rt st.builder call.sbMinCap = .ok room) :
    KeepsRoom rt call st (event :: events) ↔
      (room.len ≤ room.cap ∧ (st.stream ≠ [] → room.len < room.cap)) ∧
        ∀ st', recvChunk rt call event.size st = .ok (.again st') →
          KeepsRoom rt call st' events := by
  rw [KeepsRoom, recvStep_readable readable]
  constructor
  · intro keeps
    obtain ⟨leaves, hnext⟩ := keeps more readable
    exact ⟨leaves room hroom, hnext⟩
  · rintro ⟨hleft, hnext⟩ _ _
    refine ⟨fun other hother => ?_, hnext⟩
    rw [hroom] at hother
    cases Except.ok.inj hother
    exact hleft

theorem keepsRoom_ended {event : SocketEvent} {events : List SocketEvent}
    (ended : st.wantsMore = true → ¬ event.Readable) : KeepsRoom rt call st (event :: events) := by
  rw [KeepsRoom]
  exact fun more readable => absurd readable (ended more)

/-- Where all of the peer's data is due, its text may not be lost. -/
theorem not_limitKept_of_overfull {res : RecvResult} (overfull : res.builder.cap < res.builder.len)
    (due : maxLen ≤ 0 ∨ (stream.length : Int) ≤ maxLen) : ¬ LimitKept prior stream maxLen res := by
  intro kept
  have hall : HoldsAll prior stream res := by
    by_cases hpos : 0 < maxLen
    · exact kept.accepts hpos (by omega)
    · exact kept.unlimited (by omega)
  have := hall.2.len_le
  omega

/-- At the end of the stream the text is kept if the last expansion did so. -/
theorem returnsKept_used {room : StringBuilder} (h : Bounded prior stream text maxLen st)
    (more : st.wantsMore = true) (used : st.stream = [])
    (hroom : reserveRecv rt st.builder call.sbMinCap = .ok room) (events : List SocketEvent) :
    ReturnsKept prior stream maxLen
        (.ok ((RecvState.close { st with builder := room } call.fd).finish 0 events)) ↔
      (maxLen < 0 ∨ (stream.length : Int) ≤ maxLen) ∧ room.len ≤ room.cap := by
  have hall := h.used more used
  rw [returnsKept_ok]
  by_cases hleft : room.len ≤ room.cap
  · have hholds := (reserveRecv_spec h.gathered.holds hroom).2.2.2 hleft
    have hmoved : Bounded prior stream text maxLen { st with builder := room } :=
      ⟨h.gathered.moved hholds, h.maxLen_eq, h.within⟩
    have hstops := (hmoved.close call.fd).finish (h.cut_used more used) events
    rw [hstops.kept_iff, and_iff_left hleft]
  · exact iff_of_false (not_limitKept_of_overfull (Nat.lt_of_not_le hleft) (by omega))
      (fun hboth => hleft hboth.2)

/-- A timeout and a hang-up end the loop, with the status of a success. -/
theorem recvStep_waited (rt : Runtime) (st : RecvState σ) (plain : PlainCall call)
    {event : SocketEvent} (wait : event.poll = .timedOut ∨ event.HungUp) :
    ¬ event.Readable ∧ ∃ st', recvStep rt call event st = .ok (.done 0 st') ∧
      (st' = st ∨ st' = st.close call.fd) := by
  rcases wait with htimeout | hhup
  · refine ⟨fun ⟨r, hpoll, _⟩ => by rw [htimeout] at hpoll; contradiction, st, ?_, .inl rfl⟩
    unfold recvStep
    rw [htimeout, plain.timeout]
    rfl
  · refine ⟨fun ⟨r, hpoll, hin, _⟩ => ?_, _, recvStep_hungUp hhup, .inr rfl⟩
    obtain ⟨other, hother, hnone, -⟩ := hhup
    rw [hpoll] at hother
    cases PollOutcome.ready.inj hother
    rw [hin] at hnone
    contradiction

/-- By the events. Each one that leaves the loop running takes a byte at least, so that the
stream is used up before they are. -/
theorem recvLoop_limit_iff (plain : PlainCall call) (halloc : rt.AllocSucceeds)
    {events : List SocketEvent} (h : Bounded prior stream text maxLen st)
    (truthful : Truthful rt call st events) (enough : st.stream.length < events.length) :
    ReturnsKept prior stream maxLen (recvLoop rt call events st) ↔
      (maxLen < 0 ∨ (stream.length : Int) ≤ maxLen) ∧ KeepsRoom rt call st events := by
  induction events generalizing st text with
  | nil => exact absurd enough (Nat.not_lt_zero _)
  | cons event events ih =>
    obtain ⟨htruth, hnext⟩ := truthful
    by_cases more : st.wantsMore = true
    · rcases htruth with readable | ⟨used, wait⟩
      · obtain ⟨room, hroom⟩ : ∃ room, reserveRecv rt st.builder call.sbMinCap = .ok room :=
          (reserveRecv_expands h.gathered.holds plain.typed.nonneg plain.minCap).total halloc
        obtain ⟨-, hsize, -, -⟩ := reserveRecv_spec h.gathered.holds hroom
        have hstep : recvStep rt call event st = recvChunk rt call event.size st :=
          recvStep_readable readable
        rw [keepsRoom_readable more readable hroom]
        by_cases used : st.stream = []
        · rw [recvChunk_used hroom used] at hstep ⊢
          rw [recvLoop_done more hstep]
          refine (returnsKept_used h more used hroom events).trans (and_congr_right fun _ => ?_)
          refine ⟨fun hle => ⟨⟨hle, fun unused => absurd used unused⟩, fun st' hst' => ?_⟩,
            fun keeps => keeps.1.1⟩
          cases Except.ok.inj hst'
        · by_cases hleft : room.len < room.cap
          · obtain ⟨st', chunk, hok, hbounded, hless⟩ :=
              recvChunk_takes plain h more hroom hleft used event.size
            rw [hok] at hstep ⊢
            rw [List.length_cons] at enough
            rw [recvLoop_again more hstep, ih hbounded (hnext st' hstep) (by omega)]
            refine and_congr_right fun _ => ?_
            refine ⟨fun keeps => ⟨⟨Nat.le_of_lt hleft, fun _ => hleft⟩, fun other hother => ?_⟩,
              fun keeps => keeps.2 st' rfl⟩
            cases Except.ok.inj hother
            exact keeps
          · rw [recvChunk_overruns hroom hsize (Nat.le_of_not_lt hleft) used] at hstep
            rw [recvLoop_error more hstep]
            refine iff_of_false (fun ⟨res, hok, _⟩ => nomatch hok) (fun hboth => ?_)
            exact hleft (hboth.2.1.2 used)
      · obtain ⟨ended, st', hstep, hsame⟩ := recvStep_waited rt st plain wait
        have hbounded : Bounded prior stream text maxLen st' := by
          rcases hsame with rfl | rfl
          · exact h
          · exact h.close call.fd
        rw [recvLoop_done more hstep, and_iff_left (keepsRoom_ended fun _ => ended)]
        exact returnsKept_ok.trans (hbounded.finish (h.cut_used more used) events).kept_iff
    · rw [recvLoop_stopped more, and_iff_left (keepsRoom_ended fun other => absurd other more)]
      exact returnsKept_ok.trans (h.finish (h.cut_stopped more) _).kept_iff

/-- A builder with more text than memory is expanded in no iteration. -/
theorem reserveRecv_overfull {builder : StringBuilder} (overfull : builder.cap < builder.len)
    (hlen : builder.len < 2 ^ 62) (plain : PlainCall call) :
    reserveRecv rt builder call.sbMinCap = .ok builder := by
  have hpositive := plain.positive
  have hminCap := plain.minCap.2
  unfold reserveRecv capLeft toSize
  exact if_neg (by omega)

/-- The first expansion has lost some of the text. -/
theorem recvLoop_overfull (plain : PlainCall call) (overfull : st.builder.cap < st.builder.len)
    (hlen : st.builder.len < 2 ^ 62) (hsize : st.builder.data.length = st.builder.cap)
    (fresh : st.received = 0) {event : SocketEvent} {events : List SocketEvent}
    (truthful : Truthful rt call st (event :: events)) :
    ¬ ReturnsKept prior st.stream st.maxLen (recvLoop rt call (event :: events) st) := by
  by_cases more : st.wantsMore = true
  · have hguard := wantsMore_iff.mp more
    have hlost (st' : RecvState σ) (hsame : st'.builder = st.builder) (used : st.stream = []) :
        ¬ LimitKept prior st.stream st.maxLen (st'.finish 0 events) := by
      refine not_limitKept_of_overfull (show st'.builder.cap < st'.builder.len from ?_) ?_
      · rwa [hsame]
      · rw [used, List.length_nil]
        omega
    obtain ⟨readable | ⟨used, wait⟩, -⟩ := truthful
    · have hroom : reserveRecv rt st.builder call.sbMinCap = .ok st.builder :=
        reserveRecv_overfull overfull hlen plain
      have hstep : recvStep rt call event st = recvChunk rt call event.size st :=
        recvStep_readable readable
      by_cases used : st.stream = []
      · rw [recvChunk_used hroom used] at hstep
        rw [recvLoop_done more hstep, returnsKept_ok]
        exact hlost _ rfl used
      · rw [recvChunk_overruns hroom hsize (Nat.le_of_lt overfull) used] at hstep
        rw [recvLoop_error more hstep]
        exact fun ⟨res, hok, _⟩ => nomatch hok
    · obtain ⟨-, st', hstep, hsame⟩ := recvStep_waited rt st plain wait
      rw [recvLoop_done more hstep, returnsKept_ok]
      rcases hsame with rfl | rfl
      · exact hlost _ rfl used
      · exact hlost _ rfl used
  · have hguard := wantsMore_iff.not.mp more
    rw [recvLoop_stopped more, returnsKept_ok]
    exact not_limitKept_of_overfull overfull (.inl (by omega))

end Loop

section Call

variable {σ : Type} {rt : Runtime} {fd maxLen sbMinCap : Int} {builder : StringBuilder}
  {prior stream : Bytes} {state : σ} {events : List SocketEvent}

/-- None of the expansions in a call loses what was received, or leaves no room for the rest. -/
def RoomForAll (rt : Runtime) (call : RecvCall σ) (start : RecvState σ)
    (events : List SocketEvent) : Prop :=
  ∀ entry, EntersLoop rt call start entry →
    entry.builder.len ≤ entry.builder.cap ∧ KeepsRoom rt call entry events

theorem keepsRoom_of_small {call : RecvCall σ} {st : RecvState σ} {text : Bytes}
    (plain : PlainCall call) (h : Gathered prior stream text st)
    (small : (prior.length + stream.length + call.sbMinCap : Int) ≤ maxCapacity) :
    KeepsRoom rt call st events := by
  induction events generalizing st text with
  | nil => trivial
  | cons event events ih =>
    have ample : Ample rt st.builder call.sbMinCap := h.ample plain.typed small
    rw [KeepsRoom]
    refine fun more _ => ⟨fun room hroom => ?_, fun st' hstep => ?_⟩
    · have hcap := (reserveRecv_holds h.holds plain.typed.nonneg plain.minCap ample hroom).2.1
      have := plain.positive
      omega
    · obtain ⟨chunk, hnext⟩ := recvStep_gathered plain.typed ample h more hstep
      exact ih hnext

/-- There is room as long as the stream fits into the largest capacity. -/
theorem roomForAll_of_small {call : RecvCall σ} {start : RecvState σ} (plain : PlainCall call)
    (h : Gathered prior stream [] start)
    (small : (prior.length + stream.length + call.sbMinCap : Int) ≤ maxCapacity) :
    RoomForAll rt call start events := by
  intro entry enters
  have hentry := entersLoop_gathered plain.typed (ampleCall_of_small plain.typed h small).first h
    enters
  exact ⟨hentry.holds.len_le, keepsRoom_of_small plain hentry small⟩

/-- Without a controller the loop is entered behind the first expansion. -/
theorem PlainCall.entersLoop_iff {call : RecvCall σ} (plain : PlainCall call)
    {start entry : RecvState σ} {room : StringBuilder}
    (hgrow : growFor rt start.builder (toSize call.sbMinCap) = .ok room) :
    EntersLoop rt call start entry ↔ entry = { start with builder := room } := by
  have hnone (st : RecvState σ) : runController call st = .ok (.again st) := by
    unfold runController
    rw [plain.controller]
    rfl
  constructor
  · rintro ⟨other, hother, hentry⟩
    rw [hgrow] at hother
    cases Except.ok.inj hother
    rw [hnone] at hentry
    exact (RecvNext.again.inj (Except.ok.inj hentry)).symm
  · rintro rfl
    exact ⟨room, hgrow, hnone _⟩

theorem recvAllData_plain {room : StringBuilder} (positive : 1 ≤ sbMinCap)
    (hgrow : growFor rt builder (toSize sbMinCap) = .ok room) :
    recvAllData rt fd builder maxLen false sbMinCap none state stream events =
      recvLoop rt (recvCall fd builder false sbMinCap none) events
        (recvStart room maxLen state stream) := by
  unfold recvAllData recvCall
  rw [if_neg (by omega)]
  dsimp only
  rw [hgrow, ok_bind, growFor_len hgrow]
  rfl

/-- The limit is kept by the calls that it says nothing to, as far as there is room. -/
theorem size_limit_iff (halloc : rt.AllocSucceeds) (holds : builder.Holds prior)
    (limit : IsSsize maxLen) (positive : 1 ≤ sbMinCap) (minCap : IsSsize sbMinCap)
    (truthful : ∀ entry, EntersLoop rt (recvCall fd builder false sbMinCap none)
      (recvStart builder maxLen state stream) entry →
        Truthful rt (recvCall fd builder false sbMinCap none) entry events)
    (enough : stream.length < events.length) :
    ReturnsKept prior stream maxLen
        (recvAllData rt fd builder maxLen false sbMinCap none state stream events) ↔
      (maxLen < 0 ∨ (stream.length : Int) ≤ maxLen) ∧
        RoomForAll rt (recvCall fd builder false sbMinCap none)
          (recvStart builder maxLen state stream) events := by
  have hmin : (recvCall fd builder false sbMinCap (none : Option (RecvController σ))).sbMinCap =
      sbMinCap := if_neg (by omega)
  have plain : PlainCall (recvCall fd builder false sbMinCap (none : Option (RecvController σ))) :=
    ⟨rfl, rfl, by rw [hmin]; exact positive, by rw [hmin]; exact minCap⟩
  have hexpands : Expands rt (growFor rt builder (toSize sbMinCap)) := growFor_expands _
  obtain ⟨room, hgrow⟩ := hexpands.total halloc
  have enters (entry : RecvState σ) :
      EntersLoop rt (recvCall fd builder false sbMinCap none)
        (recvStart builder maxLen state stream) entry ↔
      entry = recvStart room maxLen state stream :=
    plain.entersLoop_iff (by rw [hmin]; exact hgrow)
  have hroom : RoomForAll rt (recvCall fd builder false sbMinCap none)
        (recvStart builder maxLen state stream) events ↔
      room.len ≤ room.cap ∧ KeepsRoom rt (recvCall fd builder false sbMinCap none)
        (recvStart room maxLen state stream) events := by
    refine ⟨fun hall => hall _ ((enters _).mpr rfl), fun hall entry hentry => ?_⟩
    rw [(enters entry).mp hentry]
    exact hall
  have htruth := truthful _ ((enters _).mpr rfl)
  obtain ⟨hlen, hsize, -, hholds⟩ := holds.grow_spec hgrow
  rw [recvAllData_plain positive hgrow, hroom]
  by_cases hleft : room.len ≤ room.cap
  · rw [and_iff_right hleft]
    exact recvLoop_limit_iff plain halloc
      ⟨recvStart_gathered (hholds hleft) limit, rfl, fun hpos => hpos⟩ htruth enough
  · refine iff_of_false ?_ (fun hboth => hleft hboth.2.1)
    have hbound := holds.len_le
    have hcap := holds.cap_lt
    cases events with
    | nil => exact absurd enough (Nat.not_lt_zero _)
    | cons event events =>
      exact recvLoop_overfull plain (Nat.lt_of_not_le hleft)
        (show room.len < 2 ^ 62 by rw [hlen, ← holds.len_eq]; omega) hsize rfl htruth

end Call

section TwoBytes

/-- Two bytes and a close, with a limit. -/
def receiveTwo (maxLen : Int) : Except Stop RecvResult :=
  recvAllData .unlimited 3 ⟨0, 0, []⟩ maxLen false 1 none () [7, 8]
    (List.replicate 3 ⟨.ready (.only true false), 9⟩)

theorem truthful_of_readable {rt : Runtime} {call : RecvCall Unit} {events : List SocketEvent}
    (readable : ∀ event ∈ events, event.Readable) (st : RecvState Unit) :
    Truthful rt call st events := by
  induction events generalizing st with
  | nil => trivial
  | cons event events ih =>
    rw [List.forall_mem_cons] at readable
    exact ⟨.inl readable.1, fun st' _ => ih readable.2 st'⟩

/-- With a limit of two, both bytes are received. -/
theorem size_limit_iff_two : ReturnsKept [] [7, 8] 2 (receiveTwo 2) := by
  have hcall : PlainCall (recvCall 3 ⟨0, 0, []⟩ false 1 (none : Option (RecvController Unit))) :=
    ⟨rfl, rfl, by decide, by decide⟩
  refine (size_limit_iff Runtime.unlimited_allocSucceeds .empty (by decide) (by decide)
    (by decide) (fun entry _ => truthful_of_readable (fun event hmem => ?_) entry)
    (by decide)).mpr ⟨.inr (by decide),
      roomForAll_of_small hcall (recvStart_gathered .empty (by decide)) (by decide)⟩
  obtain rfl := List.eq_of_mem_replicate hmem
  exact ⟨_, rfl, rfl, rfl, rfl⟩

/-- With a limit of one the second byte is cut off, and with a limit of zero both are. The
status is that of a success. -/
theorem size_limit_truncates : (∃ res, receiveTwo 1 = .ok res ∧ ¬ LimitKept [] [7, 8] 1 res) ∧
    ∃ res, receiveTwo 0 = .ok res ∧ ¬ LimitKept [] [7, 8] 0 res := by
  constructor
  · have hrun : (receiveTwo 1).toOption.map (·.status) = some 0 := by decide +kernel
    cases hres : receiveTwo 1 with
    | error stop =>
      rw [hres] at hrun
      contradiction
    | ok res =>
      rw [hres] at hrun
      exact ⟨res, rfl, fun kept => kept.rejects (by decide) (by decide) (Option.some.inj hrun)⟩
  · have hrun : (receiveTwo 0).toOption.map (·.builder.len) = some 0 := by decide +kernel
    cases hres : receiveTwo 0 with
    | error stop =>
      rw [hres] at hrun
      contradiction
    | ok res =>
      rw [hres] at hrun
      refine ⟨res, rfl, fun kept => ?_⟩
      have hlen := (kept.unlimited (by decide)).2.len_eq
      have hzero : res.builder.len = 0 := Option.some.inj hrun
      rw [hzero] at hlen
      contradiction

end TwoBytes

end Net77
