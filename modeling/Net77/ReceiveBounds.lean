import Net77.Base.Transition
import Net77.Receive

/-! What `recvAllData` asks `recv` for, and what it leaves in the builder, with any
controller. -/
namespace Net77

open Net77.Base

section Expansion

variable {rt : Runtime} {builder room : StringBuilder} {text : Bytes} {sbMinCap : Int}

/-- What stops an expansion is a refused allocation, and not the assertion in it. -/
def Expands (rt : Runtime) (result : Except Stop StringBuilder) : Prop :=
  ∀ stop, result = .error stop → ∃ size ≤ maxCapacity, rt.malloc size = false

/-- The test in front of a `recv`. -/
def NeedsRoom (builder : StringBuilder) (sbMinCap : Int) : Prop :=
  capLeft builder < toSize sbMinCap

/-- What the expansion behind this test asks for. -/
def askedCapacity (builder : StringBuilder) (sbMinCap : Int) : Nat :=
  toSize (builder.cap + (sbMinCap + builder.len - builder.cap))

/-- The expansion gives what it is asked for. -/
def Ample (rt : Runtime) (builder : StringBuilder) (sbMinCap : Int) : Prop :=
  NeedsRoom builder sbMinCap →
    askedCapacity builder sbMinCap ≤ newCapacity rt (askedCapacity builder sbMinCap)

theorem expand_expands {n : Nat} (h : builder.cap < n) :
    Expands rt (stringBuilderExpandBuf rt builder n) := by
  intro stop hstop
  unfold stringBuilderExpandBuf at hstop
  rw [if_neg (Nat.not_le.mpr h)] at hstop
  dsimp only at hstop
  split at hstop
  · contradiction
  · rename_i refused
    exact ⟨_, (newCapacity_bounds rt n).2, Bool.eq_false_iff.mpr refused⟩

/-- With memory there is nothing left to stop it. -/
theorem Expands.total {result : Except Stop StringBuilder} (h : Expands rt result)
    (halloc : rt.AllocSucceeds) : ∃ room, result = .ok room := by
  cases result with
  | ok room => exact ⟨room, rfl⟩
  | error stop =>
    obtain ⟨size, hsize, refused⟩ := h stop rfl
    have hmax : maxCapacity = 2 ^ 30 := rfl
    have hgranted := halloc size (by omega)
    rw [hgranted] at refused
    contradiction

theorem growFor_expands (n : Nat) : Expands rt (growFor rt builder n) := by
  unfold growFor
  split
  · rename_i hcap
    exact expand_expands hcap
  · exact fun stop hstop => nomatch hstop

theorem expand_cap {n : Nat} (hok : stringBuilderExpandBuf rt builder n = .ok room) :
    room.cap = newCapacity rt n := by
  unfold stringBuilderExpandBuf at hok
  split at hok
  · contradiction
  · dsimp only at hok
    generalize newCapacity rt n = size at hok
    split at hok
    · cases Except.ok.inj hok
      rfl
    · contradiction

/-- An expansion that gives what it is asked for keeps the text. -/
theorem expand_holds {n : Nat} (h : builder.Holds text) (hlen : builder.len ≤ n)
    (ample : n ≤ newCapacity rt n) (hok : stringBuilderExpandBuf rt builder n = .ok room) :
    room.Holds text ∧ n ≤ room.cap := by
  obtain ⟨hroom, -, -, hholds⟩ := h.expand_spec hok
  have hcap := expand_cap hok
  have := h.len_eq
  exact ⟨hholds (by omega), by omega⟩

theorem growFor_holds {n : Nat} (h : builder.Holds text)
    (ample : builder.cap < n → n ≤ newCapacity rt n) (hok : growFor rt builder n = .ok room) :
    room.Holds text := by
  unfold growFor at hok
  split at hok
  · rename_i hcap
    have := h.len_le
    exact (expand_holds h (by omega) (ample hcap) hok).1
  · cases Except.ok.inj hok
    exact h

theorem capLeft_eq (h : builder.Holds text) : capLeft builder = builder.cap - builder.len := by
  have := h.len_le
  have := h.cap_lt
  unfold capLeft toSize
  omega

theorem askedCapacity_eq (h : builder.Holds text) (nonneg : 0 ≤ sbMinCap)
    (minCap : IsSsize sbMinCap) :
    (askedCapacity builder sbMinCap : Int) = builder.len + sbMinCap := by
  have := h.len_le
  have := h.cap_lt
  have := minCap.2
  unfold askedCapacity toSize
  omega

/-- More than the capacity is asked for. -/
theorem cap_lt_askedCapacity (h : builder.Holds text) (nonneg : 0 ≤ sbMinCap)
    (minCap : IsSsize sbMinCap) (needs : NeedsRoom builder sbMinCap) :
    builder.cap < askedCapacity builder sbMinCap := by
  have hasked := askedCapacity_eq h nonneg minCap
  have := h.len_le
  have := minCap.2
  unfold NeedsRoom at needs
  rw [capLeft_eq h] at needs
  unfold toSize at needs
  omega

theorem reserveRecv_expands (h : builder.Holds text) (nonneg : 0 ≤ sbMinCap)
    (minCap : IsSsize sbMinCap) : Expands rt (reserveRecv rt builder sbMinCap) := by
  unfold reserveRecv
  split
  · rename_i needs
    exact expand_expands (cap_lt_askedCapacity h nonneg minCap needs)
  · exact fun stop hstop => nomatch hstop

/-- In front of a `recv` there are `sbMinCap` bytes of room, and the builder is as it was
where none are asked for. -/
theorem reserveRecv_holds (h : builder.Holds text) (nonneg : 0 ≤ sbMinCap)
    (minCap : IsSsize sbMinCap) (ample : Ample rt builder sbMinCap)
    (hok : reserveRecv rt builder sbMinCap = .ok room) :
    room.Holds text ∧ room.len + sbMinCap ≤ room.cap ∧ (sbMinCap = 0 → room = builder) := by
  have hlen := h.len_le
  unfold reserveRecv at hok
  split at hok
  · rename_i needs
    have hasked := askedCapacity_eq h nonneg minCap
    obtain ⟨hholds, hcap⟩ := expand_holds h (by omega) (ample needs) hok
    have hroom := hholds.len_eq.trans h.len_eq.symm
    refine ⟨hholds, by omega, fun hzero => ?_⟩
    have hcap := cap_lt_askedCapacity h nonneg minCap needs
    unfold toSize at needs
    omega
  · rename_i enough
    cases Except.ok.inj hok
    have := minCap.2
    rw [capLeft_eq h] at enough
    unfold toSize at enough
    exact ⟨h, by omega, fun _ => rfl⟩

end Expansion

section Request

variable {σ : Type} {rt : Runtime} {st : RecvState σ} {text : Bytes} {sbMinCap : Int}

/-- A `recv` in this state asks for some bytes, and not for more than there is room for. -/
def RecvFits (rt : Runtime) (sbMinCap : Int) (st : RecvState σ) : Prop :=
  ∀ room, reserveRecv rt st.builder sbMinCap = .ok room →
    1 ≤ recvRequest room st.maxLen st.received ∧
      recvRequest room st.maxLen st.received ≤ room.cap - room.len

/-- Without a minimum there is no expansion, and a full builder stays full. -/
theorem recvFits_iff (h : st.builder.Holds text) (nonneg : 0 ≤ sbMinCap)
    (minCap : IsSsize sbMinCap) (ample : Ample rt st.builder sbMinCap)
    (hreceived : st.received ≤ text.length) (hmax : IsSsize st.maxLen)
    (hguard : st.maxLen < 0 ∨ st.received < st.maxLen) :
    RecvFits rt sbMinCap st ↔ 1 ≤ sbMinCap ∨ st.builder.len < st.builder.cap := by
  constructor
  · intro hfits
    by_cases hzero : sbMinCap = 0
    · have hkeep : reserveRecv rt st.builder sbMinCap = .ok st.builder := by
        unfold reserveRecv
        exact if_neg (by rw [hzero]; exact Nat.not_lt_zero _)
      obtain ⟨hpos, hle⟩ := hfits _ hkeep
      exact .inr (by omega)
    · exact .inl (by omega)
  · intro hroom room hok
    obtain ⟨hholds, hcap, hsame⟩ := reserveRecv_holds h nonneg minCap ample hok
    have hless : room.len < room.cap := by
      rcases hroom with hone | hleft
      · omega
      · by_cases hzero : sbMinCap = 0
        · rwa [hsame hzero]
        · omega
    have hle := recvRequest_le hless hholds.cap_lt hmax
      (by rw [hholds.len_eq]; exact hreceived) hguard
    exact ⟨recvRequest_pos _ _ _, hle.1⟩

end Request

section Loop

variable {σ : Type} {rt : Runtime} {call : RecvCall σ} {st st' : RecvState σ}
  {prior stream text : Bytes}

/-- `max_len` is an `ssize_t` that the controller may write. -/
def SsizeController (controller : RecvController σ) : Prop :=
  ∀ buf cap n maxLen state maxLen' action state', IsSsize maxLen →
    controller buf cap n maxLen state = .ok (maxLen', action, state') → IsSsize maxLen'

/-- The call has an `sb_min_cap` behind the default, and a controller that writes `ssize_t`s. -/
structure TypedCall (call : RecvCall σ) : Prop where
  nonneg : 0 ≤ call.sbMinCap
  minCap : IsSsize call.sbMinCap
  controller : ∀ controller, call.controller = some controller → SsizeController controller

/-- The builder has what it held before, and `text` of the stream behind it. -/
structure Gathered (prior stream text : Bytes) (st : RecvState σ) : Prop where
  holds : st.builder.Holds (prior ++ text)
  received : st.received = text.length
  rest : text ++ st.stream = stream
  limit : IsSsize st.maxLen

def RecvNext.state : RecvNext σ → RecvState σ
  | .again st => st
  | .done _ st => st

theorem Gathered.received_le (h : Gathered prior stream text st) :
    st.received ≤ (prior ++ text).length := by
  rw [h.received, List.length_append]
  omega

theorem Gathered.close (h : Gathered prior stream text st) (fd : Int) :
    Gathered prior stream text (st.close fd) :=
  ⟨h.holds, h.received, h.rest, h.limit⟩

/-- The same text in another allocation. -/
theorem Gathered.moved (h : Gathered prior stream text st) {room : StringBuilder}
    (hholds : room.Holds (prior ++ text)) :
    Gathered prior stream text { st with builder := room } :=
  ⟨hholds, h.received, h.rest, h.limit⟩

/-- The next bytes of the stream come behind the text. -/
theorem Gathered.extended (h : Gathered prior stream text st) {builder : StringBuilder}
    {chunk : Bytes} (hholds : builder.Holds (prior ++ text ++ chunk))
    (hchunk : chunk <+: st.stream) :
    Gathered prior stream (text ++ chunk)
      { st with builder, received := st.received + chunk.length,
                stream := st.stream.drop chunk.length } := by
  obtain ⟨tail, htail⟩ := hchunk
  refine ⟨?_, ?_, ?_, h.limit⟩
  · rw [← List.append_assoc]
    exact hholds
  · rw [List.length_append, ← h.received]
  · dsimp only
    rw [← htail, List.drop_left, List.append_assoc, htail, h.rest]

/-- A controller sees the builder and the limit, and writes the limit only. -/
theorem runController_gathered (typed : TypedCall call) (h : Gathered prior stream text st)
    {next : RecvNext σ} (hok : runController call st = .ok next) :
    Gathered prior stream text next.state := by
  unfold runController at hok
  split at hok
  · cases Except.ok.inj hok
    exact h
  · rename_i controller hcontroller
    obtain ⟨buf, -, hok⟩ := bind_eq_ok.mp hok
    obtain ⟨⟨maxLen, action, state⟩, hanswer, hok⟩ := bind_eq_ok.mp hok
    have hlimit := typed.controller controller hcontroller _ _ _ _ _ _ _ _ h.limit hanswer
    dsimp only at hok
    split at hok
    all_goals
      cases Except.ok.inj hok
      exact ⟨h.holds, h.received, h.rest, hlimit⟩

theorem runController_keeps {next : RecvNext σ} (hok : runController call st = .ok next) :
    next.state.builder = st.builder ∧ next.state.stream = st.stream ∧
      next.state.closedSock = st.closedSock := by
  unfold runController at hok
  split at hok
  · cases Except.ok.inj hok
    exact ⟨rfl, rfl, rfl⟩
  · obtain ⟨buf, -, hok⟩ := bind_eq_ok.mp hok
    obtain ⟨⟨maxLen, action, state⟩, -, hok⟩ := bind_eq_ok.mp hok
    dsimp only at hok
    split at hok
    all_goals
      cases Except.ok.inj hok
      exact ⟨rfl, rfl, rfl⟩

/-- A transfer that brings nothing leaves the expanded builder. -/
theorem recvInto_nothing {builder : StringBuilder} {maxLen sbMinCap : Int} {received size : Nat}
    {room : StringBuilder}
    (hok : recvInto rt st.builder sbMinCap maxLen received stream size = .ok (builder, []))
    (hroom : reserveRecv rt st.builder sbMinCap = .ok room) : room = builder := by
  unfold recvInto at hok
  rw [hroom, ok_bind] at hok
  dsimp only at hok
  split at hok
  · exact (Prod.mk.inj (Except.ok.inj hok)).1
  · rename_i hne
    obtain ⟨cells, -, hok⟩ := bind_eq_ok.mp hok
    exact absurd (Prod.mk.inj (Except.ok.inj hok)).2 hne

/-- What an iteration can come to. -/
inductive StepOutcome (rt : Runtime) (call : RecvCall σ) (event : SocketEvent)
    (prior stream text : Bytes) (st : RecvState σ) : RecvNext σ → Prop where
  | waited (ec : Int) : StepOutcome rt call event prior stream text st (.done ec st)
  | failed (gone : RecvState σ) (how : gone = st.close call.fd ∨ gone = st.reportInvalid call.fd) :
      StepOutcome rt call event prior stream text st (.done (-1) gone)
  | hungUp (hup : event.HungUp) :
      StepOutcome rt call event prior stream text st (.done 0 (st.close call.fd))
  | ended (room : StringBuilder) (reserve : reserveRecv rt st.builder call.sbMinCap = .ok room)
      (used : st.stream = []) :
      StepOutcome rt call event prior stream text st
        (.done 0 (RecvState.close { st with builder := room } call.fd))
  | received (chunk : Bytes) (next : RecvNext σ) (some : chunk ≠ [])
      (gathered : Gathered prior stream (text ++ chunk) next.state)
      (kept : next.state.closedSock = st.closedSock) :
      StepOutcome rt call event prior stream text st next

theorem recvChunk_outcome (typed : TypedCall call) (h : Gathered prior stream text st)
    (more : st.wantsMore = true) {event : SocketEvent} {next : RecvNext σ}
    (hok : recvChunk rt call event.size st = .ok next) :
    StepOutcome rt call event prior stream text st next := by
  unfold recvChunk at hok
  obtain ⟨⟨builder, chunk⟩, hinto, hok⟩ := bind_eq_ok.mp hok
  obtain ⟨hchunk, hempty, hfull⟩ := recvInto_spec h.holds h.received_le h.limit
    (wantsMore_iff.mp more) hinto
  dsimp only at hok
  split at hok
  · rename_i hnil
    subst hnil
    obtain ⟨room, hroom, -⟩ := bind_eq_ok.mp hinto
    obtain rfl := recvInto_nothing hinto hroom
    have hrest : st.stream.drop ([] : Bytes).length = st.stream := List.drop_zero
    rw [hrest] at hok
    cases Except.ok.inj hok
    exact .ended room hroom (hempty rfl)
  · rename_i hne
    have hlonger := h.extended (hfull hne).1 hchunk
    have hkept := (runController_keeps hok).2.2
    exact .received chunk next hne (runController_gathered typed hlonger hok) hkept

theorem recvStep_outcome (typed : TypedCall call) (h : Gathered prior stream text st)
    (more : st.wantsMore = true) {event : SocketEvent} {next : RecvNext σ}
    (hok : recvStep rt call event st = .ok next) :
    StepOutcome rt call event prior stream text st next := by
  unfold recvStep at hok
  split at hok
  · cases Except.ok.inj hok
    exact .waited 1
  · cases Except.ok.inj hok
    exact .waited _
  · rename_i r hpoll
    split at hok
    · cases Except.ok.inj hok
      exact .failed _ (.inl rfl)
    · rename_i herr
      split at hok
      · rename_i hhup
        rw [Bool.and_eq_true, Bool.not_eq_true'] at hhup
        cases Except.ok.inj hok
        exact .hungUp ⟨r, hpoll, hhup.2, by simpa using herr, hhup.1⟩
      · split at hok
        · cases Except.ok.inj hok
          exact .failed _ (.inr rfl)
        · split at hok
          · contradiction
          · exact recvChunk_outcome typed h more hok

/-- What was received comes behind what the builder holds, also at the end of the stream. -/
theorem recvStep_gathered (typed : TypedCall call) (ample : Ample rt st.builder call.sbMinCap)
    (h : Gathered prior stream text st) (more : st.wantsMore = true) {event : SocketEvent}
    {next : RecvNext σ} (hok : recvStep rt call event st = .ok next) :
    ∃ chunk, Gathered prior stream (text ++ chunk) next.state := by
  have hsame : text ++ [] = text := List.append_nil text
  cases recvStep_outcome typed h more hok with
  | waited ec => exact ⟨[], by rw [hsame]; exact h⟩
  | failed gone how =>
    refine ⟨[], ?_⟩
    rw [hsame]
    rcases how with rfl | rfl
    · exact h.close call.fd
    · exact ⟨h.holds, h.received, h.rest, h.limit⟩
  | hungUp hup => exact ⟨[], by rw [hsame]; exact h.close call.fd⟩
  | ended room reserve used =>
    have hroom := (reserveRecv_holds h.holds typed.nonneg typed.minCap ample reserve).1
    exact ⟨[], by rw [hsame]; exact (h.moved hroom).close call.fd⟩
  | received chunk next some gathered kept => exact ⟨chunk, gathered⟩

/-- The loop of the call, with the events for its steps. -/
def recvSystem (rt : Runtime) (call : RecvCall σ) (entry : RecvState σ) :
    System (RecvState σ) SocketEvent where
  init := entry
  step st event :=
    if st.wantsMore then
      match recvStep rt call event st with
      | .ok (.again st') => some st'
      | _ => none
    else none

theorem recvSystem_step {entry : RecvState σ} {event : SocketEvent} :
    (recvSystem rt call entry).step st event = some st' ↔
      st.wantsMore = true ∧ recvStep rt call event st = .ok (.again st') := by
  unfold recvSystem
  dsimp only
  constructor
  · intro hstep
    split at hstep
    · rename_i more
      split at hstep
      · rename_i next hok
        cases Option.some.inj hstep
        exact ⟨more, hok⟩
      · contradiction
    · contradiction
  · rintro ⟨more, hok⟩
    rw [if_pos more, hok]

/-- The call gets from `start` to the first test of the loop condition. -/
def EntersLoop (rt : Runtime) (call : RecvCall σ) (start entry : RecvState σ) : Prop :=
  ∃ room, growFor rt start.builder (toSize call.sbMinCap) = .ok room ∧
    runController call { start with builder := room } = .ok (.again entry)

/-- The loop condition is tested in this state, with some schedule of the events. -/
def LoopReaches (rt : Runtime) (call : RecvCall σ) (start st : RecvState σ) : Prop :=
  ∃ entry, EntersLoop rt call start entry ∧
    Reachable (recvSystem rt call entry) (fun _ _ => true) st

/-- Every expansion that the call may come to gives what it is asked for. -/
structure AmpleCall (rt : Runtime) (call : RecvCall σ) (start : RecvState σ) : Prop where
  first : start.builder.cap < toSize call.sbMinCap →
    toSize call.sbMinCap ≤ newCapacity rt (toSize call.sbMinCap)
  later : ∀ st, LoopReaches rt call start st → Ample rt st.builder call.sbMinCap

theorem entersLoop_gathered {start entry : RecvState σ} (typed : TypedCall call)
    (first : start.builder.cap < toSize call.sbMinCap →
      toSize call.sbMinCap ≤ newCapacity rt (toSize call.sbMinCap))
    (h : Gathered prior stream [] start)
    (enters : EntersLoop rt call start entry) : Gathered prior stream [] entry := by
  obtain ⟨room, hgrow, hcontroller⟩ := enters
  exact runController_gathered typed (h.moved (growFor_holds h.holds first hgrow)) hcontroller

/-- The invariant of the loop. -/
theorem reachable_gathered {entry : RecvState σ} (typed : TypedCall call)
    (ample : ∀ st text, Reachable (recvSystem rt call entry) (fun _ _ => true) st →
      Gathered prior stream text st → Ample rt st.builder call.sbMinCap)
    (h : Gathered prior stream [] entry)
    (reached : Reachable (recvSystem rt call entry) (fun _ _ => true) st) :
    ∃ text, Gathered prior stream text st := by
  induction reached with
  | init => exact ⟨[], h⟩
  | step hbefore _ hstep ih =>
    obtain ⟨text, hgathered⟩ := ih
    obtain ⟨more, hok⟩ := recvSystem_step.mp hstep
    obtain ⟨chunk, hnext⟩ := recvStep_gathered typed (ample _ text hbefore hgathered) hgathered
      more hok
    exact ⟨_, hnext⟩

theorem loopReaches_gathered {start : RecvState σ} (typed : TypedCall call)
    (ample : AmpleCall rt call start) (h : Gathered prior stream [] start)
    (reaches : LoopReaches rt call start st) : ∃ text, Gathered prior stream text st := by
  obtain ⟨entry, enters, reached⟩ := reaches
  exact reachable_gathered typed (fun st _ hst _ => ample.later st ⟨entry, enters, hst⟩)
    (entersLoop_gathered typed ample.first h enters) reached

/-- What is asked for while all of the stream has to fit into the largest capacity. -/
theorem StringBuilder.Holds.ample {builder : StringBuilder} {sbMinCap : Int} {rest : Bytes}
    (h : builder.Holds (prior ++ text)) (hrest : text ++ rest = stream) (nonneg : 0 ≤ sbMinCap)
    (minCap : IsSsize sbMinCap)
    (small : (prior.length + stream.length + sbMinCap : Int) ≤ maxCapacity) :
    Ample rt builder sbMinCap := by
  intro _
  have hasked := askedCapacity_eq h nonneg minCap
  have hlen := h.len_eq
  rw [List.length_append] at hlen
  have hrest := congrArg List.length hrest
  rw [List.length_append] at hrest
  exact le_newCapacity rt (by omega)

theorem Gathered.ample (h : Gathered prior stream text st) (typed : TypedCall call)
    (small : (prior.length + stream.length + call.sbMinCap : Int) ≤ maxCapacity) :
    Ample rt st.builder call.sbMinCap :=
  h.holds.ample h.rest typed.nonneg typed.minCap small

theorem ampleCall_of_small {start : RecvState σ} (typed : TypedCall call)
    (h : Gathered prior stream [] start)
    (small : (prior.length + stream.length + call.sbMinCap : Int) ≤ maxCapacity) :
    AmpleCall rt call start := by
  have hfirst : toSize call.sbMinCap ≤ newCapacity rt (toSize call.sbMinCap) := by
    have hmax : maxCapacity = 2 ^ 30 := rfl
    have := typed.nonneg
    exact le_newCapacity rt (by unfold toSize; omega)
  refine ⟨fun _ => hfirst, fun st ⟨entry, enters, reached⟩ => ?_⟩
  obtain ⟨text, hgathered⟩ := reachable_gathered typed (fun _ _ _ hst => hst.ample typed small)
    (entersLoop_gathered typed (fun _ => hfirst) h enters) reached
  exact hgathered.ample typed small

theorem Gathered.finish (h : Gathered prior stream text st) (ec : Int)
    (events : List SocketEvent) : (st.finish ec events).builder.Holds (prior ++ text) ∧
      text ++ (st.finish ec events).stream = stream :=
  ⟨h.holds, h.rest⟩

/-- By the iterations, from a state that the loop reaches. -/
theorem LoopRun.gathered {start entry : RecvState σ} (typed : TypedCall call)
    (ample : AmpleCall rt call start) (enters : EntersLoop rt call start entry)
    {events : List SocketEvent} {res : RecvResult} (run : LoopRun rt call events st res)
    (reached : Reachable (recvSystem rt call entry) (fun _ _ => true) st)
    (h : Gathered prior stream text st) :
    ∃ text, res.builder.Holds (prior ++ text) ∧ text ++ res.stream = stream := by
  induction run generalizing text with
  | stopped stop => exact ⟨text, h.finish 0 _⟩
  | again more step run ih =>
    obtain ⟨chunk, hnext⟩ := recvStep_gathered typed (ample.later _ ⟨entry, enters, reached⟩)
      h more step
    exact ih (reached.step rfl (recvSystem_step.mpr ⟨more, step⟩)) hnext
  | done more step =>
    obtain ⟨chunk, hnext⟩ := recvStep_gathered typed (ample.later _ ⟨entry, enters, reached⟩)
      h more step
    exact ⟨_, hnext.finish _ _⟩

end Loop

section Call

variable {σ : Type} {rt : Runtime} {fd maxLen sbMinCap : Int} {builder : StringBuilder}
  {timeoutIsError : Bool} {controller : Option (RecvController σ)} {state : σ}
  {prior stream : Bytes}

/-- What stays the same in a call of `recvAllData`. -/
def recvCall (fd : Int) (builder : StringBuilder) (timeoutIsError : Bool) (sbMinCap : Int)
    (controller : Option (RecvController σ)) : RecvCall σ :=
  ⟨fd, if sbMinCap < 0 then defaultSbMinCap else sbMinCap, timeoutIsError, builder.len, controller⟩

def recvStart (builder : StringBuilder) (maxLen : Int) (state : σ) (stream : Bytes) : RecvState σ :=
  ⟨builder, maxLen, 0, state, stream, false, []⟩

theorem recvCall_typed (minCap : IsSsize sbMinCap)
    (typed : ∀ c, controller = some c → SsizeController c) :
    TypedCall (recvCall fd builder timeoutIsError sbMinCap controller) := by
  have hdefault : defaultSbMinCap = 1024 := rfl
  refine ⟨?_, ?_, typed⟩
  · unfold recvCall
    dsimp only
    split <;> omega
  · unfold recvCall
    dsimp only
    split
    · exact (by decide : IsSsize defaultSbMinCap)
    · exact minCap

theorem recvStart_gathered (holds : builder.Holds prior) (limit : IsSsize maxLen) :
    Gathered prior stream [] (recvStart builder maxLen state stream) :=
  ⟨by rw [List.append_nil]; exact holds, rfl, rfl, limit⟩

theorem growFor_len {n : Nat} {room : StringBuilder} (hok : growFor rt builder n = .ok room) :
    room.len = builder.len := by
  unfold growFor stringBuilderExpandBuf at hok
  split at hok
  · split at hok
    · contradiction
    · dsimp only at hok
      split at hok
      · cases Except.ok.inj hok
        rfl
      · contradiction
  · cases Except.ok.inj hok
    rfl

/-- A call goes through its loop, or the controller ends it in front of that. -/
inductive CallOutcome (rt : Runtime) (call : RecvCall σ) (start : RecvState σ)
    (events : List SocketEvent) : RecvResult → Prop where
  | looped {entry : RecvState σ} {res : RecvResult} (enters : EntersLoop rt call start entry)
      (loop : recvLoop rt call events entry = .ok res) : CallOutcome rt call start events res
  | ended {room : StringBuilder} {ec : Int} {st : RecvState σ}
      (grown : growFor rt start.builder (toSize call.sbMinCap) = .ok room)
      (first : runController call { start with builder := room } = .ok (.done ec st)) :
      CallOutcome rt call start events (st.finish ec events)

theorem recvAllData_outcome {events : List SocketEvent} {res : RecvResult}
    (hok : recvAllData rt fd builder maxLen timeoutIsError sbMinCap controller state stream events =
      .ok res) :
    CallOutcome rt (recvCall fd builder timeoutIsError sbMinCap controller)
      (recvStart builder maxLen state stream) events res := by
  unfold recvAllData at hok
  dsimp only at hok
  obtain ⟨room, hgrow, hok⟩ := bind_eq_ok.mp hok
  rw [growFor_len hgrow] at hok
  obtain ⟨next, hfirst, hok⟩ := bind_eq_ok.mp hok
  cases next with
  | again entry => exact .looped ⟨room, hgrow, hfirst⟩ hok
  | done ec st =>
    cases Except.ok.inj hok
    exact .ended hgrow hfirst

/-- In every state that the loop comes to, the only request that does not fit is the one of a
call without a minimum that has a full builder. -/
theorem receives_within_buffer (holds : builder.Holds prior) (limit : IsSsize maxLen)
    (minCap : IsSsize sbMinCap) (typed : ∀ c, controller = some c → SsizeController c)
    (ample : AmpleCall rt (recvCall fd builder timeoutIsError sbMinCap controller)
      (recvStart builder maxLen state stream)) :
    let call := recvCall fd builder timeoutIsError sbMinCap controller
    Expands rt (growFor rt builder (toSize call.sbMinCap)) ∧
      (∀ st, LoopReaches rt call (recvStart builder maxLen state stream) st →
        st.wantsMore = true →
        Expands rt (reserveRecv rt st.builder call.sbMinCap) ∧
          (RecvFits rt call.sbMinCap st ↔
            1 ≤ call.sbMinCap ∨ st.builder.len < st.builder.cap)) ∧
      ∀ events res, recvAllData rt fd builder maxLen timeoutIsError sbMinCap controller state
        stream events = .ok res →
        ∃ received, res.builder.Holds (prior ++ received) ∧ received ++ res.stream = stream := by
  intro call
  have hcall : TypedCall call := recvCall_typed minCap typed
  have hstart : Gathered prior stream [] (recvStart builder maxLen state stream) :=
    recvStart_gathered holds limit
  refine ⟨growFor_expands _, fun st reaches more => ?_, fun events res hok => ?_⟩
  · obtain ⟨text, h⟩ := loopReaches_gathered hcall ample hstart reaches
    exact ⟨reserveRecv_expands h.holds hcall.nonneg hcall.minCap,
      recvFits_iff h.holds hcall.nonneg hcall.minCap (ample.later st reaches) h.received_le h.limit
        (wantsMore_iff.mp more)⟩
  · cases recvAllData_outcome hok with
    | looped enters loop =>
      exact (recvLoop_run loop).gathered hcall ample enters .init
        (entersLoop_gathered hcall ample.first hstart enters)
    | ended grown first =>
      have hroom := hstart.moved (growFor_holds hstart.holds ample.first grown)
      exact ⟨[], (runController_gathered hcall hroom first).finish _ events⟩

/-- A call with the buffer of one byte that its builder has. -/
theorem receives_within_buffer_oneByte :
    let call : RecvCall Unit := recvCall 3 ⟨0, 1, [none]⟩ false 1 none
    (∀ st, LoopReaches .unlimited call (recvStart ⟨0, 1, [none]⟩ (-1) () [7]) st →
      st.wantsMore = true → RecvFits .unlimited 1 st) := by
  intro call st reaches more
  have holds : (⟨0, 1, [none]⟩ : StringBuilder).Holds [] := ⟨by decide, rfl, rfl, rfl⟩
  have hcall : TypedCall call := recvCall_typed (by decide) (fun _ h => nomatch h)
  have hsafe := @receives_within_buffer Unit .unlimited 3 (-1) 1 ⟨0, 1, [none]⟩ false none () []
    [7] holds (by decide) (by decide) (fun _ h => nomatch h)
    (ampleCall_of_small hcall (recvStart_gathered holds (by decide)) (by decide))
  exact ((hsafe.2.1 st reaches more).2).mpr (.inl (by decide))

/-- An empty builder, and no minimum: the first `recv` is called with `SIZE_MAX`. -/
theorem recv_without_room : ∃ st,
    LoopReaches .unlimited (recvCall 3 ⟨0, 0, []⟩ false 0 (none : Option (RecvController Unit)))
      (recvStart ⟨0, 0, []⟩ (-1) () [7]) st ∧ st.wantsMore = true ∧
      recvRequest st.builder st.maxLen st.received = 2 ^ 64 - 1 ∧ ¬ RecvFits .unlimited 0 st := by
  refine ⟨recvStart ⟨0, 0, []⟩ (-1) () [7], ⟨_, ⟨⟨0, 0, []⟩, rfl, rfl⟩, .init⟩, rfl, by decide,
    fun hfits => ?_⟩
  exact absurd (hfits ⟨0, 0, []⟩ rfl).2 (by decide)

end Call

end Net77
