import Net77.Transfer

/-! What one iteration of the receive loop does to the builder and the stream. -/
namespace Net77

open Net77.Base

/-- An `ssize_t`. -/
def IsSsize (x : Int) : Prop := -2 ^ 63 ≤ x ∧ x < 2 ^ 63

instance (x : Int) : Decidable (IsSsize x) :=
  inferInstanceAs (Decidable (-2 ^ 63 ≤ x ∧ x < 2 ^ 63))

theorem toSsize_bounds (x : Int) : IsSsize (toSsize x) := by
  unfold IsSsize toSsize
  rw [Int.bmod_def]
  split <;> omega

theorem recvRequest_pos (builder : StringBuilder) (maxLen : Int) (received : Nat) :
    1 ≤ recvRequest builder maxLen received := by
  have h1 := (toSsize_bounds (capLeft builder)).2
  have h2 := (toSsize_bounds (maxLen - received)).2
  unfold recvRequest
  dsimp only
  generalize toSsize (capLeft builder) = c at h1
  generalize toSsize (maxLen - received) = m at h2
  have hmin : optMin c m < 2 ^ 63 := by unfold optMin; split <;> (try split) <;> omega
  unfold toSize
  split <;> omega

/-- With room in the builder, the request fits it and the limit. -/
theorem recvRequest_le {builder : StringBuilder} {maxLen : Int} {received : Nat}
    (hroom : builder.len < builder.cap) (hcap : builder.cap < 2 ^ 62) (hmax : IsSsize maxLen)
    (hreceived : received ≤ builder.len) (hguard : maxLen < 0 ∨ received < maxLen) :
    recvRequest builder maxLen received ≤ builder.cap - builder.len ∧
      (0 ≤ maxLen → (recvRequest builder maxLen received : Int) ≤ maxLen - received) := by
  have hcapLeft : toSsize (capLeft builder) = (builder.cap - builder.len : Nat) := by
    unfold capLeft toSize
    rw [toSsize_of_bounds (by omega) (by omega)]
    omega
  obtain ⟨hlow, hhigh⟩ := hmax
  have hlimit : toSsize (maxLen - received) ≠ 0 ∧
      (0 ≤ maxLen → toSsize (maxLen - received) = maxLen - received) := by
    constructor
    · unfold toSsize
      rw [Int.bmod_def]
      split <;> omega
    · intro hpos
      exact toSsize_of_bounds (by omega) (by omega)
  unfold recvRequest
  dsimp only
  rw [hcapLeft]
  generalize toSsize (maxLen - received) = m at hlimit
  unfold optMin toSize
  constructor
  · repeat' split
    all_goals omega
  · intro hpos
    rw [hlimit.2 hpos]
    repeat' split
    all_goals omega

/-- The expansion keeps the text, unless it shrinks the allocation below it. -/
theorem reserveRecv_spec {rt : Runtime} {builder room : StringBuilder} {text : Bytes}
    {sbMinCap : Int} (h : builder.Holds text) (hok : reserveRecv rt builder sbMinCap = .ok room) :
    room.len = text.length ∧ room.data.length = room.cap ∧ room.cap < 2 ^ 62 ∧
      (room.len ≤ room.cap → room.Holds text) := by
  unfold reserveRecv at hok
  split at hok
  · exact h.expand_spec hok
  · cases Except.ok.inj hok
    exact ⟨h.len_eq, h.size_eq, h.cap_lt, fun _ => h⟩

/-- While there is something to come, a chunk of it that respects the limit is
appended to the text. -/
theorem recvInto_spec {rt : Runtime} {builder builder' : StringBuilder} {text chunk stream : Bytes}
    {sbMinCap maxLen : Int} {received size : Nat} (h : builder.Holds text)
    (hreceived : received ≤ text.length) (hmax : IsSsize maxLen)
    (hguard : maxLen < 0 ∨ received < maxLen)
    (hok : recvInto rt builder sbMinCap maxLen received stream size = .ok (builder', chunk)) :
    chunk <+: stream ∧ (chunk = [] → stream = []) ∧
      (chunk ≠ [] → builder'.Holds (text ++ chunk) ∧
        (0 ≤ maxLen → (received + chunk.length : Int) ≤ maxLen)) := by
  unfold recvInto at hok
  obtain ⟨room, hroom, hok⟩ := bind_eq_ok.mp hok
  obtain ⟨hlen, hsize, hcap, hholds⟩ := reserveRecv_spec h hroom
  have hpos := recvRequest_pos room maxLen received
  have hle := fun hlt : room.len < room.cap =>
    recvRequest_le hlt hcap hmax (by omega : received ≤ room.len) hguard
  generalize recvRequest room maxLen received = request at hok hpos hle
  dsimp only at hok
  have hchunk : (stream.take (min (size + 1) request)).length ≤ request := by
    rw [List.length_take]
    omega
  have hstart : stream.take (min (size + 1) request) <+: stream := List.take_prefix _ _
  have hempty : stream.take (min (size + 1) request) = [] → stream = [] := by
    intro hnil
    rcases List.take_eq_nil_iff.mp hnil with hzero | hnil
    · omega
    · exact hnil
  generalize stream.take (min (size + 1) request) = taken at hok hchunk hstart hempty
  split at hok
  · rename_i hnil
    obtain ⟨rfl, rfl⟩ := Prod.mk.inj (Except.ok.inj hok)
    exact ⟨List.nil_prefix, fun _ => hempty hnil, fun hne => absurd rfl hne⟩
  · rename_i hne
    obtain ⟨cells, hcells, hok⟩ := bind_eq_ok.mp hok
    obtain ⟨rfl, rfl⟩ := Prod.mk.inj (Except.ok.inj hok)
    refine ⟨hstart, hempty, fun _ => ?_⟩
    -- the write went well, so the allocation reaches beyond the text
    have hfits : room.len + taken.length ≤ room.data.length := by
      unfold writeCells at hcells
      split at hcells
      · assumption
      · simp at hcells
    have hsome : 0 < taken.length := List.length_pos_iff.mpr hne
    refine ⟨(hholds (by omega)).write hcells, fun hmaxLen => ?_⟩
    have := (hle (by omega)).2 hmaxLen
    omega

/-- With room in the builder, nothing stops the transfer. -/
theorem recvInto_fits {rt : Runtime} {builder room : StringBuilder} {text : Bytes}
    {sbMinCap maxLen : Int} {received : Nat} (stream : Bytes) (size : Nat)
    (hroom : reserveRecv rt builder sbMinCap = .ok room) (hholds : room.Holds text)
    (hleft : room.len < room.cap) (hreceived : received ≤ text.length) (hmax : IsSsize maxLen)
    (hguard : maxLen < 0 ∨ received < maxLen) :
    ∃ builder' chunk, recvInto rt builder sbMinCap maxLen received stream size =
      .ok (builder', chunk) ∧ builder'.Holds (text ++ chunk) := by
  have hle := (recvRequest_le hleft hholds.cap_lt hmax
    (by rw [hholds.len_eq]; exact hreceived) hguard).1
  unfold recvInto
  rw [hroom, ok_bind]
  dsimp only
  generalize recvRequest room maxLen received = request at hle
  have hchunk : (stream.take (min (size + 1) request)).length ≤ request := by
    rw [List.length_take]
    omega
  generalize stream.take (min (size + 1) request) = taken at hchunk
  by_cases hnil : taken = []
  · exact ⟨room, [], if_pos hnil, by simpa using hholds⟩
  · obtain ⟨cells, hcells⟩ := hholds.write_fits (by omega : room.len + taken.length ≤ room.cap)
    refine ⟨_, taken, ?_, hholds.write hcells⟩
    rw [if_neg hnil, hcells]
    rfl

/-- With memory for what is to come, there is room. -/
theorem recvInto_total {rt : Runtime} {builder : StringBuilder} {text : Bytes}
    {sbMinCap maxLen : Int} {received : Nat} (stream : Bytes) (size : Nat) (h : builder.Holds text)
    (halloc : rt.AllocSucceeds) (hmin : 1 ≤ sbMinCap)
    (hmem : (text.length + sbMinCap : Int) ≤ maxCapacity)
    (hreceived : received ≤ text.length) (hmax : IsSsize maxLen)
    (hguard : maxLen < 0 ∨ received < maxLen) :
    ∃ builder' chunk, recvInto rt builder sbMinCap maxLen received stream size =
      .ok (builder', chunk) ∧ builder'.Holds (text ++ chunk) := by
  have hlenEq := h.len_eq
  have hcapEq := h.cap_lt
  have hlenLe := h.len_le
  have hmemNat : (maxCapacity : Int) = 2 ^ 30 := by unfold maxCapacity; omega
  obtain ⟨room, hroom, hholds, hleft⟩ : ∃ room, reserveRecv rt builder sbMinCap = .ok room ∧
      room.Holds text ∧ room.len < room.cap := by
    unfold reserveRecv
    have hsize : toSize (builder.cap + (sbMinCap + builder.len - builder.cap)) =
        (sbMinCap + builder.len).toNat := by unfold toSize; omega
    by_cases hcap : capLeft builder < toSize sbMinCap
    · have hless : builder.cap < (sbMinCap + builder.len).toNat := by
        unfold capLeft toSize at hcap
        omega
      obtain ⟨bigger, hexpand, hbigger, hle⟩ := h.expand hless (by omega) halloc
      refine ⟨bigger, by rw [if_pos hcap, hsize, hexpand], hbigger, ?_⟩
      have := hbigger.len_eq
      omega
    · refine ⟨builder, if_neg hcap, h, ?_⟩
      unfold capLeft toSize at hcap
      omega
  exact recvInto_fits stream size hroom hholds hleft hreceived hmax hguard

/-- There is something to read, or the end of the stream can be read. -/
def SocketEvent.Readable (event : SocketEvent) : Prop :=
  ∃ r, event.poll = .ready r ∧ r.pollin = true ∧ r.pollerr = false ∧ r.pollnval = false

/-- The peer has closed the connection and nothing is left to read. -/
def SocketEvent.HungUp (event : SocketEvent) : Prop :=
  ∃ r, event.poll = .ready r ∧ r.pollin = false ∧ r.pollerr = false ∧ r.pollhup = true

section Step

variable {σ : Type} {rt : Runtime} {call : RecvCall σ} {event : SocketEvent} {st : RecvState σ}

theorem recvStep_readable (h : event.Readable) :
    recvStep rt call event st = recvChunk rt call event.size st := by
  obtain ⟨r, hpoll, hin, herr, hnval⟩ := h
  simp [recvStep, hpoll, hin, herr, hnval]

theorem recvStep_hungUp (h : event.HungUp) :
    recvStep rt call event st = .ok (.done 0 (st.close call.fd)) := by
  obtain ⟨r, hpoll, hin, herr, hhup⟩ := h
  simp [recvStep, hpoll, hin, herr, hhup]

theorem wantsMore_iff : st.wantsMore = true ↔ st.maxLen < 0 ∨ (st.received : Int) < st.maxLen := by
  simp [RecvState.wantsMore]

section Loop

variable {st' : RecvState σ} {events : List SocketEvent}

theorem recvLoop_stopped (stopped : ¬ st.wantsMore = true) :
    recvLoop rt call events st = .ok (st.finish 0 events) := by
  cases events with
  | nil => exact if_neg stopped
  | cons event events => exact if_neg stopped

theorem recvLoop_again (more : st.wantsMore = true)
    (hstep : recvStep rt call event st = .ok (.again st')) :
    recvLoop rt call (event :: events) st = recvLoop rt call events st' := by
  rw [recvLoop, if_pos more, hstep]
  rfl

theorem recvLoop_done (more : st.wantsMore = true) {ec : Int}
    (hstep : recvStep rt call event st = .ok (.done ec st')) :
    recvLoop rt call (event :: events) st = .ok (st'.finish ec events) := by
  rw [recvLoop, if_pos more, hstep]
  rfl

theorem recvLoop_error (more : st.wantsMore = true) {stop : Stop}
    (hstep : recvStep rt call event st = .error stop) :
    recvLoop rt call (event :: events) st = .error stop := by
  rw [recvLoop, if_pos more, hstep]
  rfl

/-- The loop with its iterations, where it comes to an end. -/
inductive LoopRun (rt : Runtime) (call : RecvCall σ) :
    List SocketEvent → RecvState σ → RecvResult → Prop where
  | stopped {events : List SocketEvent} {st : RecvState σ} (stop : ¬ st.wantsMore = true) :
      LoopRun rt call events st (st.finish 0 events)
  | again {event : SocketEvent} {events : List SocketEvent} {st st' : RecvState σ}
      {res : RecvResult} (more : st.wantsMore = true)
      (step : recvStep rt call event st = .ok (.again st'))
      (run : LoopRun rt call events st' res) : LoopRun rt call (event :: events) st res
  | done {event : SocketEvent} {events : List SocketEvent} {st st' : RecvState σ} {ec : Int}
      (more : st.wantsMore = true) (step : recvStep rt call event st = .ok (.done ec st')) :
      LoopRun rt call (event :: events) st (st'.finish ec events)

theorem recvLoop_run {res : RecvResult} (hok : recvLoop rt call events st = .ok res) :
    LoopRun rt call events st res := by
  induction events generalizing st with
  | nil =>
    by_cases more : st.wantsMore = true
    · unfold recvLoop at hok
      rw [if_pos more] at hok
      contradiction
    · rw [recvLoop_stopped more] at hok
      cases Except.ok.inj hok
      exact .stopped more
  | cons event events ih =>
    by_cases more : st.wantsMore = true
    · cases hstep : recvStep rt call event st with
      | error stop =>
        rw [recvLoop_error more hstep] at hok
        contradiction
      | ok next =>
        cases next with
        | again st' =>
          rw [recvLoop_again more hstep] at hok
          exact .again more hstep (ih hok)
        | done ec st' =>
          rw [recvLoop_done more hstep] at hok
          cases Except.ok.inj hok
          exact .done more hstep
    · rw [recvLoop_stopped more] at hok
      cases Except.ok.inj hok
      exact .stopped more

end Loop

end Step

end Net77
