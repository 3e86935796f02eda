import Net77.ConnectionHandling

/-! A pass of the poll loop goes wrong with the first entry that is removed. -/
namespace Net77

open Net77.Base

section Log

variable {log more : List ServerEvent}

@[simp] theorem receivedFds_append :
    receivedFds (log ++ more) = receivedFds log ++ receivedFds more := List.filterMap_append

/-- No slot is visited that is not in the set. -/
def InRange (log : List ServerEvent) : Prop := ∀ slot len, .visited slot len ∈ log → slot < len

theorem inRange_append : InRange (log ++ more) ↔ InRange log ∧ InRange more := by
  constructor
  · intro h
    exact ⟨fun slot len hvisited => h slot len (List.mem_append_left more hvisited),
      fun slot len hvisited => h slot len (List.mem_append_right log hvisited)⟩
  · rintro ⟨hlog, hmore⟩ slot len hvisited
    rcases List.mem_append.mp hvisited with hvisited | hvisited
    · exact hlog slot len hvisited
    · exact hmore slot len hvisited

theorem inRange_visited {slot len : Nat} :
    InRange (.visited slot len :: log) ↔ slot < len ∧ InRange log := by
  constructor
  · intro h
    exact ⟨h slot len List.mem_cons_self,
      fun _ _ hvisited => h _ _ (List.mem_cons_of_mem _ hvisited)⟩
  · rintro ⟨hslot, h⟩ other size hvisited
    rcases List.mem_cons.mp hvisited with heq | hvisited
    · cases heq
      exact hslot
    · exact h other size hvisited

theorem inRange_of_quiet (h : ∀ slot len, .visited slot len ∉ log) : InRange log :=
  fun slot len hvisited => absurd hvisited (h slot len)

end Log

section Attempts

variable {shape : SetShape 4} {set : ConnSet} {conns : List Conn} {slot : Nat}

/-- The pollfds of the set while the loop looks for the pointer. -/
def pollfdsAt (conns : List Conn) (slot : Nat) (conn : Conn) : List Bytes :=
  (conns.set slot conn.cleared).map fun other => other 0

theorem HoldsConns.removeFinished_miss (h : HoldsConns shape set conns)
    (hslot : slot < conns.length) {dataAddr : Nat}
    (hmiss : pointerBytes dataAddr slot ∉ pollfdsAt conns slot conns[slot]) :
    ∃ set', Net77.removeFinished dataAddr set slot = .ok (set', false) ∧
      HoldsConns shape set' (conns.set slot conns[slot].cleared) := by
  obtain ⟨set', hremove, hset'⟩ := h.removeFinished hslot dataAddr
  have hnone : ¬ ∃ conn ∈ conns.set slot conns[slot].cleared,
      conn 0 = pointerBytes dataAddr slot := by
    intro hhit
    exact hmiss (List.mem_map.mpr hhit)
  unfold removeTuple at hremove hset'
  rw [if_neg hnone] at hremove hset'
  exact ⟨set', hremove, hset'⟩

theorem HoldsConns.removeFinished_hit (h : HoldsConns shape set conns)
    (hslot : slot < conns.length) {dataAddr : Nat}
    (hhit : pointerBytes dataAddr slot ∈ pollfdsAt conns slot conns[slot]) :
    ∃ set' conns', Net77.removeFinished dataAddr set slot = .ok (set', true) ∧
      HoldsConns shape set' conns' ∧ conns'.length + 1 = conns.length := by
  obtain ⟨set', hremove, hset'⟩ := h.removeFinished hslot dataAddr
  have hsome : ∃ conn ∈ conns.set slot conns[slot].cleared, conn 0 = pointerBytes dataAddr slot :=
    List.mem_map.mp hhit
  unfold removeTuple at hremove hset'
  rw [if_pos hsome] at hremove hset'
  refine ⟨set', _, hremove, hset', ?_⟩
  obtain ⟨conn, hconn, hkey⟩ := hsome
  rw [List.length_eraseP_of_mem hconn (by simpa using hkey), List.length_set]
  omega

end Attempts

/-- What a part of the loop body does whatever the set is. Of the slots it says
nothing. -/
structure Passes (set set' : ConnSet) (received : List Int) (log : List ServerEvent) : Prop where
  edits : Edits set set'
  received_eq : receivedFds log = received
  quiet : ∀ slot len, .visited slot len ∉ log

section Parts

variable {σ : Type} {rt : Runtime} {cfg : ServerConfig σ} {dataAddr : Nat} {arrival : Arrival σ}
  {set set' : ConnSet} {slot : Nat} {fd : Int} {log : List ServerEvent}

theorem receiveConn_passes {closed : Bool}
    (h : receiveConn rt cfg dataAddr set slot fd arrival = .ok (set', log, closed)) :
    Passes set set' [fd] log := by
  obtain ⟨res, -, h⟩ := bind_eq_ok.mp h
  obtain ⟨⟨set₁, calls, wasClosed⟩, hnote, h⟩ := bind_eq_ok.mp h
  obtain ⟨dispatched, hdisp, h⟩ := bind_eq_ok.mp h
  have hnoted := Edits.of_noteReception hnote
  dsimp only at h
  split at h
  · obtain ⟨⟨set₂, found⟩, hremove, h⟩ := bind_eq_ok.mp h
    cases Except.ok.inj h
    refine ⟨hnoted.trans (.of_removeFinished hremove), ?_, ?_⟩
    · rcases dispatchConn_log hdisp with rfl | ⟨str, rfl⟩ <;> cases found <;>
        simp [receivedFds]
    · rcases dispatchConn_log hdisp with rfl | ⟨str, rfl⟩ <;> cases found <;> simp
  · cases Except.ok.inj h
    refine ⟨hnoted, ?_, ?_⟩
    · rcases dispatchConn_log hdisp with rfl | ⟨str, rfl⟩ <;> simp [receivedFds]
    · rcases dispatchConn_log hdisp with rfl | ⟨str, rfl⟩ <;> simp

theorem finishConn_passes {closed : Bool}
    (h : finishConn dataAddr set slot fd = .ok (set', log, closed)) : Passes set set' [] log := by
  obtain ⟨revents, -, h⟩ := bind_eq_ok.mp h
  split at h
  · obtain ⟨⟨set₁, found⟩, hremove, h⟩ := bind_eq_ok.mp h
    cases Except.ok.inj h
    refine ⟨.of_removeFinished hremove, ?_, ?_⟩
    · cases found <;> rfl
    · cases found <;> simp
  · split at h
    · obtain ⟨⟨set₁, found⟩, hremove, h⟩ := bind_eq_ok.mp h
      cases Except.ok.inj h
      exact ⟨.of_removeFinished hremove, rfl, by simp⟩
    · cases Except.ok.inj h
      exact ⟨.refl set, rfl, by simp⟩

/-- The whole body. -/
theorem handleConn_passes {again : Bool}
    (h : handleConn rt cfg dataAddr arrival set slot = .ok (set', log, again)) :
    ∃ fd revents, loadFd set slot = .ok fd ∧ loadRevents set slot = .ok revents ∧
      Passes set set' (if revents &&& pollin ≠ 0 then [fd] else []) log := by
  obtain ⟨fd, hfd, h⟩ := bind_eq_ok.mp h
  obtain ⟨revents, hrevents, h⟩ := bind_eq_ok.mp h
  refine ⟨fd, revents, hfd, hrevents, ?_⟩
  obtain ⟨set₁, log₁, closed, hreceive, h⟩ : ∃ (set₁ : ConnSet) (log₁ : List ServerEvent)
      (closed : Bool), Passes set set₁ (if revents &&& pollin ≠ 0 then [fd] else []) log₁ ∧
      (if closed then pure (set₁, log₁, true) else
        finishConn dataAddr set₁ slot fd >>= fun result =>
          pure (result.1, log₁ ++ result.2.1, result.2.2)) = Except.ok (set', log, again) := by
    dsimp only at h
    by_cases hpollin : revents &&& pollin ≠ 0
    · rw [if_pos hpollin] at h ⊢
      obtain ⟨⟨set₁, log₁, closed⟩, hreceive, h⟩ := bind_eq_ok.mp h
      exact ⟨set₁, log₁, closed, receiveConn_passes hreceive, h⟩
    · rw [if_neg hpollin] at h ⊢
      exact ⟨set, [], false, ⟨.refl set, rfl, by simp⟩, h⟩
  split at h
  · cases Except.ok.inj h
    exact hreceive
  · obtain ⟨⟨set₂, more, wasClosed⟩, hfinish, h⟩ := bind_eq_ok.mp h
    cases Except.ok.inj h
    have hfinished := finishConn_passes hfinish
    refine ⟨hreceive.edits.trans hfinished.edits, ?_, ?_⟩
    · rw [receivedFds_append, hreceive.received_eq, hfinished.received_eq, List.append_nil]
    · intro slot len hvisited
      rcases List.mem_append.mp hvisited with hvisited | hvisited
      · exact hreceive.quiet slot len hvisited
      · exact hfinished.quiet slot len hvisited

end Parts

section Loop

variable {σ : Type} {rt : Runtime} {cfg : ServerConfig σ} {dataAddr : Nat}
  {arrivals : Nat → Arrival σ} {endSlot : Nat}

/-- A pass that ends does not depend on the fuel. -/
theorem pollLoop_mono {fuel slot received : Nat} {set : ConnSet}
    {result : ConnSet × List ServerEvent}
    (h : pollLoop rt cfg dataAddr arrivals endSlot fuel slot received set = .ok result)
    (more : Nat) :
    pollLoop rt cfg dataAddr arrivals endSlot (fuel + more) slot received set = .ok result := by
  induction fuel generalizing slot received set result with
  | zero =>
    unfold pollLoop at h
    split at h
    · contradiction
    · rename_i hend
      cases more with
      | zero => rwa [pollLoop, if_neg hend]
      | succ more => rwa [Nat.zero_add, pollLoop, if_neg hend]
  | succ fuel ih =>
    rw [Nat.succ_add, pollLoop]
    unfold pollLoop at h
    split at h
    · rename_i hslot
      obtain ⟨⟨set₁, log, again⟩, hround, h⟩ := bind_eq_ok.mp h
      obtain ⟨⟨set₂, logs⟩, hrest, h⟩ := bind_eq_ok.mp h
      rw [if_pos hslot, hround, ok_bind]
      dsimp only at hrest ⊢
      rw [ih hrest, ok_bind]
      exact h
    · rename_i hend
      rwa [if_neg hend]

/-- With fewer entries than the end says, a pass that ends gets to a slot that is
not in the set: the last one. -/
theorem pollLoop_late {fuel slot received : Nat} {set set' : ConnSet} {log : List ServerEvent}
    (hslot : slot < endSlot) (hlen : set.len < endSlot)
    (h : pollLoop rt cfg dataAddr arrivals endSlot fuel slot received set = .ok (set', log)) :
    ¬ InRange log := by
  induction fuel generalizing slot received set set' log with
  | zero =>
    rw [pollLoop, if_pos hslot] at h
    contradiction
  | succ fuel ih =>
    rw [pollLoop, if_pos hslot] at h
    obtain ⟨⟨set₁, events, again⟩, hround, h⟩ := bind_eq_ok.mp h
    obtain ⟨⟨set₂, logs⟩, hrest, h⟩ := bind_eq_ok.mp h
    cases Except.ok.inj h
    obtain ⟨fd, revents, -, -, hpasses⟩ := handleConn_passes hround
    intro hrange
    obtain ⟨hlive, hrange⟩ := inRange_visited.mp hrange
    have hnext : (if again then slot else slot + 1) < endSlot := by
      split <;> omega
    exact ih hnext (hpasses.edits.len_le.trans_lt hlen) hrest (inRange_append.mp hrange).2

end Loop

/-- An attempt to remove the connection behind the reception is made. -/
def Conn.marked {σ : Type} (conn : Conn) (arrival : Arrival σ) : Bool :=
  conn.readable && arrival.discard || conn.flagged

/-- The reception of a connection does not end it, and no entry has the bytes of
the pointer if one is to be removed. -/
def Conn.Stays {σ : Type} (rt : Runtime) (cfg : ServerConfig σ) (conn : Conn) (arrival : Arrival σ)
    (pointer : Bytes) (pollfds : List Bytes) : Prop :=
  (conn.readable = true → ∀ res, receive rt cfg conn.fd arrival = .ok res → endsConn res = false) ∧
    (conn.marked arrival = true → pointer ∉ pollfds)

section Round

variable {σ : Type} {rt : Runtime} {cfg : ServerConfig σ} {dataAddr : Nat} {arrival : Arrival σ}
  {shape : SetShape 4} {set : ConnSet} {conns : List Conn} {slot : Nat}

theorem pollfdsAt_set {conn : Conn} (hslot : slot < conns.length) (hsame : conn 0 = conns[slot] 0) :
    pollfdsAt (conns.set slot conn) slot conn = pollfdsAt conns slot conns[slot] := by
  unfold pollfdsAt Conn.cleared
  rw [List.set_set, List.map_set, List.map_set, Function.update_self, Function.update_self, hsame]

/-- The round without a reception that ends the connection. -/
theorem handleConn_kept (h : HoldsConns shape set conns) (hdistinct : DistinctFds conns)
    (hslot : slot < conns.length) (dataAddr : Nat)
    (hreceives : conns[slot].readable = true →
      ∃ res, Receives rt cfg conns[slot].fd arrival res ∧ endsConn res = false) :
    ∃ set₁ conn₁, HoldsConns shape set₁ (conns.set slot conn₁) ∧ conn₁ 0 = conns[slot] 0 ∧
      (conns[slot].marked arrival = false →
        ∃ log, handleConn rt cfg dataAddr arrival set slot = .ok (set₁, log, false)) ∧
      (conns[slot].marked arrival = true → ∀ set' found,
        removeFinished dataAddr set₁ slot = .ok (set', found) →
          ∃ log, handleConn rt cfg dataAddr arrival set slot = .ok (set', log, true)) := by
  cases hreadable : conns[slot].readable with
  | true =>
    obtain ⟨res, ⟨hrecv, dispatched, hdisp⟩, hends⟩ := hreceives hreadable
    obtain ⟨set₁, hset₁, hreceive⟩ :=
      receiveConn_keeps h hdistinct hslot dataAddr hrecv hdisp hends
    refine ⟨set₁, conns[slot].used arrival.time, hset₁, rfl, ?_⟩
    have hslot₁ : slot < (conns.set slot (conns[slot].used arrival.time)).length := by
      rwa [List.length_set]
    have hget : (conns.set slot (conns[slot].used arrival.time))[slot] =
        conns[slot].used arrival.time := List.getElem_set_self _
    have hfinish := finishConn_eq hset₁ hslot₁ dataAddr conns[slot].fd
    have hflagged : (conns[slot].used arrival.time).flagged = conns[slot].flagged := rfl
    rw [hget, hflagged] at hfinish
    unfold Conn.marked
    rw [hreadable, Bool.true_and]
    cases hdiscard : arrival.discard with
    | true =>
      rw [hdiscard, if_pos rfl] at hreceive
      constructor
      · intro hmarked
        contradiction
      · intro _ set' found hremove
        rw [hremove] at hreceive
        exact ⟨_, handleConn_closed h hslot hreadable hreceive⟩
    | false =>
      rw [hdiscard, if_neg (by decide)] at hreceive
      rw [Bool.false_or]
      constructor
      · intro hflag
        rw [hflag, if_neg (by decide)] at hfinish
        exact ⟨_, handleConn_open h hslot hreadable hreceive hfinish⟩
      · intro hflag set' found hremove
        rw [hflag, if_pos rfl, hremove] at hfinish
        exact ⟨_, handleConn_open h hslot hreadable hreceive hfinish⟩
  | false =>
    refine ⟨set, conns[slot], by rwa [List.set_getElem_self], rfl, ?_⟩
    have hfinish := finishConn_eq h hslot dataAddr conns[slot].fd
    unfold Conn.marked
    rw [hreadable, Bool.false_and, Bool.false_or]
    constructor
    · intro hflag
      rw [hflag, if_neg (by decide)] at hfinish
      exact ⟨_, handleConn_idle h hslot hreadable hfinish⟩
    · intro hflag set' found hremove
      rw [hflag, if_pos rfl, hremove] at hfinish
      exact ⟨_, handleConn_idle h hslot hreadable hfinish⟩

/-- Nothing is removed. The slot comes again if there was an attempt. -/
theorem handleConn_stays (h : HoldsConns shape set conns) (hdistinct : DistinctFds conns)
    (hslot : slot < conns.length)
    (hreceives : conns[slot].readable = true → ∃ res, Receives rt cfg conns[slot].fd arrival res)
    (hstays : conns[slot].Stays rt cfg arrival (pointerBytes dataAddr slot)
      (pollfdsAt conns slot conns[slot])) :
    ∃ set' log conn', handleConn rt cfg dataAddr arrival set slot =
        .ok (set', log, conns[slot].marked arrival) ∧
      HoldsConns shape set' (conns.set slot conn') ∧
      conn' 0 = if conns[slot].marked arrival then conns[slot].cleared 0 else conns[slot] 0 := by
  have hkept : conns[slot].readable = true →
      ∃ res, Receives rt cfg conns[slot].fd arrival res ∧ endsConn res = false := by
    intro hreadable
    obtain ⟨res, hres⟩ := hreceives hreadable
    exact ⟨res, hres, hstays.1 hreadable res hres.1⟩
  obtain ⟨set₁, conn₁, hset₁, hsame, hleft, hmarked⟩ :=
    handleConn_kept h hdistinct hslot dataAddr hkept
  cases hmark : conns[slot].marked arrival with
  | false =>
    obtain ⟨log, hround⟩ := hleft hmark
    exact ⟨set₁, log, conn₁, hround, hset₁, hsame⟩
  | true =>
    have hslot₁ : slot < (conns.set slot conn₁).length := by rwa [List.length_set]
    have hget : (conns.set slot conn₁)[slot] = conn₁ := List.getElem_set_self _
    obtain ⟨set', hremove, hset'⟩ := hset₁.removeFinished_miss hslot₁ (by
      rw [hget, pollfdsAt_set hslot hsame]
      exact hstays.2 hmark)
    obtain ⟨log, hround⟩ := hmarked hmark set' false hremove
    rw [hget, List.set_set] at hset'
    refine ⟨set', log, conn₁.cleared, hround, hset', ?_⟩
    unfold Conn.cleared
    rw [Function.update_self, hsame, if_pos rfl, Function.update_self]

/-- An entry is removed, and the slot comes again. -/
theorem handleConn_removes (h : HoldsConns shape set conns) (hdistinct : DistinctFds conns)
    (hslot : slot < conns.length)
    (hreceives : conns[slot].readable = true → ∃ res, Receives rt cfg conns[slot].fd arrival res)
    (hstays : ¬ conns[slot].Stays rt cfg arrival (pointerBytes dataAddr slot)
      (pollfdsAt conns slot conns[slot])) :
    ∃ set' log, handleConn rt cfg dataAddr arrival set slot = .ok (set', log, true) ∧
      set'.len < conns.length := by
  by_cases hends : conns[slot].readable = true ∧
      ∃ res, Receives rt cfg conns[slot].fd arrival res ∧ endsConn res = true
  · obtain ⟨hreadable, res, ⟨hrecv, dispatched, hdisp⟩, hend⟩ := hends
    obtain ⟨set', hreceive, hset'⟩ := receiveConn_ends h hdistinct hslot dataAddr hrecv hdisp hend
    refine ⟨set', _, handleConn_closed h hslot hreadable hreceive, ?_⟩
    rw [hset'.len_eq, List.length_eraseIdx_of_lt hslot]
    omega
  · have hkept : conns[slot].readable = true →
        ∃ res, Receives rt cfg conns[slot].fd arrival res ∧ endsConn res = false := by
      intro hreadable
      obtain ⟨res, hres⟩ := hreceives hreadable
      refine ⟨res, hres, ?_⟩
      cases hend : endsConn res with
      | false => rfl
      | true => exact absurd ⟨hreadable, res, hres, hend⟩ hends
    have hhit : conns[slot].marked arrival = true ∧
        pointerBytes dataAddr slot ∈ pollfdsAt conns slot conns[slot] := by
      by_contra hno
      apply hstays
      constructor
      · intro hreadable res hrecv
        obtain ⟨other, hother, hopen⟩ := hkept hreadable
        cases Except.ok.inj (hrecv.symm.trans hother.1)
        exact hopen
      · intro hmark hmem
        exact hno ⟨hmark, hmem⟩
    obtain ⟨set₁, conn₁, hset₁, hsame, -, hmarked⟩ :=
      handleConn_kept h hdistinct hslot dataAddr hkept
    have hslot₁ : slot < (conns.set slot conn₁).length := by rwa [List.length_set]
    have hget : (conns.set slot conn₁)[slot] = conn₁ := List.getElem_set_self _
    obtain ⟨set', conns', hremove, hset', hfewer⟩ := hset₁.removeFinished_hit hslot₁ (by
      rw [hget, pollfdsAt_set hslot hsame]
      exact hhit.2)
    obtain ⟨log, hround⟩ := hmarked hhit.1 set' true hremove
    refine ⟨set', log, hround, ?_⟩
    rw [List.length_set] at hfewer
    rw [hset'.len_eq]
    omega

end Round

/-- No entry is removed in the pass. `before` are the pollfds of the slots that it
has left behind, and every reception takes the next arrival. -/
def Undisturbed {σ : Type} (rt : Runtime) (cfg : ServerConfig σ) (dataAddr : Nat)
    (arrivals : Nat → Arrival σ) : (received : Nat) → (before : List Bytes) → List Conn → Prop
  | _, _, [] => True
  | received, before, conn :: rest =>
    conn.Stays rt cfg (arrivals received) (pointerBytes dataAddr before.length)
        (before ++ conn.cleared 0 :: rest.map fun other => other 0) ∧
      Undisturbed rt cfg dataAddr arrivals (received + if conn.readable then 1 else 0)
        (before ++ [if conn.marked (arrivals received) then conn.cleared 0 else conn 0]) rest

/-- A pass has received from each connection with something to read once, from
nobody else, and has looked at no slot that is not in the set. -/
structure HandlesOnce (conns : List Conn) (log : List ServerEvent) : Prop where
  inRange : InRange log
  received : (receivedFds log).Perm ((conns.filter Conn.readable).map Conn.fd)

/-- The pass ends, and that is what it has done. A lookup that finds nothing would
be the end of the program. -/
def PassHandlesOnce {σ : Type} (rt : Runtime) (cfg : ServerConfig σ) (dataAddr : Nat)
    (arrivals : Nat → Arrival σ) (set : ConnSet) (conns : List Conn) : Prop :=
  ∃ fuel set' log, pollLoop rt cfg dataAddr arrivals set.len fuel 0 0 set = .ok (set', log) ∧
    HandlesOnce conns log

section Pass

variable {σ : Type} {rt : Runtime} {cfg : ServerConfig σ} {dataAddr : Nat}
  {arrivals : Nat → Arrival σ} {endSlot received : Nat} {shape : SetShape 4} {set : ConnSet}
  {kept rest : List Conn} {conn : Conn}

theorem DistinctFds.replace {other : Conn} (h : DistinctFds (kept ++ conn :: rest))
    (hfd : other.fd = conn.fd) : DistinctFds (kept ++ other :: rest) := by
  unfold DistinctFds at h ⊢
  rwa [List.map_append, List.map_cons, hfd, ← List.map_cons, ← List.map_append]

theorem pollfdsAt_append : pollfdsAt (kept ++ conn :: rest) kept.length conn =
    kept.map (fun other => other 0) ++ conn.cleared 0 :: rest.map fun other => other 0 := by
  unfold pollfdsAt
  simp

/-- Cleared events are not seen again. -/
theorem Conn.quiet_of_cleared {other : Conn} (hlen : (conn 0).length = 8)
    (hsame : other 0 = conn.cleared 0) : other.readable = false ∧ other.flagged = false := by
  have hrevents : other.revents = 0 := by
    unfold revents
    rw [hsame]
    unfold cleared
    rw [Function.update_self, List.drop_append_of_le_length (by rw [List.length_take]; omega),
      List.drop_of_length_le (by rw [List.length_take]; omega)]
    rfl
  unfold readable flagged
  rw [hrevents]
  decide

theorem Conn.fd_of_pollfd {other : Conn} {marked : Bool} (hlen : (conn 0).length = 8)
    (hsame : other 0 = if marked then conn.cleared 0 else conn 0) : other.fd = conn.fd := by
  cases marked with
  | false => exact fd_congr hsame
  | true => exact (fd_congr hsame).trans (fd_cleared hlen)

/-- A result with the log of what came in front of it. -/
def behind (log : List ServerEvent) (result : ConnSet × List ServerEvent) :
    ConnSet × List ServerEvent := (result.1, log ++ result.2)

theorem map_behind_behind (result : Except Stop (ConnSet × List ServerEvent))
    (log more : List ServerEvent) :
    (result.map (behind more)).map (behind log) = result.map (behind (log ++ more)) := by
  cases result with
  | error stop => rfl
  | ok result =>
    apply congrArg Except.ok
    unfold behind
    rw [List.append_assoc]

/-- A round that returns. -/
theorem pollLoop_round {slot : Nat} {set' : ConnSet} {log : List ServerEvent} {again : Bool}
    (hslot : slot < endSlot)
    (hround : handleConn rt cfg dataAddr (arrivals received) set slot = .ok (set', log, again))
    (fuel : Nat) :
    pollLoop rt cfg dataAddr arrivals endSlot (fuel + 1) slot received set =
      (pollLoop rt cfg dataAddr arrivals endSlot fuel (if again then slot else slot + 1)
        (received + (receivedFds log).length) set').map (behind (.visited slot set.len :: log)) := by
  rw [pollLoop, if_pos hslot, hround]
  rfl

/-- One round for a connection that stays. -/
theorem pollLoop_stays (h : HoldsConns shape set (kept ++ conn :: rest))
    (hdistinct : DistinctFds (kept ++ conn :: rest)) (hend : kept.length < endSlot)
    (hreceives : conn.readable = true → ∃ res, Receives rt cfg conn.fd (arrivals received) res)
    (hstays : conn.Stays rt cfg (arrivals received) (pointerBytes dataAddr kept.length)
      (kept.map (fun other => other 0) ++ conn.cleared 0 :: rest.map fun other => other 0)) :
    ∃ set' log conn', HoldsConns shape set' (kept ++ conn' :: rest) ∧
      conn' 0 = (if conn.marked (arrivals received) then conn.cleared 0 else conn 0) ∧
      InRange log ∧ receivedFds log = (if conn.readable then [conn.fd] else []) ∧
      ∀ fuel, pollLoop rt cfg dataAddr arrivals endSlot (fuel + 1) kept.length received set =
        (pollLoop rt cfg dataAddr arrivals endSlot fuel
          (if conn.marked (arrivals received) then kept.length else kept.length + 1)
          (received + if conn.readable then 1 else 0) set').map (behind log) := by
  have hslot : kept.length < (kept ++ conn :: rest).length := by simp
  have hget : (kept ++ conn :: rest)[kept.length] = conn := by simp
  have hstays' : (kept ++ conn :: rest)[kept.length].Stays rt cfg (arrivals received)
      (pointerBytes dataAddr kept.length)
      (pollfdsAt (kept ++ conn :: rest) kept.length (kept ++ conn :: rest)[kept.length]) := by
    rwa [hget, pollfdsAt_append]
  obtain ⟨set', log, conn', hround, hset', hsame⟩ :=
    handleConn_stays h hdistinct hslot (by rwa [hget]) hstays'
  rw [hget] at hround hsame
  rw [List.set_append_right _ _ le_rfl, Nat.sub_self, List.set_cons_zero] at hset'
  obtain ⟨fd, revents, hfd, hrevents, hpasses⟩ := handleConn_passes hround
  rw [h.loadFd hslot, hget] at hfd
  rw [h.loadRevents hslot, hget] at hrevents
  cases Except.ok.inj hfd
  cases Except.ok.inj hrevents
  have hreceived : receivedFds log = if conn.readable then [conn.fd] else [] := by
    rw [hpasses.received_eq]
    unfold Conn.readable
    simp
  refine ⟨set', .visited kept.length set.len :: log, conn', hset', hsame, ?_, hreceived, ?_⟩
  · apply inRange_visited.mpr
    rw [h.len_eq]
    exact ⟨hslot, inRange_of_quiet hpasses.quiet⟩
  · intro fuel
    rw [pollLoop_round hend hround, hreceived]
    cases conn.readable <;> rfl

/-- A slot whose connection stays takes one round, or two if an attempt to remove
it was made. -/
theorem pollLoop_slot (h : HoldsConns shape set (kept ++ conn :: rest))
    (hdistinct : DistinctFds (kept ++ conn :: rest)) (hend : kept.length < endSlot)
    (hreceives : conn.readable = true → ∃ res, Receives rt cfg conn.fd (arrivals received) res)
    (hstays : conn.Stays rt cfg (arrivals received) (pointerBytes dataAddr kept.length)
      (kept.map (fun other => other 0) ++ conn.cleared 0 :: rest.map fun other => other 0)) :
    ∃ set' log conn' rounds, HoldsConns shape set' (kept ++ conn' :: rest) ∧
      conn' 0 = (if conn.marked (arrivals received) then conn.cleared 0 else conn 0) ∧
      InRange log ∧ receivedFds log = (if conn.readable then [conn.fd] else []) ∧
      ∀ fuel, pollLoop rt cfg dataAddr arrivals endSlot (fuel + rounds) kept.length received set =
        (pollLoop rt cfg dataAddr arrivals endSlot fuel (kept.length + 1)
          (received + if conn.readable then 1 else 0) set').map (behind log) := by
  obtain ⟨set₁, log₁, conn₁, hset₁, hsame, hrange, hreceived, hround⟩ :=
    pollLoop_stays h hdistinct hend hreceives hstays
  cases hmark : conn.marked (arrivals received) with
  | false =>
    rw [hmark] at hsame hround
    exact ⟨set₁, log₁, conn₁, 1, hset₁, hsame, hrange, hreceived, hround⟩
  | true =>
    rw [hmark] at hsame hround
    have hlen : (conn 0).length = 8 := h.length_pollfd (by simp)
    have hquiet := Conn.quiet_of_cleared hlen hsame
    have hfd : conn₁.fd = conn.fd := (Conn.fd_congr hsame).trans (Conn.fd_cleared hlen)
    have hunmarked (arrival : Arrival σ) : conn₁.marked arrival = false := by
      unfold Conn.marked
      rw [hquiet.1, hquiet.2]
      rfl
    have hstays₁ : conn₁.Stays rt cfg (arrivals (received + if conn.readable then 1 else 0))
        (pointerBytes dataAddr kept.length)
        (kept.map (fun other => other 0) ++ conn₁.cleared 0 :: rest.map fun other => other 0) := by
      unfold Conn.Stays
      rw [hquiet.1, hunmarked]
      simp
    obtain ⟨set₂, log₂, conn₂, hset₂, hsame₂, hrange₂, hreceived₂, hround₂⟩ :=
      pollLoop_stays hset₁ (hdistinct.replace hfd) hend (by simp [hquiet.1]) hstays₁
    rw [hunmarked] at hsame₂ hround₂
    rw [hquiet.1] at hreceived₂ hround₂
    refine ⟨set₂, log₁ ++ log₂, conn₂, 2, hset₂, hsame₂.trans hsame, ?_, ?_, ?_⟩
    · exact inRange_append.mpr ⟨hrange, hrange₂⟩
    · rw [receivedFds_append, hreceived, hreceived₂]
      exact List.append_nil _
    · intro fuel
      rw [hround (fuel + 1), ← map_behind_behind]
      exact congrArg (Except.map (behind log₁)) (hround₂ fuel)

/-- The rest of a pass in which nothing is removed. -/
theorem pollLoop_undisturbed (h : HoldsConns shape set (kept ++ rest))
    (hdistinct : DistinctFds (kept ++ rest)) (hend : endSlot = kept.length + rest.length)
    (hreceives : ∀ k, ∀ conn ∈ rest, conn.readable = true →
      ∃ res, Receives rt cfg conn.fd (arrivals k) res)
    (hstays : Undisturbed rt cfg dataAddr arrivals received (kept.map fun other => other 0) rest) :
    ∃ fuel set' log, pollLoop rt cfg dataAddr arrivals endSlot fuel kept.length received set =
        .ok (set', log) ∧
      InRange log ∧ receivedFds log = (rest.filter Conn.readable).map Conn.fd := by
  induction rest generalizing set kept received with
  | nil => exact ⟨0, set, [], by simp [pollLoop, hend], by simp [InRange], rfl⟩
  | cons conn rest ih =>
    rw [Undisturbed, List.length_map] at hstays
    rw [List.length_cons] at hend
    have hlive : kept.length < endSlot := by omega
    obtain ⟨set₁, log₁, conn₁, rounds, hset₁, hsame, hrange₁, hreceived₁, hslot⟩ :=
      pollLoop_slot h hdistinct hlive (hreceives received conn List.mem_cons_self) hstays.1
    have hfd : conn₁.fd = conn.fd := Conn.fd_of_pollfd (h.length_pollfd (by simp)) hsame
    have hsplit : kept ++ conn₁ :: rest = (kept ++ [conn₁]) ++ rest := by simp
    have hdistinct₁ := hdistinct.replace hfd
    rw [hsplit] at hset₁ hdistinct₁
    have hrest := hstays.2
    rw [← hsame] at hrest
    obtain ⟨fuel, set', log, hloop, hrange, hreceived⟩ :=
      ih hset₁ hdistinct₁ (by simp; omega)
        (fun k other hother => hreceives k other (List.mem_cons_of_mem _ hother))
        (by simpa using hrest)
    rw [List.length_append, List.length_singleton] at hloop
    refine ⟨fuel + rounds, set', log₁ ++ log, ?_, inRange_append.mpr ⟨hrange₁, hrange⟩, ?_⟩
    · rw [hslot fuel, hloop]
      rfl
    · rw [receivedFds_append, hreceived₁, hreceived, List.filter_cons]
      cases conn.readable <;> rfl

theorem map_behind_eq_ok {result : Except Stop (ConnSet × List ServerEvent)}
    {log logs : List ServerEvent} {set' : ConnSet}
    (h : result.map (behind log) = .ok (set', logs)) :
    ∃ more, result = .ok (set', more) ∧ logs = log ++ more := by
  cases result with
  | error stop => contradiction
  | ok result =>
    cases Except.ok.inj h
    exact ⟨result.2, rfl, rfl⟩

/-- The rest of a pass in which something is removed. -/
theorem pollLoop_disturbed (h : HoldsConns shape set (kept ++ rest))
    (hdistinct : DistinctFds (kept ++ rest)) (hend : endSlot = kept.length + rest.length)
    (hreceives : ∀ k, ∀ conn ∈ rest, conn.readable = true →
      ∃ res, Receives rt cfg conn.fd (arrivals k) res)
    (hremoves : ¬ Undisturbed rt cfg dataAddr arrivals received
      (kept.map fun other => other 0) rest) {fuel : Nat} {set' : ConnSet} {log : List ServerEvent}
    (hloop : pollLoop rt cfg dataAddr arrivals endSlot fuel kept.length received set =
      .ok (set', log)) : ¬ InRange log := by
  induction rest generalizing set kept received set' log with
  | nil => exact absurd trivial hremoves
  | cons conn rest ih =>
    rw [Undisturbed, List.length_map] at hremoves
    rw [List.length_cons] at hend
    have hlive : kept.length < endSlot := by omega
    have hreceive := hreceives received conn List.mem_cons_self
    have hslot : kept.length < (kept ++ conn :: rest).length := by simp
    have hget : (kept ++ conn :: rest)[kept.length] = conn := by simp
    by_cases hstays : conn.Stays rt cfg (arrivals received) (pointerBytes dataAddr kept.length)
        (kept.map (fun other => other 0) ++ conn.cleared 0 :: rest.map fun other => other 0)
    · obtain ⟨set₁, log₁, conn₁, rounds, hset₁, hsame, -, -, hround⟩ :=
        pollLoop_slot h hdistinct hlive hreceive hstays
      have hfd : conn₁.fd = conn.fd := Conn.fd_of_pollfd (h.length_pollfd (by simp)) hsame
      have hsplit : kept ++ conn₁ :: rest = (kept ++ [conn₁]) ++ rest := by simp
      have hdistinct₁ := hdistinct.replace hfd
      rw [hsplit] at hset₁ hdistinct₁
      have hmore := pollLoop_mono hloop rounds
      rw [hround fuel] at hmore
      obtain ⟨more, hrest, rfl⟩ := map_behind_eq_ok hmore
      intro hrange
      refine ih hset₁ hdistinct₁ (by simp; omega)
        (fun k other hother => hreceives k other (List.mem_cons_of_mem _ hother)) ?_
        (by rwa [List.length_append, List.length_singleton]) (inRange_append.mp hrange).2
      intro hrest
      apply hremoves
      rw [← hsame]
      exact ⟨hstays, by simpa using hrest⟩
    · have hstays' : ¬ (kept ++ conn :: rest)[kept.length].Stays rt cfg (arrivals received)
          (pointerBytes dataAddr kept.length)
          (pollfdsAt (kept ++ conn :: rest) kept.length (kept ++ conn :: rest)[kept.length]) := by
        rwa [hget, pollfdsAt_append]
      obtain ⟨set₁, log₁, hround, hfewer⟩ :=
        handleConn_removes h hdistinct hslot (by rwa [hget]) hstays'
      rw [List.length_append, List.length_cons] at hfewer
      have hmore := pollLoop_mono hloop 1
      rw [pollLoop_round hlive hround fuel] at hmore
      obtain ⟨more, hrest, rfl⟩ := map_behind_eq_ok hmore
      intro hrange
      have hbehind := (inRange_append.mp hrange).2
      exact pollLoop_late hlive (by omega) hrest hbehind

/-- A pass handles every connection once if and only if nothing is removed in it:
the end is the one in front of the pass. -/
theorem poll_exact_iff {conns : List Conn} (h : HoldsConns shape set conns)
    (hdistinct : DistinctFds conns)
    (hreceives : ∀ k, ∀ conn ∈ conns, conn.readable = true →
      ∃ res, Receives rt cfg conn.fd (arrivals k) res) :
    PassHandlesOnce rt cfg dataAddr arrivals set conns ↔
      Undisturbed rt cfg dataAddr arrivals 0 [] conns := by
  have hstart : HoldsConns shape set ([] ++ conns) := h
  have hend : set.len = ([] : List Conn).length + conns.length := by
    rw [h.len_eq, List.length_nil, Nat.zero_add]
  constructor
  · rintro ⟨fuel, set', log, hloop, honce⟩
    by_contra hremoves
    exact pollLoop_disturbed hstart hdistinct hend hreceives hremoves hloop honce.inRange
  · intro hstays
    obtain ⟨fuel, set', log, hloop, hrange, hreceived⟩ :=
      pollLoop_undisturbed hstart hdistinct hend hreceives hstays
    exact ⟨fuel, set', log, hloop, hrange, List.Perm.of_eq hreceived⟩

end Pass

/-- The peer has closed the connection. -/
def peerClosed : Arrival Unit := ⟨(), [], [⟨.ready (.only true false), 0⟩], false, 7⟩

def twoReadable : List Conn := [localConn 5 pollin 0 (-1), localConn 6 pollin 0 (-1)]

theorem twoReadable_holds : HoldsConns fourConns (fourConns.pack twoReadable) twoReadable :=
  fourConns_holds (by decide) (by decide)

/-- Both connections send a byte. -/
theorem poll_exact_twoReadable :
    PassHandlesOnce .unlimited smallServer (2 ^ 46) (fun _ => oneByte) (fourConns.pack twoReadable)
        twoReadable ↔
      Undisturbed .unlimited smallServer (2 ^ 46) (fun _ => oneByte) 0 [] twoReadable := by
  have hfds : ∀ conn ∈ twoReadable, conn.fd = 5 ∨ conn.fd = 6 := by decide +kernel
  have hdistinct : DistinctFds twoReadable := by decide +kernel
  exact poll_exact_iff twoReadable_holds hdistinct fun _ conn hconn _ =>
    oneByte_receives conn.fd (hfds conn hconn)

/-- The first connection is closed by the peer. The second one is received from in
its new slot, and then in the old one. -/
theorem poll_receives_twice : ¬ PassHandlesOnce .unlimited smallServer (2 ^ 46)
    (fun k => if k = 0 then peerClosed else oneByte) (fourConns.pack twoReadable) twoReadable := by
  have hfds : (pollLoop .unlimited smallServer (2 ^ 46)
      (fun k => if k = 0 then peerClosed else oneByte) (fourConns.pack twoReadable).len 3 0 0
      (fourConns.pack twoReadable)).map (fun result => receivedFds result.2) = .ok [5, 6, 6] := by
    decide +kernel
  rintro ⟨fuel, set', log, hloop, honce⟩
  cases hthree : pollLoop .unlimited smallServer (2 ^ 46)
      (fun k => if k = 0 then peerClosed else oneByte) (fourConns.pack twoReadable).len 3 0 0
      (fourConns.pack twoReadable) with
  | error stop =>
    rw [hthree] at hfds
    contradiction
  | ok result =>
    rw [hthree] at hfds
    have hlong := pollLoop_mono hloop 3
    have hsame := pollLoop_mono hthree fuel
    rw [Nat.add_comm, hsame] at hlong
    cases Except.ok.inj hlong
    have hfds' : receivedFds log = [5, 6, 6] := Except.ok.inj hfds
    have hperm := honce.received
    rw [hfds'] at hperm
    exact absurd hperm (by decide +kernel)

end Net77
