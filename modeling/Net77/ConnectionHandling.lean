import Net77.Connections
import Net77.SocketOwnership

/-! What the body of the poll loop does to the connection in its slot. -/
namespace Net77

open Net77.Base

/-- The calls on descriptors in a log. -/
def socketCalls (log : List ServerEvent) : List SocketCall :=
  log.filterMap fun event => match event with
    | .socket call => some call
    | _ => none

section Log

variable {log more : List ServerEvent}

@[simp] theorem socketCalls_append : socketCalls (log ++ more) = socketCalls log ++ socketCalls more :=
  List.filterMap_append

@[simp] theorem socketCalls_received (fd : Int) :
    socketCalls (.received fd :: log) = socketCalls log := rfl

@[simp] theorem socketCalls_socket (calls : List SocketCall) :
    socketCalls (calls.map .socket) = calls := by
  unfold socketCalls
  rw [List.filterMap_map]
  exact List.filterMap_some

/-- At most one string is handed over. -/
theorem dispatchConn_log {σ : Type} {rt : Runtime} {cfg : ServerConfig σ} {fd : Int}
    {connWasClosed : Bool} {res : RecvResult}
    (h : dispatchConn rt cfg fd connWasClosed res = .ok log) :
    log = [] ∨ ∃ str, log = [.dispatched fd connWasClosed str] := by
  unfold dispatchConn at h
  split at h
  · cases Except.ok.inj h
    exact .inl rfl
  · obtain ⟨built, -, h⟩ := bind_eq_ok.mp h
    dsimp only at h
    split at h
    · simp at h
    · cases Except.ok.inj h
      exact .inr ⟨_, rfl⟩

end Log

section Branches

variable {σ : Type} {rt : Runtime} {cfg : ServerConfig σ} {dataAddr : Nat} {arrival : Arrival σ}
  {shape : SetShape 4} {set : ConnSet} {conns : List Conn} {slot : Nat} {fd : Int}
  {res : RecvResult} {dispatched : List ServerEvent}

/-- An ended connection is removed through the pointer to its slot. -/
theorem noteReception_ends (h : HoldsConns shape set conns) (hdistinct : DistinctFds conns)
    (hslot : slot < conns.length) (fd : Int) (time : Nat) (hends : endsConn res = true) :
    ∃ set', noteReception set slot fd time res =
        .ok (set', if 0 < res.status then [.closed fd] else [], true) ∧
      HoldsConns shape set' (conns.eraseIdx slot) := by
  obtain ⟨set₁, hclear, hset₁⟩ := h.clear hslot
  obtain ⟨set', hremove, hset', -⟩ :=
    hset₁.removeSlot (h.distinct_clear hdistinct hslot) (by rwa [List.length_set])
  rw [List.eraseIdx_set_eq] at hset'
  refine ⟨set', ?_, hset'⟩
  unfold noteReception
  rw [if_pos hends, hclear, ok_bind, hremove, ok_bind]
  simp

/-- Another one has its last-use time reset. -/
theorem noteReception_keeps (h : HoldsConns shape set conns) (hdistinct : DistinctFds conns)
    (hslot : slot < conns.length) (fd : Int) (time : Nat) (hends : endsConn res = false) :
    ∃ set', noteReception set slot fd time res = .ok (set', [], false) ∧
      HoldsConns shape set' (conns.set slot (conns[slot].used time)) := by
  have hopen : res.closedSock = false := by
    unfold endsConn at hends
    simp at hends
    exact hends.2.1
  obtain ⟨set', hstore, hset'⟩ := h.use hslot time
  refine ⟨set', ?_, hset'⟩
  unfold noteReception
  rw [if_neg (by rw [hends]; decide), h.lookup hdistinct hslot, ok_bind]
  dsimp only
  rw [hstore, hopen]
  rfl

theorem receiveConn_ends (h : HoldsConns shape set conns) (hdistinct : DistinctFds conns)
    (hslot : slot < conns.length) (dataAddr : Nat)
    (hrecv : receive rt cfg fd arrival = .ok res)
    (hdisp : dispatchConn rt cfg fd (endsConn res) res = .ok dispatched)
    (hends : endsConn res = true) :
    ∃ set', receiveConn rt cfg dataAddr set slot fd arrival = .ok (set', .received fd ::
        (res.calls ++ if 0 < res.status then [SocketCall.closed fd] else []).map .socket ++
          dispatched, true) ∧
      HoldsConns shape set' (conns.eraseIdx slot) := by
  obtain ⟨set', hnote, hset'⟩ := noteReception_ends h hdistinct hslot fd arrival.time hends
  refine ⟨set', ?_, hset'⟩
  rw [hends] at hdisp
  unfold receiveConn
  rw [hrecv, ok_bind, hnote, ok_bind]
  dsimp only
  rw [hdisp, ok_bind]
  simp

/-- The connection goes on, unless the handler discards it. -/
theorem receiveConn_keeps (h : HoldsConns shape set conns) (hdistinct : DistinctFds conns)
    (hslot : slot < conns.length) (dataAddr : Nat)
    (hrecv : receive rt cfg fd arrival = .ok res)
    (hdisp : dispatchConn rt cfg fd (endsConn res) res = .ok dispatched)
    (hends : endsConn res = false) :
    ∃ set₁, HoldsConns shape set₁ (conns.set slot (conns[slot].used arrival.time)) ∧
      receiveConn rt cfg dataAddr set slot fd arrival =
        if arrival.discard then do
          let (set', found) ← removeFinished dataAddr set₁ slot
          pure (set', .received fd :: res.calls.map .socket ++ dispatched ++
            if found then [.socket (.closed fd)] else [], true)
        else .ok (set₁, .received fd :: res.calls.map .socket ++ dispatched, false) := by
  obtain ⟨set₁, hnote, hset₁⟩ := noteReception_keeps h hdistinct hslot fd arrival.time hends
  refine ⟨set₁, hset₁, ?_⟩
  rw [hends] at hdisp
  unfold receiveConn
  rw [hrecv, ok_bind, hnote, ok_bind]
  dsimp only
  rw [hdisp, ok_bind]
  simp

/-- The flags that end a connection without a reception. -/
def Conn.flagged (conn : Conn) : Bool :=
  conn.revents &&& (pollerr ||| pollhup) ≠ 0 ∨ conn.revents &&& pollnval ≠ 0

theorem finishConn_eq (h : HoldsConns shape set conns) (hslot : slot < conns.length)
    (dataAddr : Nat) (fd : Int) :
    finishConn dataAddr set slot fd =
      if conns[slot].flagged then do
        let (set', found) ← removeFinished dataAddr set slot
        pure (set', if conns[slot].revents &&& (pollerr ||| pollhup) ≠ 0 then
            (if found then [.socket (.closed fd)] else [])
          else [.socket (.invalid fd)], true)
      else .ok (set, [], false) := by
  unfold finishConn Conn.flagged
  rw [h.loadRevents hslot, ok_bind]
  by_cases herr : conns[slot].revents &&& (pollerr ||| pollhup) ≠ 0
  · simp [herr]
  · by_cases hnval : conns[slot].revents &&& pollnval ≠ 0
    · simp [herr, hnval]
    · simp [herr, hnval]

end Branches

/-- How an entry is left behind: it is in the set as long as its descriptor is
open, and a connection that has an error, a hang-up or no descriptor, or that the
handler discards, is gone, with its descriptor closed once. -/
structure WellHandled (conn : Conn) (asked : Bool) (conns : List Conn) (calls : List SocketCall) :
    Prop where
  inStep : (∃ other ∈ conns, other.fd = conn.fd) ↔ .closed conn.fd ∉ calls ∧ .invalid conn.fd ∉ calls
  finished : conn.flagged = true ∨ asked = true →
    (¬ ∃ other ∈ conns, other.fd = conn.fd) ∧
      (.invalid conn.fd ∉ calls → calls.count (.closed conn.fd) = 1)

section Handled

variable {conn : Conn} {asked : Bool} {conns : List Conn} {calls : List SocketCall}

theorem WellHandled.of_used {time : Nat} :
    WellHandled (conn.used time) asked conns calls ↔ WellHandled conn asked conns calls :=
  ⟨fun h => ⟨h.inStep, h.finished⟩, fun h => ⟨h.inStep, h.finished⟩⟩

theorem WellHandled.of_gone (hgone : ¬ ∃ other ∈ conns, other.fd = conn.fd)
    (hcalls : Disposed conn.fd calls) : WellHandled conn asked conns calls := by
  rcases hcalls with rfl | rfl
  · exact ⟨iff_of_false hgone (by simp), fun _ => ⟨hgone, fun _ => by simp⟩⟩
  · exact ⟨iff_of_false hgone (by simp), fun _ => ⟨hgone, fun hvalid => absurd (by simp) hvalid⟩⟩

theorem WellHandled.of_kept (hkept : ∃ other ∈ conns, other.fd = conn.fd)
    (hflagged : conn.flagged = false) (hasked : asked = false) : WellHandled conn asked conns [] := by
  refine ⟨iff_of_true hkept (by simp), ?_⟩
  rintro (hflag | hask)
  · rw [hflagged] at hflag
    contradiction
  · rw [hasked] at hask
    contradiction

theorem not_wellHandled_of_leaked (hgone : ¬ ∃ other ∈ conns, other.fd = conn.fd) :
    ¬ WellHandled conn asked conns [] := by
  intro h
  exact hgone (h.inStep.mpr (by simp))

theorem not_wellHandled_of_kept (hkept : ∃ other ∈ conns, other.fd = conn.fd)
    (hfinished : conn.flagged = true ∨ asked = true) : ¬ WellHandled conn asked conns calls := by
  intro h
  exact (h.finished hfinished).1 hkept

end Handled

section Removal

variable {conns : List Conn} {slot : Nat}

theorem DistinctFds.gone (h : DistinctFds conns) (hslot : slot < conns.length) :
    ¬ ∃ other ∈ conns.eraseIdx slot, other.fd = conns[slot].fd := by
  rintro ⟨other, hother, hfd⟩
  obtain ⟨i, hne, hi⟩ := List.mem_eraseIdx_iff_getElem?.mp hother
  obtain ⟨hlen, rfl⟩ := List.getElem?_eq_some_iff.mp hi
  exact h.fd_ne hlen hslot hne hfd

variable {shape : SetShape 4} {set : ConnSet}

/-- The attempt to remove an entry through the pointer itself works if the bytes of
the entry happen to be those of the pointer, and leaves the entry otherwise. -/
theorem HoldsConns.attempt (h : HoldsConns shape set conns) (hdistinct : DistinctFds conns)
    (hslot : slot < conns.length) (dataAddr : Nat) :
    ∃ set' found conns', Net77.removeFinished dataAddr set slot = .ok (set', found) ∧
      HoldsConns shape set' conns' ∧
      (conns[slot].cleared 0 = pointerBytes dataAddr slot →
        found = true ∧ conns' = conns.eraseIdx slot) ∧
      (conns[slot].cleared 0 ≠ pointerBytes dataAddr slot →
        ∃ other ∈ conns', other.fd = conns[slot].fd) := by
  obtain ⟨set', hremove, hset'⟩ := h.removeFinished hslot dataAddr
  have hcleared : slot < (conns.set slot conns[slot].cleared).length := by rwa [List.length_set]
  have hget : (conns.set slot conns[slot].cleared)[slot] = conns[slot].cleared :=
    List.getElem_set_self _
  have hmem : conns[slot].cleared ∈ conns.set slot conns[slot].cleared :=
    List.mem_set hslot _
  refine ⟨set', _, _, hremove, hset', ?_, ?_⟩
  · intro hsame
    have hfind := (h.distinct_clear hdistinct hslot).findIdx?_pollfd hcleared
    rw [hget, hsame] at hfind
    unfold removeTuple
    rw [if_pos ⟨_, hmem, hsame⟩, List.eraseP_eq_eraseIdx, hfind]
    exact ⟨rfl, List.eraseIdx_set_eq⟩
  · intro hother
    refine ⟨conns[slot].cleared, ?_, Conn.fd_cleared (h.length_pollfd (List.getElem_mem hslot))⟩
    unfold removeTuple
    split
    · exact (List.mem_eraseP_of_neg (by simpa using hother)).mpr hmem
    · exact hmem

end Removal

/-- `poll` reports something to read. -/
def Conn.readable (conn : Conn) : Bool := conn.revents &&& pollin ≠ 0

section Body

variable {σ : Type} {rt : Runtime} {cfg : ServerConfig σ} {dataAddr : Nat} {arrival : Arrival σ}
  {shape : SetShape 4} {set : ConnSet} {conns : List Conn} {slot : Nat} {res : RecvResult}

/-- The reception returns, and the handler gets its string. -/
def Receives (rt : Runtime) (cfg : ServerConfig σ) (fd : Int) (arrival : Arrival σ)
    (res : RecvResult) : Prop :=
  receive rt cfg fd arrival = .ok res ∧
    ∃ dispatched, dispatchConn rt cfg fd (endsConn res) res = .ok dispatched

/-- A reception that ends the connection says so by its status or by the closed
flag. Otherwise, to be rid of a connection, its bytes have to be those of the
pointer to its slot. -/
def DisposesRight (dataAddr slot : Nat) (conn : Conn) (arrival : Arrival σ) (res : RecvResult) :
    Prop :=
  if conn.readable && endsConn res then res.status ≠ 0 ∨ res.closedSock = true
  else (conn.readable && arrival.discard) = true ∨ conn.flagged = true →
    conn.cleared 0 = pointerBytes dataAddr slot

theorem receive_reports {fd : Int} (h : receive rt cfg fd arrival = .ok res) :
    Reports fd res.status res.closedSock res.calls := by
  obtain ⟨builder, -, h⟩ := bind_eq_ok.mp h
  exact recvAllData_reports h

theorem receive_kept {fd : Int} (h : receive rt cfg fd arrival = .ok res)
    (hends : endsConn res = false) : res.calls = [] := by
  apply ((receive_reports h).kept ?_).1
  unfold endsConn at hends
  simp at hends
  exact hends.2.1

/-- The branches for the flags. -/
theorem finishConn_well (h : HoldsConns shape set conns) (hdistinct : DistinctFds conns)
    (hslot : slot < conns.length) (dataAddr : Nat) :
    ∃ set' log again conns', finishConn dataAddr set slot conns[slot].fd = .ok (set', log, again) ∧
      HoldsConns shape set' conns' ∧
      (WellHandled conns[slot] false conns' (socketCalls log) ↔
        (conns[slot].flagged = true → conns[slot].cleared 0 = pointerBytes dataAddr slot)) := by
  rw [finishConn_eq h hslot dataAddr conns[slot].fd]
  cases hflag : conns[slot].flagged with
  | false =>
    refine ⟨set, [], false, conns, rfl, h, ?_⟩
    apply iff_of_true
    · exact .of_kept ⟨_, List.getElem_mem hslot, rfl⟩ hflag rfl
    · intro hset
      contradiction
  | true =>
    obtain ⟨set', found, conns', hremove, hset', hown, hother⟩ := h.attempt hdistinct hslot dataAddr
    rw [if_pos rfl, hremove]
    refine ⟨set', _, true, conns', rfl, hset', ?_⟩
    by_cases hsame : conns[slot].cleared 0 = pointerBytes dataAddr slot
    · obtain ⟨rfl, rfl⟩ := hown hsame
      apply iff_of_true _ fun _ => hsame
      apply WellHandled.of_gone (hdistinct.gone hslot)
      split
      · exact .inl rfl
      · exact .inr rfl
    · apply iff_of_false
      · exact not_wellHandled_of_kept (hother hsame) (.inl hflag)
      · intro hright
        exact hsame (hright rfl)

/-- The body ends with the reception. -/
theorem handleConn_closed (h : HoldsConns shape set conns) (hslot : slot < conns.length)
    (hreadable : conns[slot].readable = true) {set' : ConnSet} {log : List ServerEvent}
    (hreceive : receiveConn rt cfg dataAddr set slot conns[slot].fd arrival =
      .ok (set', log, true)) :
    handleConn rt cfg dataAddr arrival set slot = .ok (set', log, true) := by
  unfold handleConn
  rw [h.loadFd hslot, ok_bind, h.loadRevents hslot, ok_bind,
    if_pos (by simpa [Conn.readable] using hreadable), hreceive]
  rfl

/-- The body goes on behind the reception. -/
theorem handleConn_open (h : HoldsConns shape set conns) (hslot : slot < conns.length)
    (hreadable : conns[slot].readable = true) {set₁ set' : ConnSet} {log more : List ServerEvent}
    {again : Bool} (hreceive : receiveConn rt cfg dataAddr set slot conns[slot].fd arrival =
      .ok (set₁, log, false))
    (hfinish : finishConn dataAddr set₁ slot conns[slot].fd = .ok (set', more, again)) :
    handleConn rt cfg dataAddr arrival set slot = .ok (set', log ++ more, again) := by
  unfold handleConn
  rw [h.loadFd hslot, ok_bind, h.loadRevents hslot, ok_bind,
    if_pos (by simpa [Conn.readable] using hreadable), hreceive, ok_bind]
  dsimp only
  rw [if_neg (by decide), hfinish]
  rfl

/-- The body without a reception. -/
theorem handleConn_idle (h : HoldsConns shape set conns) (hslot : slot < conns.length)
    (hreadable : conns[slot].readable = false) {set' : ConnSet} {more : List ServerEvent}
    {again : Bool}
    (hfinish : finishConn dataAddr set slot conns[slot].fd = .ok (set', more, again)) :
    handleConn rt cfg dataAddr arrival set slot = .ok (set', more, again) := by
  unfold handleConn
  rw [h.loadFd hslot, ok_bind, h.loadRevents hslot, ok_bind,
    if_neg (by simpa [Conn.readable] using hreadable), pure_eq_ok, ok_bind]
  dsimp only
  rw [if_neg (by decide), hfinish]
  rfl

theorem disposesRight_ended {conn : Conn} (hreadable : conn.readable = true)
    (hends : endsConn res = true) : DisposesRight dataAddr slot conn arrival res ↔
      (res.status ≠ 0 ∨ res.closedSock = true) := by
  unfold DisposesRight
  rw [hreadable, hends]
  exact Iff.rfl

theorem disposesRight_open {conn : Conn} (hreadable : conn.readable = true)
    (hends : endsConn res = false) : DisposesRight dataAddr slot conn arrival res ↔
      (arrival.discard = true ∨ conn.flagged = true → conn.cleared 0 = pointerBytes dataAddr slot) := by
  unfold DisposesRight
  rw [hreadable, hends]
  exact Iff.rfl

/-- A reception that ends the connection. -/
theorem handleConn_ended (h : HoldsConns shape set conns) (hdistinct : DistinctFds conns)
    (hslot : slot < conns.length) (hrecv : receive rt cfg conns[slot].fd arrival = .ok res)
    {dispatched : List ServerEvent}
    (hdisp : dispatchConn rt cfg conns[slot].fd (endsConn res) res = .ok dispatched)
    (hquiet : socketCalls dispatched = []) (hreadable : conns[slot].readable = true)
    (hends : endsConn res = true) :
    ∃ set' log again conns', handleConn rt cfg dataAddr arrival set slot = .ok (set', log, again) ∧
      HoldsConns shape set' conns' ∧
      (WellHandled conns[slot] arrival.discard conns' (socketCalls log) ↔
        (res.status ≠ 0 ∨ res.closedSock = true)) := by
  obtain ⟨set', hreceive, hset'⟩ := receiveConn_ends h hdistinct hslot dataAddr hrecv hdisp hends
  have hgone := hdistinct.gone hslot
  have hreports := receive_reports hrecv
  refine ⟨set', _, true, _, handleConn_closed h hslot hreadable hreceive, hset', ?_⟩
  simp only [List.cons_append, socketCalls_received, socketCalls_append, socketCalls_socket, hquiet,
    List.append_nil]
  cases hclosed : res.closedSock with
  | true =>
    obtain ⟨hdisposed, hstatus⟩ := hreports.disposed hclosed
    rw [if_neg (by omega), List.append_nil]
    exact iff_of_true (.of_gone hgone hdisposed) (.inr rfl)
  | false =>
    obtain ⟨hnothing, hstatus⟩ := hreports.kept hclosed
    rw [hnothing, List.nil_append]
    by_cases hpos : 0 < res.status
    · rw [if_pos hpos]
      exact iff_of_true (.of_gone hgone (.inl rfl)) (.inl (by omega))
    · rw [if_neg hpos]
      apply iff_of_false (not_wellHandled_of_leaked hgone)
      simp
      omega

/-- A reception behind which the handler discards the connection. -/
theorem handleConn_discarded (h : HoldsConns shape set conns) (hdistinct : DistinctFds conns)
    (hslot : slot < conns.length) (hrecv : receive rt cfg conns[slot].fd arrival = .ok res)
    {dispatched : List ServerEvent}
    (hdisp : dispatchConn rt cfg conns[slot].fd (endsConn res) res = .ok dispatched)
    (hquiet : socketCalls dispatched = []) (hreadable : conns[slot].readable = true)
    (hends : endsConn res = false) (hdiscard : arrival.discard = true) :
    ∃ set' log again conns', handleConn rt cfg dataAddr arrival set slot = .ok (set', log, again) ∧
      HoldsConns shape set' conns' ∧
      (WellHandled conns[slot] true conns' (socketCalls log) ↔
        conns[slot].cleared 0 = pointerBytes dataAddr slot) := by
  obtain ⟨set₁, hset₁, hreceive⟩ := receiveConn_keeps h hdistinct hslot dataAddr hrecv hdisp hends
  have hslot₁ : slot < (conns.set slot (conns[slot].used arrival.time)).length := by
    rwa [List.length_set]
  obtain ⟨set', found, conns', hremove, hset', hown, hother⟩ :=
    hset₁.attempt (hdistinct.set hslot rfl) hslot₁ dataAddr
  rw [List.getElem_set_self] at hown hother
  rw [hdiscard, if_pos rfl, hremove] at hreceive
  refine ⟨set', _, true, conns', handleConn_closed h hslot hreadable hreceive, hset', ?_⟩
  simp only [List.cons_append, socketCalls_received, socketCalls_append, hquiet,
    receive_kept hrecv hends, List.map_nil, List.nil_append]
  by_cases hsame : conns[slot].cleared 0 = pointerBytes dataAddr slot
  · obtain ⟨rfl, rfl⟩ := hown hsame
    rw [List.eraseIdx_set_eq]
    exact iff_of_true (.of_gone (hdistinct.gone hslot) (.inl rfl)) hsame
  · apply iff_of_false
    · exact not_wellHandled_of_kept (hother hsame) (.inr rfl)
    · exact hsame

/-- A reception behind which the flags are looked at. -/
theorem handleConn_received (h : HoldsConns shape set conns) (hdistinct : DistinctFds conns)
    (hslot : slot < conns.length) (hrecv : receive rt cfg conns[slot].fd arrival = .ok res)
    {dispatched : List ServerEvent}
    (hdisp : dispatchConn rt cfg conns[slot].fd (endsConn res) res = .ok dispatched)
    (hquiet : socketCalls dispatched = []) (hreadable : conns[slot].readable = true)
    (hends : endsConn res = false) (hdiscard : arrival.discard = false) :
    ∃ set' log again conns', handleConn rt cfg dataAddr arrival set slot = .ok (set', log, again) ∧
      HoldsConns shape set' conns' ∧
      (WellHandled conns[slot] false conns' (socketCalls log) ↔
        (conns[slot].flagged = true → conns[slot].cleared 0 = pointerBytes dataAddr slot)) := by
  obtain ⟨set₁, hset₁, hreceive⟩ := receiveConn_keeps h hdistinct hslot dataAddr hrecv hdisp hends
  have hslot₁ : slot < (conns.set slot (conns[slot].used arrival.time)).length := by
    rwa [List.length_set]
  obtain ⟨set', more, again, conns', hfinish, hset', hiff⟩ :=
    finishConn_well hset₁ (hdistinct.set hslot rfl) hslot₁ dataAddr
  rw [List.getElem_set_self] at hfinish hiff
  rw [hdiscard, if_neg (by decide)] at hreceive
  refine ⟨set', _, again, conns', handleConn_open h hslot hreadable hreceive hfinish, hset', ?_⟩
  simp only [List.cons_append, socketCalls_received, socketCalls_append, hquiet,
    receive_kept hrecv hends, List.map_nil, List.nil_append]
  exact (WellHandled.of_used ..).symm.trans hiff

/-- The branch for a reception. -/
theorem handleConn_readable (h : HoldsConns shape set conns) (hdistinct : DistinctFds conns)
    (hslot : slot < conns.length) (hreceives : Receives rt cfg conns[slot].fd arrival res)
    (hreadable : conns[slot].readable = true) :
    ∃ set' log again conns', handleConn rt cfg dataAddr arrival set slot = .ok (set', log, again) ∧
      HoldsConns shape set' conns' ∧
      (WellHandled conns[slot] arrival.discard conns' (socketCalls log) ↔
        DisposesRight dataAddr slot conns[slot] arrival res) := by
  obtain ⟨hrecv, dispatched, hdisp⟩ := hreceives
  have hquiet : socketCalls dispatched = [] := by
    rcases dispatchConn_log hdisp with rfl | ⟨str, rfl⟩ <;> rfl
  cases hends : endsConn res with
  | true =>
    rw [disposesRight_ended hreadable hends]
    exact handleConn_ended h hdistinct hslot hrecv hdisp hquiet hreadable hends
  | false =>
    rw [disposesRight_open hreadable hends]
    cases hdiscard : arrival.discard with
    | true =>
      rw [eq_self, true_or, true_imp_iff]
      exact handleConn_discarded h hdistinct hslot hrecv hdisp hquiet hreadable hends hdiscard
    | false =>
      rw [Bool.false_eq_true, false_or]
      exact handleConn_received h hdistinct hslot hrecv hdisp hquiet hreadable hends hdiscard

/-- The body leaves the connection of its slot as it should if and only if a
reception that ends it says so, and the bytes of a connection that has to go
otherwise are those of the pointer to its slot. -/
theorem handleConn_well_iff (h : HoldsConns shape set conns) (hdistinct : DistinctFds conns)
    (hslot : slot < conns.length)
    (hreceives : conns[slot].readable = true → Receives rt cfg conns[slot].fd arrival res) :
    ∃ set' log again conns', handleConn rt cfg dataAddr arrival set slot = .ok (set', log, again) ∧
      HoldsConns shape set' conns' ∧
      (WellHandled conns[slot] (conns[slot].readable && arrival.discard) conns' (socketCalls log) ↔
        DisposesRight dataAddr slot conns[slot] arrival res) := by
  cases hreadable : conns[slot].readable with
  | true => exact handleConn_readable h hdistinct hslot (hreceives hreadable) hreadable
  | false =>
    obtain ⟨set', more, again, conns', hfinish, hset', hiff⟩ :=
      finishConn_well h hdistinct hslot dataAddr
    refine ⟨set', more, again, conns', handleConn_idle h hslot hreadable hfinish, hset', ?_⟩
    unfold DisposesRight
    rw [hreadable]
    apply Iff.trans hiff
    simp

end Body

/-- A server that hands over to its own thread and takes up to four bytes. -/
def smallServer : ServerConfig Unit := ⟨4, 2, 16, 4, -1, false, 0, none⟩

/-- One byte, and nothing more before the timeout. -/
def oneByte : Arrival Unit :=
  ⟨(), [120], [⟨.ready (.only true false), 0⟩, ⟨.timedOut, 0⟩], false, 7⟩

/-- A connection with the given flags. -/
def polledConn (revents : Nat) : Conn := localConn 5 revents 0 (-1)

theorem polledConn_holds (revents : Nat) :
    HoldsConns fourConns (fourConns.pack [polledConn revents]) [polledConn revents] :=
  fourConns_holds (by simp) fun cat => by
    intro record hrecord
    rw [List.mem_singleton.mp hrecord]
    exact length_localConn 5 revents 0 (-1) cat

theorem oneByte_receives (fd : Int) (hfd : fd = 5 ∨ fd = 6) :
    ∃ res, Receives .unlimited smallServer fd oneByte res := by
  have hreturns : ∀ fd ∈ [(5 : Int), 6], (do
      let res ← receive .unlimited smallServer fd oneByte
      dispatchConn .unlimited smallServer fd (endsConn res) res).toOption.isSome = true := by
    decide +kernel
  obtain ⟨dispatched, hboth⟩ := Option.isSome_iff_exists.mp (hreturns fd (by simpa using hfd))
  cases hrecv : receive .unlimited smallServer fd oneByte with
  | error stop =>
    rw [hrecv] at hboth
    contradiction
  | ok res =>
    rw [hrecv, ok_bind] at hboth
    cases hdisp : dispatchConn .unlimited smallServer fd (endsConn res) res with
    | error stop =>
      rw [hdisp] at hboth
      contradiction
    | ok events => exact ⟨res, hrecv, events, hdisp⟩

theorem handleConn_well_iff_oneByte :
    ∃ res set' log again conns', handleConn .unlimited smallServer (2 ^ 46) oneByte
        (fourConns.pack [polledConn pollin]) 0 = .ok (set', log, again) ∧
      HoldsConns fourConns set' conns' ∧
      (WellHandled (polledConn pollin) ((polledConn pollin).readable && oneByte.discard) conns'
          (socketCalls log) ↔
        DisposesRight (2 ^ 46) 0 (polledConn pollin) oneByte res) := by
  have hdistinct : DistinctFds [polledConn pollin] := List.nodup_singleton _
  have hfd : (polledConn pollin).fd = 5 := by decide +kernel
  obtain ⟨res, hreceives⟩ := oneByte_receives (polledConn pollin).fd (.inl hfd)
  exact ⟨res, handleConn_well_iff (polledConn_holds pollin) hdistinct Nat.zero_lt_one
    fun _ => hreceives⟩

/-- A connection that the peer has hung up stays where it is. -/
theorem hungUp_not_wellHandled :
    ∃ set' log again conns', handleConn .unlimited smallServer (2 ^ 46) oneByte
        (fourConns.pack [polledConn pollhup]) 0 = .ok (set', log, again) ∧
      HoldsConns fourConns set' conns' ∧
      ¬ WellHandled (polledConn pollhup) false conns' (socketCalls log) := by
  have hholds := polledConn_holds pollhup
  have hdistinct : DistinctFds [polledConn pollhup] := List.nodup_singleton _
  have hidle : (polledConn pollhup).readable = false := by decide +kernel
  have hflagged : (polledConn pollhup).flagged = true := by decide +kernel
  have hother : (polledConn pollhup).cleared 0 ≠ pointerBytes (2 ^ 46) 0 := by decide +kernel
  obtain ⟨set', log, again, conns', hfinish, hset', hiff⟩ :=
    finishConn_well hholds hdistinct Nat.zero_lt_one (2 ^ 46)
  refine ⟨set', log, again, conns', handleConn_idle hholds Nat.zero_lt_one hidle hfinish,
    hset', ?_⟩
  intro hwell
  exact hother (hiff.mp hwell hflagged)

end Net77
