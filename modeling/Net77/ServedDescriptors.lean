import Net77.PollfdSlots
import Net77.ServerRun

/-! Whatever the poll loop finds behind the entries, and whichever entry the sweep
closes: in a run, the server touches only descriptors that `accept` has returned. -/
namespace Net77

open Net77.Base

/-- The descriptor of a connection that an event is about. -/
def ServerEvent.fd? : ServerEvent → Option Int
  | .visited _ _ => none
  | .received fd => some fd
  | .dispatched fd _ _ => some fd
  | .socket call => some call.entry.key

theorem SocketCall.key_closed (fd : Int) : (SocketCall.closed fd).entry.key = fd := rfl

/-- Some slot of the first array has the descriptor. -/
def HasFd (set : ConnSet) (fd : Int) : Prop := ∃ i, loadFd set i = .ok fd

section Steps

variable {σ : Type} {rt : Runtime} {cfg : ServerConfig σ} {shape : SetShape 4}
  {set set' : ConnSet} {conns : List Conn} {fd : Int}

theorem Edits.hasFd (hedits : Edits set set') (h : HoldsConns shape set conns)
    (hfd : HasFd set' fd) : HasFd set fd := by
  obtain ⟨j, hj⟩ := hfd
  obtain ⟨i, hi⟩ := hedits.loadFd h j
  exact ⟨i, hi.symm.trans hj⟩

theorem receive_calls {arrival : Arrival σ} {res : RecvResult}
    (h : receive rt cfg fd arrival = .ok res) : ∀ call ∈ res.calls, call.entry.key = fd := by
  have hreports := receive_reports h
  intro call hcall
  cases hclosed : res.closedSock with
  | false =>
    rw [(hreports.kept hclosed).1] at hcall
    contradiction
  | true =>
    rcases (hreports.disposed hclosed).1 with hcalls | hcalls <;>
      · rw [hcalls, List.mem_singleton] at hcall
        rw [hcall]
        rfl

/-- All events of a list are about one descriptor, if they are about any. -/
def About (fd : Int) (log : List ServerEvent) : Prop :=
  ∀ event ∈ log, ∀ other, event.fd? = some other → other = fd

theorem About.append {log more : List ServerEvent} (h : About fd log) (hmore : About fd more) :
    About fd (log ++ more) := by
  intro event hevent
  rcases List.mem_append.mp hevent with hevent | hevent
  · exact h event hevent
  · exact hmore event hevent

theorem about_closed (fd : Int) (found : Bool) :
    About fd (if found then [.socket (.closed fd)] else []) := by
  intro event hevent other hother
  cases found with
  | false => contradiction
  | true =>
    rw [if_pos rfl, List.mem_singleton] at hevent
    rw [hevent] at hother
    exact (Option.some.inj hother).symm

theorem receiveConn_about {dataAddr slot : Nat} {arrival : Arrival σ} {log : List ServerEvent}
    {closed : Bool}
    (h : receiveConn rt cfg dataAddr set slot fd arrival = .ok (set', log, closed)) :
    About fd log := by
  obtain ⟨res, hreceive, h⟩ := bind_eq_ok.mp h
  obtain ⟨⟨noted, calls, wasClosed⟩, hnote, h⟩ := bind_eq_ok.mp h
  obtain ⟨dispatched, hdisp, h⟩ := bind_eq_ok.mp h
  have hcalls : ∀ call ∈ calls, call.entry.key = fd := by
    unfold noteReception at hnote
    split at hnote
    · obtain ⟨marked, -, hnote⟩ := bind_eq_ok.mp hnote
      obtain ⟨⟨left, missing⟩, -, hnote⟩ := bind_eq_ok.mp hnote
      cases Except.ok.inj hnote
      intro call hcall
      split at hcall
      · rw [List.mem_singleton.mp hcall]
        rfl
      · contradiction
    · obtain ⟨place, -, hnote⟩ := bind_eq_ok.mp hnote
      cases place with
      | none => contradiction
      | some off =>
        obtain ⟨left, -, hnote⟩ := bind_eq_ok.mp hnote
        cases Except.ok.inj hnote
        intro call hcall
        contradiction
  have hlog : About fd (.received fd :: (res.calls ++ calls).map .socket ++ dispatched) := by
    intro event hevent other hother
    rw [List.cons_append, List.mem_cons, List.mem_append, List.mem_map] at hevent
    rcases hevent with rfl | ⟨call, hcall, rfl⟩ | hevent
    · exact (Option.some.inj hother).symm
    · rw [← Option.some.inj hother]
      rcases List.mem_append.mp hcall with hcall | hcall
      · exact receive_calls hreceive call hcall
      · exact hcalls call hcall
    · rcases dispatchConn_log hdisp with rfl | ⟨str, rfl⟩
      · contradiction
      · rw [List.mem_singleton.mp hevent] at hother
        exact (Option.some.inj hother).symm
  dsimp only at h
  split at h
  · obtain ⟨⟨left, found⟩, -, h⟩ := bind_eq_ok.mp h
    cases Except.ok.inj h
    exact hlog.append (about_closed fd found)
  · cases Except.ok.inj h
    exact hlog

theorem finishConn_about {dataAddr slot : Nat} {log : List ServerEvent} {again : Bool}
    (h : finishConn dataAddr set slot fd = .ok (set', log, again)) : About fd log := by
  obtain ⟨revents, -, h⟩ := bind_eq_ok.mp h
  split at h
  · obtain ⟨⟨left, found⟩, -, h⟩ := bind_eq_ok.mp h
    cases Except.ok.inj h
    exact about_closed fd found
  · split at h
    · obtain ⟨⟨left, found⟩, -, h⟩ := bind_eq_ok.mp h
      cases Except.ok.inj h
      intro event hevent other hother
      rw [List.mem_singleton.mp hevent] at hother
      exact (Option.some.inj hother).symm
    · cases Except.ok.inj h
      intro event hevent
      contradiction

theorem handleConn_about {dataAddr slot : Nat} {arrival : Arrival σ} {log : List ServerEvent}
    {again : Bool} (h : handleConn rt cfg dataAddr arrival set slot = .ok (set', log, again)) :
    ∃ fd, loadFd set slot = .ok fd ∧ About fd log := by
  obtain ⟨fd, revents, hfd, -, hcases⟩ := handleConn_cases h
  refine ⟨fd, hfd, ?_⟩
  rcases hcases with ⟨-, -, hreceive⟩ | ⟨mid, log₁, more, -, hreceive, hfinish, rfl⟩ | hfinish
  · exact receiveConn_about hreceive
  · exact (receiveConn_about hreceive).append (finishConn_about hfinish)
  · exact finishConn_about hfinish

theorem pollLoop_hasFd {dataAddr endSlot fuel slot received : Nat} {arrivals : Nat → Arrival σ}
    {log : List ServerEvent} (hholds : HoldsConns shape set conns)
    (h : pollLoop rt cfg dataAddr arrivals endSlot fuel slot received set = .ok (set', log))
    {event : ServerEvent} (hevent : event ∈ log) (hfd : event.fd? = some fd) : HasFd set fd := by
  induction fuel generalizing slot received set log conns with
  | zero =>
    unfold pollLoop at h
    split at h
    · contradiction
    · cases Except.ok.inj h
      contradiction
  | succ fuel ih =>
    unfold pollLoop at h
    split at h
    · obtain ⟨⟨mid, events, again⟩, hround, h⟩ := bind_eq_ok.mp h
      obtain ⟨⟨last, logs⟩, hrest, h⟩ := bind_eq_ok.mp h
      cases Except.ok.inj h
      obtain ⟨own, hown, habout⟩ := handleConn_about hround
      obtain ⟨_, _, -, -, hpasses⟩ := handleConn_passes hround
      rcases List.mem_append.mp hevent with hevent | hevent
      · rcases List.mem_cons.mp hevent with rfl | hevent
        · contradiction
        · rw [habout event hevent fd hfd]
          exact ⟨slot, hown⟩
      · obtain ⟨left, hleft⟩ := hpasses.edits.holds hholds
        exact hpasses.edits.hasFd hholds (ih hleft hrest hevent)
    · cases Except.ok.inj h
      contradiction

theorem sweepLoop_hasFd {timeNow fuel i : Nat} {calls : List SocketCall}
    (hholds : HoldsConns shape set conns)
    (h : sweepLoop timeNow fuel i set = .ok (set', calls)) :
    ∀ call ∈ calls, HasFd set call.entry.key := by
  induction fuel generalizing i set calls conns with
  | zero =>
    unfold sweepLoop at h
    split at h
    · contradiction
    · cases Except.ok.inj h
      intro call hcall
      contradiction
  | succ fuel ih =>
    unfold sweepLoop at h
    split at h
    · obtain ⟨lastUsage, -, h⟩ := bind_eq_ok.mp h
      obtain ⟨timeout, -, h⟩ := bind_eq_ok.mp h
      split at h
      · obtain ⟨⟨mid, missing⟩, hremove, h⟩ := bind_eq_ok.mp h
        obtain ⟨own, hown, h⟩ := bind_eq_ok.mp h
        obtain ⟨⟨last, more⟩, hrest, h⟩ := bind_eq_ok.mp h
        cases Except.ok.inj h
        have hedits := Edits.removed (.refl set) hremove
        obtain ⟨left, hleft⟩ := hedits.holds hholds
        intro call hcall
        rcases List.mem_cons.mp hcall with rfl | hcall
        · exact hedits.hasFd hholds ⟨i, hown⟩
        · exact hedits.hasFd hholds (ih hleft hrest call hcall)
      · exact ih hholds h
    · cases Except.ok.inj h
      intro call hcall
      contradiction

end Steps

section Admission

variable {σ : Type} {cfg : ServerConfig σ} {shape : SetShape 4} {set set' : ConnSet}
  {conns : List Conn} {conn : Accepted} {fd : Int}

/-- A descriptor survives being stored in the four bytes of an `int`. -/
theorem toInt_stored {socket : Int} (hlow : 0 ≤ socket) (hhigh : socket < 2 ^ 31) :
    toInt (leNat (leBytes 4 (socket % 2 ^ 32).toNat)) = socket := by
  rw [leNat_leBytes]
  have hsame : (((socket % 2 ^ 32).toNat % 256 ^ 4 : Nat) : Int) = socket := by omega
  rw [hsame]
  exact toInt_of_bounds (by omega) hhigh

theorem mcfsSetAdd_hasFd {ip : IpAddrStorage} {full : Int} (h : HoldsConns shape set conns)
    (hlow : 0 ≤ conn.socket) (hhigh : conn.socket < 2 ^ 31)
    (hadd : mcfsSetAdd set (newItems cfg conn ip) 0 = .ok (set', full)) (hfd : HasFd set' fd) :
    HasFd set fd ∨ fd = conn.socket := by
  unfold mcfsSetAdd at hadd
  split at hadd
  · cases Except.ok.inj hadd
    exact .inl hfd
  · obtain ⟨found, -, hadd⟩ := bind_eq_ok.mp hadd
    cases found with
    | some idx =>
      cases Except.ok.inj hadd
      exact .inl hfd
    | none =>
      obtain ⟨data, hdata, hadd⟩ := bind_eq_ok.mp hadd
      cases Except.ok.inj hadd
      have hstore := forEach_eq_ok.mp hdata 0
      have hsize : shape.itemSizes 0 = 8 := by
        rw [h.sizes_eq]
        rfl
      have hnowrap := h.offset_lt 0 le_rfl
      rw [hsize, ← h.len_eq] at hnowrap
      have hitem : (newItems cfg conn ip 0).length = 8 := length_newItems cfg conn ip 0
      have hpollfd : (newItems cfg conn ip 0).take 8 = newPollfd conn.socket := rfl
      let part := (newPollfd conn.socket).map some
      have hpart : part.length = 8 := rfl
      unfold storeItem at hstore
      rw [h.itemSizes_eq, hsize, if_neg (by omega), Nat.mod_eq_of_lt hnowrap, hpollfd] at hstore
      obtain ⟨hfits, hcells⟩ := writeCells_eq_ok.mp hstore
      have hlen : (newPollfd conn.socket).length = 8 := rfl
      rw [hlen] at hfits
      obtain ⟨j, hj⟩ := hfd
      rw [loadFd_eq, pollfdCells] at hj
      dsimp only at hj
      rw [hcells] at hj
      by_cases heq : j = set.len
      · right
        have hown : slot 8 (overwrite (set.data 0) (set.len * 8 + 0) part) set.len =
            overwrite (slot 8 (set.data 0) set.len) 0 part :=
          slot_overwrite_self (by omega) (by omega)
        have hread : fdIn (overwrite (slot 8 (set.data 0) set.len) 0 part) = .ok conn.socket := by
          unfold fdIn overwrite
          rw [List.take_zero, List.nil_append, ← readCells_take le_rfl,
            List.take_append_of_le_length (by omega), readCells_take le_rfl,
            readCells_map (by omega), ok_bind]
          exact congrArg Except.ok (toInt_stored hlow hhigh)
        rw [Nat.add_zero] at hown
        rw [heq, hown, hread] at hj
        exact (Except.ok.inj hj).symm
      · left
        have hother : slot 8 (overwrite (set.data 0) (set.len * 8 + 0) part) j =
            slot 8 (set.data 0) j :=
          slot_overwrite_of_ne (Ne.symm heq) (by omega) (by omega)
        refine ⟨j, ?_⟩
        rw [Nat.add_zero] at hother
        rw [loadFd_eq, pollfdCells, ← hother]
        exact hj

theorem acceptConn_hasFd {calls : List SocketCall} (h : HoldsConns shape set conns)
    (hlow : 0 ≤ conn.socket) (hhigh : conn.socket < 2 ^ 31)
    (haccept : acceptConn cfg set conn = .ok (set', calls)) :
    (∀ fd, HasFd set' fd → HasFd set fd ∨ fd = conn.socket) ∧
      ∀ call ∈ calls, call.entry.key = conn.socket := by
  have hclosed : ∀ call ∈ [SocketCall.closed conn.socket], call.entry.key = conn.socket := by
    intro call hcall
    rw [List.mem_singleton.mp hcall]
    rfl
  unfold acceptConn at haccept
  split at haccept
  · cases Except.ok.inj haccept
    exact ⟨fun fd hfd => .inl hfd, hclosed⟩
  · obtain ⟨ip, -, haccept⟩ := bind_eq_ok.mp haccept
    obtain ⟨nConnsFromIp, -, haccept⟩ := bind_eq_ok.mp haccept
    split at haccept
    · obtain ⟨⟨added, full⟩, hadd, haccept⟩ := bind_eq_ok.mp haccept
      cases Except.ok.inj haccept
      refine ⟨fun fd hfd => mcfsSetAdd_hasFd h hlow hhigh hadd hfd, ?_⟩
      intro call hcall
      split at hcall
      · exact hclosed call hcall
      · contradiction
    · cases Except.ok.inj haccept
      exact ⟨fun fd hfd => .inl hfd, hclosed⟩

end Admission

section Log

variable {log more : List RunEvent} {known : List Int}

/-- The descriptors that `accept` has returned. -/
def acceptedFds (log : List RunEvent) : List Int :=
  log.filterMap fun event => match event with
    | .accepted fd => some fd
    | _ => none

theorem acceptedFds_append : acceptedFds (log ++ more) = acceptedFds log ++ acceptedFds more :=
  List.filterMap_append

theorem acceptedFds_eq_nil (h : ∀ event ∈ log, ∀ fd, event ≠ .accepted fd) :
    acceptedFds log = [] := by
  unfold acceptedFds
  rw [List.filterMap_eq_nil_iff]
  intro event hevent
  cases event with
  | accepted fd => exact absurd rfl (h _ hevent fd)
  | _ => rfl

theorem acceptedFds_calls (calls : List SocketCall) :
    acceptedFds (calls.map fun call => .served (.socket call)) = [] := by
  apply acceptedFds_eq_nil
  simp

/-- A connection that is taken, and what is closed on the way. -/
theorem acceptedFds_admitted (fd : Int) (calls : List SocketCall) (log : List RunEvent) :
    acceptedFds (.accepted fd :: calls.map (fun call => .served (.socket call)) ++ log) =
      fd :: acceptedFds log := by
  have hfirst : acceptedFds (.accepted fd :: calls.map fun call => .served (.socket call)) =
      fd :: acceptedFds (calls.map fun call => .served (.socket call)) := rfl
  rw [acceptedFds_append, hfirst, acceptedFds_calls]
  rfl

/-- Behind every `accepted`, its descriptor is known, and only what is known is served. -/
def ServesKnown (known : List Int) : List RunEvent → Prop
  | [] => True
  | .accepted fd :: log => ServesKnown (known ++ [fd]) log
  | .served event :: log => (∀ fd, event.fd? = some fd → fd ∈ known) ∧ ServesKnown known log
  | _ :: log => ServesKnown known log

theorem servesKnown_append : ServesKnown known (log ++ more) ↔
    ServesKnown known log ∧ ServesKnown (known ++ acceptedFds log) more := by
  induction log generalizing known with
  | nil =>
    rw [List.nil_append, acceptedFds, List.filterMap_nil, List.append_nil]
    exact (and_iff_right trivial).symm
  | cons event log ih =>
    cases event with
    | accepted fd =>
      have hfds : known ++ acceptedFds (.accepted fd :: log) =
          known ++ [fd] ++ acceptedFds log := by
        rw [List.append_assoc]
        rfl
      rw [List.cons_append, ServesKnown, ServesKnown, hfds]
      exact ih
    | served event =>
      rw [List.cons_append, ServesKnown, ServesKnown, ih, and_assoc]
      rfl
    | listener call => exact ih
    | watched nOpenConns newConnAttempt pollRet => exact ih
    | yielded => exact ih
    | killAck => exact ih

/-- A part of the log in which nothing is accepted. -/
theorem ServesKnown.of_served (haccepted : ∀ event ∈ log, ∀ fd, event ≠ .accepted fd)
    (hserved : ∀ event, .served event ∈ log → ∀ fd, event.fd? = some fd → fd ∈ known) :
    ServesKnown known log := by
  induction log with
  | nil => trivial
  | cons event log ih =>
    have hrest := ih (fun other hother => haccepted other (List.mem_cons_of_mem event hother))
      fun other hother => hserved other (List.mem_cons_of_mem event hother)
    cases event with
    | accepted fd => exact absurd rfl (haccepted _ List.mem_cons_self fd)
    | served event => exact ⟨hserved event List.mem_cons_self, hrest⟩
    | listener call => exact hrest
    | watched nOpenConns newConnAttempt pollRet => exact hrest
    | yielded => exact hrest
    | killAck => exact hrest

/-- What is served has been accepted before. -/
theorem ServesKnown.accepted_before (h : ServesKnown [] log) {front back : List RunEvent}
    {event : ServerEvent} (hlog : log = front ++ .served event :: back) {fd : Int}
    (hfd : event.fd? = some fd) : fd ∈ acceptedFds front := by
  rw [hlog, servesKnown_append, List.nil_append] at h
  exact h.2.1 fd hfd

end Log

section Run

variable {σ : Type} {rt : Runtime} {cfg : ServerConfig σ} {set set' : ConnSet}
  {clients : List Client} {known : List Int} {log : List RunEvent}

theorem Enrolled.edits (h : Enrolled rt cfg set clients) (hedits : Edits set set') :
    ∃ clients', Enrolled rt cfg set' clients' := by
  obtain ⟨left, hremain, hholds⟩ := hedits.leaves h.holds
  exact ⟨left, h.remain hremain hholds⟩

theorem Enrolled.accepted (h : Enrolled rt cfg set clients) (hfree : set.len < set.cap)
    {conn : Accepted} {calls : List SocketCall} (haccept : acceptConn cfg set conn = .ok (set', calls)) :
    ∃ clients', Enrolled rt cfg set' clients' := by
  rcases h.acceptConn_cases hfree haccept with hholds | ⟨ip, hip, hcount, hholds⟩
  · exact ⟨clients, h.remain (.refl clients) hholds⟩
  · exact ⟨_, h.admit hip hcount hholds⟩

/-- The set holds clients, and the descriptors in its slots are known. -/
structure Knows (rt : Runtime) (cfg : ServerConfig σ) (known : List Int) (set : ConnSet) : Prop where
  enrolled : ∃ clients, Enrolled rt cfg set clients
  fds : ∀ fd, HasFd set fd → fd ∈ known

theorem Knows.edits (h : Knows rt cfg known set) (hedits : Edits set set') :
    Knows rt cfg known set' := by
  obtain ⟨clients, henrolled⟩ := h.enrolled
  exact ⟨henrolled.edits hedits, fun fd hfd => h.fds fd (hedits.hasFd henrolled.holds hfd)⟩

/-- What `accept` returns is an `int`, and the watcher does no more to the set than the
main loop does. -/
structure Turn.Regular (turn : Turn σ) : Prop where
  ints : ∀ conn ∈ turn.accepts, conn.socket < 2 ^ 31
  watches : ∀ watch, turn.watcher = some watch → ∀ set, Edits set (watch set)

theorem acceptLoop_knows {accepts : List Accepted} (h : Knows rt cfg known set)
    (hints : ∀ conn ∈ accepts, conn.socket < 2 ^ 31)
    (hloop : acceptLoop cfg set accepts = .ok (set', log)) :
    ServesKnown known log ∧ Knows rt cfg (known ++ acceptedFds log) set' := by
  induction accepts generalizing set known log with
  | nil =>
    cases Except.ok.inj hloop
    refine ⟨trivial, ?_⟩
    rwa [acceptedFds, List.filterMap_nil, List.append_nil]
  | cons conn rest ih =>
    unfold acceptLoop at hloop
    split at hloop
    · rename_i hcalled
      obtain ⟨⟨mid, calls⟩, haccept, hloop⟩ := bind_eq_ok.mp hloop
      obtain ⟨⟨last, logs⟩, hrest, hloop⟩ := bind_eq_ok.mp hloop
      cases Except.ok.inj hloop
      obtain ⟨clients, henrolled⟩ := h.enrolled
      obtain ⟨hfds, hcalls⟩ := acceptConn_hasFd henrolled.holds hcalled.2
        (hints conn List.mem_cons_self) haccept
      have hmid : Knows rt cfg (known ++ [conn.socket]) mid := by
        refine ⟨henrolled.accepted hcalled.1 haccept, ?_⟩
        intro fd hfd
        rcases hfds fd hfd with hfd | rfl
        · exact List.mem_append_left _ (h.fds fd hfd)
        · exact List.mem_append_right _ List.mem_cons_self
      obtain ⟨hserves, hknows⟩ := ih hmid
        (fun other hother => hints other (List.mem_cons_of_mem conn hother)) hrest
      have hown : ServesKnown (known ++ [conn.socket])
          (calls.map fun call => RunEvent.served (.socket call)) := by
        apply ServesKnown.of_served
        · simp
        · intro event hevent fd hfd
          obtain ⟨call, hcall, heq⟩ := List.mem_map.mp hevent
          cases heq
          rw [← Option.some.inj hfd, hcalls call hcall]
          exact List.mem_append_right _ List.mem_cons_self
      constructor
      · rw [List.cons_append, ServesKnown, servesKnown_append, acceptedFds_calls, List.append_nil]
        exact ⟨hown, hserves⟩
      · rw [acceptedFds_admitted, List.append_cons]
        exact hknows
    · cases Except.ok.inj hloop
      refine ⟨trivial, ?_⟩
      rwa [acceptedFds, List.filterMap_nil, List.append_nil]

theorem pollConns_edits {turn : Turn σ} (h : pollConns turn set = .ok set') : Edits set set' := by
  unfold pollConns at h
  split at h
  · exact .of_pollInto h
  · cases Except.ok.inj h
    exact .refl set

theorem passConns_edits {turn : Turn σ} {dataAddr : Nat} {passed : List ServerEvent}
    (h : passConns rt cfg dataAddr turn set = .ok (set', passed)) : Edits set set' := by
  unfold passConns at h
  split at h
  · exact .of_pollLoop h
  · cases Except.ok.inj h
    exact .refl set

theorem Knows.passes {turn : Turn σ} {dataAddr : Nat} {passed : List ServerEvent}
    (h : Knows rt cfg known set) (hpass : passConns rt cfg dataAddr turn set = .ok (set', passed)) :
    ∀ event ∈ passed, ∀ fd, event.fd? = some fd → fd ∈ known := by
  obtain ⟨clients, henrolled⟩ := h.enrolled
  unfold passConns at hpass
  intro event hevent fd hfd
  split at hpass
  · exact h.fds fd (pollLoop_hasFd henrolled.holds hpass hevent hfd)
  · cases Except.ok.inj hpass
    contradiction

theorem watchConns_edits {turn : Turn σ} (hregular : turn.Regular) {newConnAttempt : Bool}
    {watched : List RunEvent} (h : watchConns turn newConnAttempt set = (set', watched)) :
    Edits set set' ∧ ∀ event ∈ watched, ∃ n, event = .watched n newConnAttempt turn.pollRet := by
  unfold watchConns at h
  cases hwatcher : turn.watcher with
  | none =>
    rw [hwatcher] at h
    cases h
    exact ⟨.refl set, fun event hevent => by contradiction⟩
  | some watch =>
    rw [hwatcher] at h
    cases h
    refine ⟨hregular.watches watch hwatcher set, ?_⟩
    intro event hevent
    exact ⟨_, List.mem_singleton.mp hevent⟩

/-- What a turn does behind the accept loop. -/
theorem serveTurn_cases {turn : Turn σ} {dataAddr : Nat}
    (h : serveTurn rt cfg dataAddr turn set = .ok (set', log)) :
    ∃ admittedSet admitted polled passedSet passed watchedSet watched swept idle,
      acceptLoop cfg set turn.accepts = .ok (admittedSet, admitted) ∧
      pollConns turn admittedSet = .ok polled ∧
      passConns rt cfg dataAddr turn polled = .ok (passedSet, passed) ∧
      watchConns turn (!admitted.isEmpty) passedSet = (watchedSet, watched) ∧
      sweepLoop turn.timeNow watchedSet.len 0 watchedSet = .ok (set', swept) ∧
      (∀ event ∈ idle, event = RunEvent.yielded) ∧
      log = admitted ++ (passed.map .served ++ watched ++
        swept.map (fun call => .served (.socket call)) ++ idle) := by
  obtain ⟨⟨admittedSet, admitted⟩, hadmitted, h⟩ := bind_eq_ok.mp h
  obtain ⟨polled, hpolled, h⟩ := bind_eq_ok.mp h
  obtain ⟨⟨passedSet, passed⟩, hpassed, h⟩ := bind_eq_ok.mp h
  obtain ⟨⟨sweptSet, swept⟩, hswept, h⟩ := bind_eq_ok.mp h
  cases Except.ok.inj h
  refine ⟨admittedSet, admitted, polled, passedSet, passed, _, _, swept,
    if turn.pollRet ≤ 0 ∧ !!admitted.isEmpty then [.yielded] else [], hadmitted, hpolled, hpassed,
    rfl, hswept, ?_, ?_⟩
  · intro event hevent
    split at hevent
    · exact List.mem_singleton.mp hevent
    · contradiction
  · simp only [List.append_assoc]

theorem serveTurn_knows {turn : Turn σ} {dataAddr : Nat} (hregular : turn.Regular)
    (h : Knows rt cfg known set) (hturn : serveTurn rt cfg dataAddr turn set = .ok (set', log)) :
    ServesKnown known log ∧ Knows rt cfg (known ++ acceptedFds log) set' := by
  obtain ⟨admittedSet, admitted, polled, passedSet, passed, watchedSet, watched, swept, idle,
    hadmitted, hpolled, hpassed, hwatched, hswept, hidle, rfl⟩ := serveTurn_cases hturn
  obtain ⟨hserves, hadmittedKnows⟩ := acceptLoop_knows h hregular.ints hadmitted
  have hpolledKnows := hadmittedKnows.edits (pollConns_edits hpolled)
  have hpassedKnows := hpolledKnows.edits (passConns_edits hpassed)
  obtain ⟨hwatchedEdits, hwatchedOnly⟩ := watchConns_edits hregular hwatched
  have hwatchedKnows := hpassedKnows.edits hwatchedEdits
  obtain ⟨clients, henrolled⟩ := hwatchedKnows.enrolled
  have hsweptFds := sweepLoop_hasFd henrolled.holds hswept
  have haccepted : ∀ event ∈ passed.map .served ++ watched ++
      swept.map (fun call => RunEvent.served (.socket call)) ++ idle, ∀ fd,
        event ≠ .accepted fd := by
    intro event hevent fd
    rw [List.mem_append, List.mem_append, List.mem_append, List.mem_map, List.mem_map] at hevent
    rcases hevent with ((⟨_, -, rfl⟩ | hevent) | ⟨_, -, rfl⟩) | hevent
    · simp
    · obtain ⟨n, rfl⟩ := hwatchedOnly event hevent
      simp
    · simp
    · rw [hidle event hevent]
      simp
  rw [servesKnown_append, acceptedFds_append, acceptedFds_eq_nil haccepted, List.append_nil]
  refine ⟨⟨hserves, .of_served haccepted ?_⟩, hwatchedKnows.edits (.of_sweepLoop hswept)⟩
  intro event hevent fd hfd
  rw [List.mem_append, List.mem_append, List.mem_append, List.mem_map, List.mem_map] at hevent
  rcases hevent with ((⟨_, hpass, heq⟩ | hevent) | ⟨call, hcall, heq⟩) | hevent
  · cases heq
    exact hpolledKnows.passes hpassed event hpass fd hfd
  · obtain ⟨n, hsame⟩ := hwatchedOnly _ hevent
    contradiction
  · cases heq
    rw [← Option.some.inj hfd]
    exact hwatchedKnows.fds _ (hsweptFds call hcall)
  · have hsame := hidle _ hevent
    contradiction

theorem serveTurns_knows {turns : List (Turn σ)} {dataAddr : Nat}
    (hregular : ∀ turn ∈ turns, turn.Regular) (h : Knows rt cfg known set)
    (hturns : serveTurns rt cfg dataAddr turns set = .ok (set', log)) :
    ServesKnown known log ∧ Knows rt cfg (known ++ acceptedFds log) set' := by
  induction turns generalizing set known log with
  | nil =>
    cases Except.ok.inj hturns
    refine ⟨trivial, ?_⟩
    rwa [acceptedFds, List.filterMap_nil, List.append_nil]
  | cons turn turns ih =>
    obtain ⟨⟨mid, first⟩, hturn, hturns⟩ := bind_eq_ok.mp hturns
    obtain ⟨⟨last, rest⟩, hrest, hturns⟩ := bind_eq_ok.mp hturns
    cases Except.ok.inj hturns
    obtain ⟨hserves, hmid⟩ := serveTurn_knows (hregular turn List.mem_cons_self) h hturn
    obtain ⟨hmore, hlast⟩ :=
      ih (fun other hother => hregular other (List.mem_cons_of_mem turn hother)) hmid hrest
    rw [servesKnown_append, acceptedFds_append, ← List.append_assoc]
    exact ⟨⟨hserves, hmore⟩, hlast⟩

end Run

end Net77
