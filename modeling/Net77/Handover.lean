import Net77.ServerShutdown
import Net77.WaitThenReceive

/-! What `runServer` hands over to the handler, against what the peers have sent. -/
namespace Net77

open Net77.Base

/-- A call of `recvAllData` in the poll loop: what the peer sends from then on, what the call
returns, the calls on the descriptor, and what is handed over to the handler behind it. -/
structure Receipt where
  fd : Int
  stream : Bytes
  res : RecvResult
  calls : List SocketCall
  handed : Option (Bool × OwnedString)

namespace Receipt

variable (receipt : Receipt)

/-- The bytes that the handler gets. -/
def data : Bytes := receipt.handed.elim [] fun given => given.2.bytes

def events : List ServerEvent :=
  .received receipt.fd :: (receipt.calls.map .socket ++
    receipt.handed.elim [] fun given => [.dispatched receipt.fd given.1 given.2])

/-- A reception that does not fail hands over all that it has taken. The handler gets a
string that ends with 0, never an empty one, and is told that the socket is closed exactly
if the reception has disposed of it. -/
structure Sound : Prop where
  whole : receipt.res.status = 0 → receipt.data ++ receipt.res.stream = receipt.stream
  given : ∀ closed str, receipt.handed = some (closed, str) →
    receipt.res.status = 0 ∧ str.bytes ≠ [] ∧ str.data = str.bytes ++ [0] ∧
      closed = receipt.res.closedSock ∧
        if closed then Disposed receipt.fd receipt.calls else receipt.calls = []

/-- The call that the receipt is for is made where this arrives. -/
structure Of {σ : Type} (rt : Runtime) (cfg : ServerConfig σ) (arrival : Arrival σ) : Prop where
  returned : receive rt cfg receipt.fd arrival = .ok receipt.res
  stream_eq : receipt.stream = arrival.stream

end Receipt

section Reception

variable {σ : Type} {rt : Runtime} {cfg : ServerConfig σ} {fd : Int} {arrival : Arrival σ}
  {set set' : ConnSet} {slot : Nat} {res : RecvResult}

theorem built_terminated {builder rest : StringBuilder} {str : OwnedString}
    (h : stringBuilderBuildAndDestroy rt builder = .ok (str, rest)) :
    str.data = str.bytes ++ [0] ∧ str.bytes.length = builder.len := by
  unfold stringBuilderBuildAndDestroy at h
  dsimp only at h
  split at h
  · split at h
    · contradiction
    · obtain ⟨bytes, hread, h⟩ := bind_eq_ok.mp h
      cases Except.ok.inj h
      have hlength := readCells_length hread
      have hbytes : OwnedString.bytes ⟨builder.len, bytes ++ [0]⟩ = bytes := by
        unfold OwnedString.bytes
        dsimp only
        rw [← hlength, List.take_left]
      rw [hbytes]
      exact ⟨rfl, hlength⟩
  · contradiction

theorem hangsUpEmpty_zero {call : RecvCall σ} {st : RecvState σ} (events : List SocketEvent) :
    HangsUpEmpty rt call 0 st events := by
  induction events generalizing st with
  | nil => trivial
  | cons event events ih => exact ⟨fun _ => Nat.zero_le _, fun st' _ => ih⟩

/-- What was read is in the builder, and the rest is still to come. -/
theorem receive_whole (hbuf : cfg.serverBufSize < 2 ^ 31)
    (typed : ∀ c, cfg.keepReceivingController = some c → SsizeController c)
    (h : receive rt cfg fd arrival = .ok res) (zero : res.status = 0) :
    ∃ text, MayHold res.builder text ∧ text ++ res.stream = arrival.stream := by
  obtain ⟨builder, hnew, h⟩ := bind_eq_ok.mp h
  have hsize : 0 ≤ bufSize cfg ∧ bufSize cfg < 2 ^ 31 := by
    unfold bufSize
    split <;> omega
  have hlimit : IsSsize (maxReqSize cfg) := by
    unfold IsSsize maxReqSize
    split <;> omega
  have hholds := newStringBuilder_holds (by unfold toSize; omega) hnew
  exact (recvAllData_kept hholds hlimit ⟨by omega, by omega⟩ typed (Nat.zero_le _)
    (fun entry _ => hangsUpEmpty_zero _) h zero).read

theorem noteReception_told {calls : List SocketCall} {told : Bool} {time : Nat}
    (zero : res.status = 0) (h : noteReception set slot fd time res = .ok (set', calls, told)) :
    calls = [] ∧ told = endsConn res := by
  unfold noteReception at h
  split at h
  · rename_i hends
    obtain ⟨marked, -, h⟩ := bind_eq_ok.mp h
    obtain ⟨⟨left, missing⟩, -, h⟩ := bind_eq_ok.mp h
    cases Except.ok.inj h
    rw [zero, hends]
    exact ⟨if_neg fun hclosed => Int.lt_irrefl 0 hclosed.2, rfl⟩
  · rename_i hends
    obtain ⟨place, -, h⟩ := bind_eq_ok.mp h
    cases place with
    | none => contradiction
    | some off =>
      obtain ⟨left, -, h⟩ := bind_eq_ok.mp h
      cases Except.ok.inj h
      have hclosed : res.closedSock = false := by
        unfold endsConn at hends
        simp at hends
        exact hends.2.1
      rw [hclosed]
      exact ⟨rfl, by simpa using hends⟩

/-- The handler gets the whole string, or there is no reason to call it. -/
theorem dispatchConn_cases {told : Bool} {log : List ServerEvent}
    (h : dispatchConn rt cfg fd told res = .ok log) :
    (log = [] ∧ (res.status ≠ 0 ∨ res.builder.len = 0)) ∨
      (res.status = 0 ∧ (res.builder.len = 0 → told = false) ∧ ∃ str rest,
        stringBuilderBuildAndDestroy rt res.builder = .ok (str, rest) ∧
          log = [.dispatched fd told str]) := by
  unfold dispatchConn at h
  split at h
  · rename_i hnone
    cases Except.ok.inj h
    exact .inl ⟨rfl, hnone.imp_right And.left⟩
  · rename_i hsome
    obtain ⟨⟨str, rest⟩, hbuild, h⟩ := bind_eq_ok.mp h
    dsimp only at h
    split at h
    · contradiction
    · cases Except.ok.inj h
      rw [not_or, not_not, not_and] at hsome
      exact .inr ⟨hsome.1, fun hlen => by simpa using hsome.2 hlen, str, rest, hbuild, rfl⟩

/-- A reception that has something is handed over with what it says about the socket. -/
theorem endsConn_filled (zero : res.status = 0) (hfilled : res.builder.len ≠ 0) :
    endsConn res = res.closedSock := by
  unfold endsConn
  simp [zero, hfilled]

/-- What is handed over behind a reception goes with it into one receipt. -/
theorem dispatchConn_receipt (hbuf : cfg.serverBufSize < 2 ^ 31)
    (typed : ∀ c, cfg.keepReceivingController = some c → SsizeController c) {time : Nat}
    {calls : List SocketCall} {told : Bool} {dispatched : List ServerEvent}
    (hreceive : receive rt cfg fd arrival = .ok res)
    (hnote : noteReception set slot fd time res = .ok (set', calls, told))
    (hdispatch : dispatchConn rt cfg fd told res = .ok dispatched) :
    ∃ receipt : Receipt, receipt.Sound ∧ receipt.Of rt cfg arrival ∧
      .received fd :: (res.calls ++ calls).map .socket ++ dispatched = receipt.events := by
  rcases dispatchConn_cases hdispatch with ⟨rfl, hnone⟩ | ⟨zero, hfilled, str, rest, hbuild, rfl⟩
  · refine ⟨⟨fd, arrival.stream, res, res.calls ++ calls, none⟩,
      ⟨?_, fun closed str hhanded => by contradiction⟩, ⟨hreceive, rfl⟩, rfl⟩
    intro zero
    obtain ⟨text, hmay, hrest⟩ := receive_whole hbuf typed hreceive zero
    have hempty : text = [] := by
      apply List.eq_nil_of_length_eq_zero
      rw [← hmay.len_eq]
      exact hnone.resolve_left fun hne => hne zero
    subst hempty
    exact hrest
  · obtain ⟨rfl, htold⟩ := noteReception_told zero hnote
    obtain ⟨text, hmay, hrest⟩ := receive_whole hbuf typed hreceive zero
    have hbytes : str.bytes = text := hmay.built hbuild
    obtain ⟨hdata, hlength⟩ := built_terminated hbuild
    have hlen : res.builder.len ≠ 0 := by
      intro hlen
      have hends : endsConn res = true := by
        unfold endsConn
        simp [hlen]
      rw [← htold, hfilled hlen] at hends
      contradiction
    have hclosed : told = res.closedSock := htold.trans (endsConn_filled zero hlen)
    refine ⟨⟨fd, arrival.stream, res, res.calls, some (told, str)⟩,
      ⟨fun _ => ?_, ?_⟩, ⟨hreceive, rfl⟩, ?_⟩
    · rw [← hrest, ← hbytes]
      rfl
    · intro closed given hhanded
      cases Option.some.inj hhanded
      refine ⟨zero, ?_, hdata, hclosed, ?_⟩
      · intro hnil
        rw [hnil] at hlength
        exact hlen hlength.symm
      · have hreports := receive_reports hreceive
        rw [hclosed]
        cases hsock : res.closedSock with
        | false => exact (hreports.kept hsock).1
        | true => exact (hreports.disposed hsock).1
    · rw [List.append_nil]
      rfl

/-- The branch for `POLLALLIN` is a reception, and calls on descriptors behind it. -/
theorem receiveConn_receipt (hbuf : cfg.serverBufSize < 2 ^ 31)
    (typed : ∀ c, cfg.keepReceivingController = some c → SsizeController c) {dataAddr : Nat}
    {log : List ServerEvent} {again : Bool}
    (h : receiveConn rt cfg dataAddr set slot fd arrival = .ok (set', log, again)) :
    ∃ receipt : Receipt, receipt.Sound ∧ receipt.Of rt cfg arrival ∧
      ∃ more : List SocketCall, log = receipt.events ++ more.map .socket := by
  obtain ⟨res, hreceive, h⟩ := bind_eq_ok.mp h
  obtain ⟨⟨noted, calls, told⟩, hnote, h⟩ := bind_eq_ok.mp h
  obtain ⟨dispatched, hdispatch, h⟩ := bind_eq_ok.mp h
  obtain ⟨receipt, sound, hof, hevents⟩ :=
    dispatchConn_receipt hbuf typed hreceive hnote hdispatch
  refine ⟨receipt, sound, hof, ?_⟩
  dsimp only at h
  split at h
  · obtain ⟨⟨left, found⟩, -, h⟩ := bind_eq_ok.mp h
    cases Except.ok.inj h
    rw [hevents]
    cases found with
    | false => exact ⟨[], rfl⟩
    | true => exact ⟨[.closed fd], rfl⟩
  · cases Except.ok.inj h
    rw [hevents]
    exact ⟨[], (List.append_nil _).symm⟩

theorem finishConn_socket {dataAddr : Nat} {log : List ServerEvent} {again : Bool}
    (h : finishConn dataAddr set slot fd = .ok (set', log, again)) :
    ∃ calls : List SocketCall, log = calls.map .socket := by
  obtain ⟨revents, -, h⟩ := bind_eq_ok.mp h
  split at h
  · obtain ⟨⟨left, found⟩, -, h⟩ := bind_eq_ok.mp h
    cases Except.ok.inj h
    cases found with
    | false => exact ⟨[], rfl⟩
    | true => exact ⟨[.closed fd], rfl⟩
  · split at h
    · obtain ⟨⟨left, found⟩, -, h⟩ := bind_eq_ok.mp h
      cases Except.ok.inj h
      exact ⟨[.invalid fd], rfl⟩
    · cases Except.ok.inj h
      exact ⟨[], rfl⟩

end Reception

/-- What the network sees of the server: a connection is taken, and its bytes are. -/
inductive PeerEvent where
  | accepted (fd : Int)
  | received (receipt : Receipt)

/-- Events that are neither a connection that is taken nor part of a reception. -/
def RunEvent.Quiet : RunEvent → Prop
  | .accepted _ => False
  | .served (.received _) => False
  | .served (.dispatched _ _ _) => False
  | _ => True

/-- A log that comes from these connections and receptions, in this order. -/
inductive Recounts : List PeerEvent → List RunEvent → Prop where
  | nil : Recounts [] []
  | quiet {peers : List PeerEvent} {event : RunEvent} {log : List RunEvent}
      (quiet : event.Quiet) (rest : Recounts peers log) : Recounts peers (event :: log)
  | accepted (fd : Int) {peers : List PeerEvent} {log : List RunEvent}
      (rest : Recounts peers log) : Recounts (.accepted fd :: peers) (.accepted fd :: log)
  | received {receipt : Receipt} (sound : receipt.Sound) {peers : List PeerEvent}
      {log : List RunEvent} (rest : Recounts peers log) :
      Recounts (.received receipt :: peers) (receipt.events.map .served ++ log)

/-- The receptions of a turn meet its arrivals, from the given one on. -/
def Meets {σ : Type} (rt : Runtime) (cfg : ServerConfig σ) (arrivals : Nat → Arrival σ)
    (first : Nat) (receipts : List Receipt) : Prop :=
  ∀ i (h : i < receipts.length), receipts[i].Of rt cfg (arrivals (first + i))

namespace Recounts

variable {peers more : List PeerEvent} {log logs : List RunEvent}

theorem append (h : Recounts peers log) (hmore : Recounts more logs) :
    Recounts (peers ++ more) (log ++ logs) := by
  induction h with
  | nil => exact hmore
  | quiet hquiet _ ih => exact .quiet hquiet ih
  | accepted fd _ ih => exact .accepted fd ih
  | received sound _ ih =>
    rw [List.append_assoc]
    exact .received sound ih

theorem of_quiet (h : ∀ event ∈ log, event.Quiet) : Recounts [] log := by
  induction log with
  | nil => exact .nil
  | cons event log ih =>
    exact .quiet (h event List.mem_cons_self)
      (ih fun other hother => h other (List.mem_cons_of_mem event hother))

theorem of_calls (calls : List SocketCall) :
    Recounts [] (calls.map fun call => .served (.socket call)) := by
  apply of_quiet
  intro event hevent
  obtain ⟨call, -, rfl⟩ := List.mem_map.mp hevent
  trivial

theorem sound (h : Recounts peers log) {receipt : Receipt} (hmem : .received receipt ∈ peers) :
    receipt.Sound := by
  induction h with
  | nil => contradiction
  | quiet _ _ ih => exact ih hmem
  | accepted fd _ ih => exact ih ((List.mem_cons.mp hmem).resolve_left (by simp))
  | received sound _ ih =>
    rcases List.mem_cons.mp hmem with heq | hmem
    · cases heq
      exact sound
    · exact ih hmem

end Recounts

section Pass

variable {σ : Type} {rt : Runtime} {cfg : ServerConfig σ} {dataAddr : Nat} {set set' : ConnSet}

theorem Meets.append {arrivals : Nat → Arrival σ} {first : Nat} {receipts more : List Receipt}
    (h : Meets rt cfg arrivals first receipts)
    (hmore : Meets rt cfg arrivals (first + receipts.length) more) :
    Meets rt cfg arrivals first (receipts ++ more) := by
  intro i hi
  rw [List.length_append] at hi
  by_cases hfront : i < receipts.length
  · rw [List.getElem_append_left hfront]
    exact h i hfront
  · have hlast := hmore (i - receipts.length) (by omega)
    have hplace : first + receipts.length + (i - receipts.length) = first + i := by omega
    rw [hplace] at hlast
    rw [List.getElem_append_right (by omega)]
    exact hlast

/-- A pass, or a part of it: its log, and the receptions in it. -/
structure Relays (rt : Runtime) (cfg : ServerConfig σ) (arrivals : Nat → Arrival σ) (first : Nat)
    (receipts : List Receipt) (log : List ServerEvent) : Prop where
  recounts : Recounts (receipts.map .received) (log.map .served)
  meets : Meets rt cfg arrivals first receipts
  received_eq : receivedFds log = receipts.map Receipt.fd

theorem Relays.of_calls {arrivals : Nat → Arrival σ} {first : Nat} (calls : List SocketCall) :
    Relays rt cfg arrivals first [] (calls.map .socket) := by
  refine ⟨?_, fun i hi => by contradiction, ?_⟩
  · rw [List.map_map]
    exact .of_calls calls
  · unfold receivedFds
    rw [List.filterMap_map]
    simp

theorem Relays.append {arrivals : Nat → Arrival σ} {first : Nat} {receipts more : List Receipt}
    {log logs : List ServerEvent} (h : Relays rt cfg arrivals first receipts log)
    (hmore : Relays rt cfg arrivals (first + receipts.length) more logs) :
    Relays rt cfg arrivals first (receipts ++ more) (log ++ logs) := by
  refine ⟨?_, h.meets.append hmore.meets, ?_⟩
  · rw [List.map_append, List.map_append]
    exact h.recounts.append hmore.recounts
  · rw [receivedFds_append, h.received_eq, hmore.received_eq, List.map_append]

theorem Relays.of_receipt {arrivals : Nat → Arrival σ} {first : Nat} {receipt : Receipt}
    (sound : receipt.Sound) (hof : receipt.Of rt cfg (arrivals first)) :
    Relays rt cfg arrivals first [receipt] receipt.events := by
  refine ⟨?_, ?_, ?_⟩
  · rw [← List.append_nil (receipt.events.map RunEvent.served)]
    exact .received sound .nil
  · intro i hi
    have hzero : i = 0 := by
      rw [List.length_singleton] at hi
      omega
    subst hzero
    exact hof
  · unfold Receipt.events receivedFds
    cases receipt.handed <;> simp

variable {arrivals : Nat → Arrival σ}

theorem handleConn_relays (hbuf : cfg.serverBufSize < 2 ^ 31)
    (typed : ∀ c, cfg.keepReceivingController = some c → SsizeController c) {slot first : Nat}
    {log : List ServerEvent} {again : Bool}
    (h : handleConn rt cfg dataAddr (arrivals first) set slot = .ok (set', log, again)) :
    ∃ receipts, Relays rt cfg arrivals first receipts log := by
  have hreceived {fd : Int} {mid : ConnSet} {log : List ServerEvent} {again : Bool}
      (hreceive : receiveConn rt cfg dataAddr set slot fd (arrivals first) =
        .ok (mid, log, again)) : ∃ receipts, Relays rt cfg arrivals first receipts log := by
    obtain ⟨receipt, sound, hof, calls, rfl⟩ := receiveConn_receipt hbuf typed hreceive
    exact ⟨_, (Relays.of_receipt sound hof).append (.of_calls calls)⟩
  obtain ⟨fd, revents, -, -, hcases⟩ := handleConn_cases h
  rcases hcases with ⟨-, -, hreceive⟩ | ⟨mid, log₁, more, -, hreceive, hfinish, rfl⟩ | hfinish
  · exact hreceived hreceive
  · obtain ⟨receipts, hrelays⟩ := hreceived hreceive
    obtain ⟨calls, rfl⟩ := finishConn_socket hfinish
    exact ⟨_, hrelays.append (.of_calls calls)⟩
  · obtain ⟨calls, rfl⟩ := finishConn_socket hfinish
    exact ⟨_, .of_calls calls⟩

/-- By the rounds. Each of them takes the arrival behind those that were taken. -/
theorem pollLoop_relays (hbuf : cfg.serverBufSize < 2 ^ 31)
    (typed : ∀ c, cfg.keepReceivingController = some c → SsizeController c)
    {endSlot fuel slot first : Nat} {log : List ServerEvent}
    (h : pollLoop rt cfg dataAddr arrivals endSlot fuel slot first set = .ok (set', log)) :
    ∃ receipts, Relays rt cfg arrivals first receipts log := by
  induction fuel generalizing slot first set set' log with
  | zero =>
    unfold pollLoop at h
    split at h
    · contradiction
    · cases Except.ok.inj h
      exact ⟨[], .of_calls []⟩
  | succ fuel ih =>
    unfold pollLoop at h
    split at h
    · obtain ⟨⟨mid, front, again⟩, hround, h⟩ := bind_eq_ok.mp h
      obtain ⟨⟨last, back⟩, hrest, h⟩ := bind_eq_ok.mp h
      cases Except.ok.inj h
      obtain ⟨receipts, hfront⟩ := handleConn_relays hbuf typed hround
      have hcount : (receivedFds front).length = receipts.length := by
        rw [hfront.received_eq, List.length_map]
      rw [hcount] at hrest
      obtain ⟨more, hback⟩ := ih hrest
      have happend := hfront.append hback
      exact ⟨receipts ++ more, .quiet trivial happend.recounts, happend.meets, happend.received_eq⟩
    · cases Except.ok.inj h
      exact ⟨[], .of_calls []⟩

theorem acceptLoop_recounts {accepts : List Accepted} {log : List RunEvent}
    (h : acceptLoop cfg set accepts = .ok (set', log)) :
    Recounts ((acceptedFds log).map .accepted) log := by
  induction accepts generalizing set log with
  | nil =>
    cases Except.ok.inj h
    exact .nil
  | cons conn rest ih =>
    unfold acceptLoop at h
    split at h
    · obtain ⟨⟨mid, calls⟩, -, h⟩ := bind_eq_ok.mp h
      obtain ⟨⟨last, logs⟩, hrest, h⟩ := bind_eq_ok.mp h
      cases Except.ok.inj h
      rw [acceptedFds_admitted]
      exact .accepted conn.socket ((Recounts.of_calls calls).append (ih hrest))
    · cases Except.ok.inj h
      exact .nil

end Pass

section Run

variable {σ : Type} {rt : Runtime} {cfg : ServerConfig σ} {dataAddr : Nat} {set set' : ConnSet}
  {log : List RunEvent}

/-- The connections that a turn takes come first, and then its receptions. -/
def Turn.Relayed (rt : Runtime) (cfg : ServerConfig σ) (turn : Turn σ) (peers : List PeerEvent) :
    Prop :=
  ∃ (fds : List Int) (receipts : List Receipt),
    peers = fds.map .accepted ++ receipts.map .received ∧ Meets rt cfg turn.arrivals 0 receipts

theorem watchConns_quiet {turn : Turn σ} {newConnAttempt : Bool} {watched : List RunEvent}
    (h : watchConns turn newConnAttempt set = (set', watched)) :
    ∀ event ∈ watched, event.Quiet := by
  unfold watchConns at h
  cases hwatcher : turn.watcher with
  | none =>
    rw [hwatcher] at h
    cases h
    intro event hevent
    contradiction
  | some watch =>
    rw [hwatcher] at h
    cases h
    intro event hevent
    rw [List.mem_singleton.mp hevent]
    trivial

theorem serveTurn_recounts (hbuf : cfg.serverBufSize < 2 ^ 31)
    (typed : ∀ c, cfg.keepReceivingController = some c → SsizeController c) {turn : Turn σ}
    (h : serveTurn rt cfg dataAddr turn set = .ok (set', log)) :
    ∃ peers, turn.Relayed rt cfg peers ∧ Recounts peers log := by
  obtain ⟨admittedSet, admitted, polled, passedSet, passed, watchedSet, watched, swept, idle,
    hadmitted, -, hpassed, hwatched, -, hidle, rfl⟩ := serveTurn_cases h
  have hpass : ∃ receipts, Relays rt cfg turn.arrivals 0 receipts passed := by
    unfold passConns at hpassed
    split at hpassed
    · exact pollLoop_relays hbuf typed hpassed
    · cases Except.ok.inj hpassed
      exact ⟨[], .of_calls []⟩
  obtain ⟨receipts, hrelays⟩ := hpass
  refine ⟨_, ⟨acceptedFds admitted, receipts, rfl, hrelays.meets⟩,
    (acceptLoop_recounts hadmitted).append ?_⟩
  have hrest : Recounts [] (watched ++ (swept.map (fun call => .served (.socket call)) ++ idle)) :=
    (Recounts.of_quiet (watchConns_quiet hwatched)).append
      ((Recounts.of_calls swept).append (.of_quiet fun event hevent => by
        rw [hidle event hevent]
        trivial))
  have hrelayed := hrelays.recounts.append hrest
  rwa [List.append_nil, ← List.append_assoc, ← List.append_assoc] at hrelayed

/-- By the turns. -/
theorem serveTurns_recounts (hbuf : cfg.serverBufSize < 2 ^ 31)
    (typed : ∀ c, cfg.keepReceivingController = some c → SsizeController c)
    {turns : List (Turn σ)} (h : serveTurns rt cfg dataAddr turns set = .ok (set', log)) :
    ∃ peers, List.Forall₂ (Turn.Relayed rt cfg) turns peers ∧ Recounts peers.flatten log := by
  induction turns generalizing set log with
  | nil =>
    cases Except.ok.inj h
    exact ⟨[], .nil, .nil⟩
  | cons turn turns ih =>
    obtain ⟨⟨mid, first⟩, hturn, h⟩ := bind_eq_ok.mp h
    obtain ⟨⟨last, rest⟩, hrest, h⟩ := bind_eq_ok.mp h
    cases Except.ok.inj h
    obtain ⟨peers, hrelayed, hrecounts⟩ := serveTurn_recounts hbuf typed hturn
    obtain ⟨more, hmore, hafter⟩ := ih hrest
    exact ⟨peers :: more, .cons hrelayed hmore, hrecounts.append hafter⟩

theorem closeConns_recounts {n : Nat} (h : closeConns set n = .ok log) : Recounts [] log := by
  induction n generalizing log with
  | zero =>
    cases Except.ok.inj h
    exact .nil
  | succ n ih =>
    obtain ⟨front, hfront, h⟩ := bind_eq_ok.mp h
    obtain ⟨fd, -, h⟩ := bind_eq_ok.mp h
    cases Except.ok.inj h
    exact (ih hfront).append (.of_calls [.closed fd])

end Run

section Peer

/-- Each reception finds what the one in front of it has left, and the first one this
stream. -/
def ReadsOn : Bytes → List Receipt → Prop
  | _, [] => True
  | stream, receipt :: rest => receipt.stream = stream ∧ ReadsOn receipt.res.stream rest

/-- The receptions from a connection, as long as its descriptor is not given to another
one. -/
def receiptsFrom (fd : Int) : List PeerEvent → List Receipt
  | [] => []
  | .accepted other :: peers => if other = fd then [] else receiptsFrom fd peers
  | .received receipt :: peers =>
    if receipt.fd = fd then receipt :: receiptsFrom fd peers else receiptsFrom fd peers

theorem receiptsFrom_mem {fd : Int} {peers : List PeerEvent} {receipt : Receipt}
    (h : receipt ∈ receiptsFrom fd peers) : .received receipt ∈ peers := by
  fun_induction receiptsFrom fd peers with
  | case1 => contradiction
  | case2 => contradiction
  | case3 other peers _ ih => exact List.mem_cons_of_mem _ (ih h)
  | case4 first peers _ ih =>
    rcases List.mem_cons.mp h with rfl | h
    · exact List.mem_cons_self
    · exact List.mem_cons_of_mem _ (ih h)
  | case5 first peers _ ih => exact List.mem_cons_of_mem _ (ih h)

/-- Pieces that follow each other, from the front of the stream. -/
theorem ReadsOn.data_isPrefix {stream : Bytes} {receipts front : List Receipt}
    (h : ReadsOn stream receipts) (hfront : front <+: receipts)
    (hsound : ∀ receipt ∈ front, receipt.Sound ∧ receipt.res.status = 0) :
    front.flatMap Receipt.data <+: stream := by
  induction front generalizing stream receipts with
  | nil => exact List.nil_prefix
  | cons receipt front ih =>
    obtain ⟨rest, rfl⟩ := hfront
    obtain ⟨rfl, hrest⟩ := h
    obtain ⟨sound, zero⟩ := hsound receipt List.mem_cons_self
    rw [List.flatMap_cons, ← sound.whole zero]
    exact (List.prefix_append_right_inj _).mpr (ih hrest (List.prefix_append front rest)
      fun other hother => hsound other (List.mem_cons_of_mem receipt hother))

end Peer

section Server

variable {σ : Type} {rt : Runtime} {cfg : ServerConfig σ} {world : ServerWorld σ}
  {res : ServerResult}

end Server

/-- A byte, and nothing more before the timeout. -/
def firstPiece : Arrival Unit :=
  ⟨(), [104, 105], [⟨.ready (.only true false), 0⟩, ⟨.timedOut, 0⟩], false, 7⟩

/-- The byte behind it, and the end. -/
def lastPiece : Arrival Unit :=
  ⟨(), [105], List.replicate 2 ⟨.ready (.only true false), 0⟩, false, 9⟩

/-- A connection sends two bytes that come in two turns, and closes. -/
def twoPieces : ServerWorld Unit :=
  ⟨80, some [⟨4, 0, 0, 0, 0, 0⟩], 0, 2 ^ 46,
    [⟨[firstConn], 1, fun _ => pollin, fun _ => firstPiece, none, 8⟩,
      ⟨[], 1, fun _ => pollin, fun _ => lastPiece, none, 10⟩]⟩

end Net77
