import Net77.PollPass
import Net77.TimeoutSweep

/-! Which connections the accept loop lets in, in every state that the server can
be in. -/
namespace Net77

open Net77.Base

/-- An entry of the set, with the address that its connection came from. -/
structure Client where
  conn : Conn
  peer : SockAddr

/-- What stays the same of an entry as long as it is in the set. -/
def Client.origin (client : Client) : Int × Bytes × SockAddr :=
  (client.conn.fd, client.conn 3, client.peer)

/-- Some of the clients are left, in their order. -/
def Remain (clients clients' : List Client) : Prop :=
  (clients'.map Client.origin).Sublist (clients.map Client.origin)

theorem Remain.refl (clients : List Client) : Remain clients clients := List.Sublist.refl _

theorem Remain.trans {clients clients' clients'' : List Client} (h : Remain clients clients')
    (hmore : Remain clients' clients'') : Remain clients clients'' := List.Sublist.trans hmore h

section Left

variable {shape : SetShape 4} {set set' : ConnSet} {clients : List Client}

/-- The set holds some of the clients. -/
def Leaves (shape : SetShape 4) (set : ConnSet) (clients : List Client) : Prop :=
  ∃ clients', Remain clients clients' ∧ HoldsConns shape set (clients'.map Client.conn)

/-- An entry is changed, but not where it comes from. -/
theorem Leaves.of_changed {slot : Nat} {conn : Conn}
    (h : HoldsConns shape set ((clients.map Client.conn).set slot conn))
    (hsame : ∀ hslot : slot < clients.length,
      conn.fd = clients[slot].conn.fd ∧ conn 3 = clients[slot].conn 3) :
    Leaves shape set clients := by
  by_cases hslot : slot < clients.length
  · obtain ⟨hfd, haddr⟩ := hsame hslot
    refine ⟨clients.set slot ⟨conn, clients[slot].peer⟩, ?_, by rwa [List.map_set]⟩
    have horigin : Client.origin ⟨conn, clients[slot].peer⟩ = clients[slot].origin := by
      unfold Client.origin
      dsimp only
      rw [hfd, haddr]
    have hmapped : slot < (clients.map Client.origin).length := by rwa [List.length_map]
    have hget : clients[slot].origin = (clients.map Client.origin)[slot] := by
      rw [List.getElem_map]
    unfold Remain
    rw [List.map_set, horigin, hget, List.set_getElem_self]
  · rw [List.set_eq_of_length_le (by rw [List.length_map]; omega)] at h
    exact ⟨clients, .refl clients, h⟩

/-- `revents` stored in a slot, in the set or behind it. -/
theorem HoldsConns.leaves_stored (h : HoldsConns shape set (clients.map Client.conn))
    {slot revents : Nat} (hstore : storeRevents set slot revents = .ok set') :
    Leaves shape set' clients := by
  by_cases hslot : slot < clients.length
  · have hmapped : slot < (clients.map Client.conn).length := by rwa [List.length_map]
    have hfits : 6 + (leBytes 2 revents).length ≤ connItemSizes 0 := by
      rw [length_leBytes]
      decide
    obtain ⟨stored, hok, hstored⟩ := h.storeAt hmapped hfits
    cases Except.ok.inj (hstore.symm.trans hok)
    apply Leaves.of_changed hstored
    intro _
    have hlen : ((clients.map Client.conn)[slot] 0).length = 8 :=
      h.length_pollfd (List.getElem_mem hmapped)
    rw [List.getElem_map] at hlen ⊢
    constructor
    · unfold Conn.fd
      rw [Function.update_self, List.append_assoc,
        List.take_append_of_le_length (by rw [List.length_take]; omega), List.take_take]
      rfl
    · rw [Function.update_of_ne (by decide)]
  · obtain ⟨cells, hcells, hok⟩ := bind_eq_ok.mp hstore
    cases Except.ok.inj hok
    have hsize : shape.itemSizes 0 = 8 := by
      rw [h.sizes_eq]
      rfl
    refine ⟨clients, .refl clients, h.storeBehind ?_ hcells, h.sizes_eq⟩
    rw [List.length_map, hsize]
    omega

theorem HoldsConns.leaves_used (h : HoldsConns shape set (clients.map Client.conn))
    {item : List (Option Byte)} {off time : Nat}
    (hlookup : mcfsSetGetAssocItemPtr set item 0 1 = .ok (some off))
    (hstore : Net77.storeAt set 1 off (leBytes 8 time) = .ok set') : Leaves shape set' clients := by
  obtain ⟨idx, hidx, rfl⟩ := h.getAssocItemPtr_any hlookup
  have hsize : shape.itemSizes 1 = 8 := by
    rw [h.sizes_eq]
    rfl
  rw [hsize] at hstore
  obtain ⟨stored, hok, hstored⟩ := h.use hidx time
  cases Except.ok.inj (hstore.symm.trans hok)
  apply Leaves.of_changed hstored
  intro _
  rw [Conn.fd_used, List.getElem_map]
  exact ⟨rfl, rfl⟩

theorem HoldsConns.leaves_removed (h : HoldsConns shape set (clients.map Client.conn))
    {item : List (Option Byte)} {missing : Int}
    (hremove : mcfsSetRemove set item 0 = .ok (set', missing)) : Leaves shape set' clients := by
  rcases h.mcfsSetRemove_any hremove with hkept | ⟨idx, -, hremoved⟩
  · exact ⟨clients, .refl clients, hkept, h.sizes_eq⟩
  · refine ⟨clients.eraseIdx idx, ?_, ?_, h.sizes_eq⟩
    · exact (List.eraseIdx_sublist clients idx).map _
    · rwa [← List.eraseIdx_map]

theorem Edits.leaves (hedits : Edits set set')
    (h : HoldsConns shape set (clients.map Client.conn)) : Leaves shape set' clients := by
  induction hedits with
  | refl => exact ⟨clients, .refl clients, h⟩
  | stored _ hstore ih =>
    obtain ⟨left, hleft, hmid⟩ := ih
    obtain ⟨left', hleft', hset'⟩ := hmid.leaves_stored hstore
    exact ⟨left', hleft.trans hleft', hset'⟩
  | used _ hlookup hstore ih =>
    obtain ⟨left, hleft, hmid⟩ := ih
    obtain ⟨left', hleft', hset'⟩ := hmid.leaves_used hlookup hstore
    exact ⟨left', hleft.trans hleft', hset'⟩
  | removed _ hremove ih =>
    obtain ⟨left, hleft, hmid⟩ := ih
    obtain ⟨left', hleft', hset'⟩ := hmid.leaves_removed hremove
    exact ⟨left', hleft.trans hleft', hset'⟩

end Left

section Loops

variable {set set' : ConnSet}

theorem Edits.of_pollInto {revents : Nat → Nat} {n : Nat} (h : pollInto set revents n = .ok set') :
    Edits set set' := by
  induction n generalizing set' with
  | zero =>
    cases Except.ok.inj h
    exact .refl _
  | succ n ih =>
    obtain ⟨mid, hmid, hstore⟩ := bind_eq_ok.mp h
    exact .stored (ih hmid) hstore

theorem Edits.of_pollLoop {σ : Type} {rt : Runtime} {cfg : ServerConfig σ} {dataAddr : Nat}
    {arrivals : Nat → Arrival σ} {endSlot fuel slot received : Nat} {log : List ServerEvent}
    (h : pollLoop rt cfg dataAddr arrivals endSlot fuel slot received set = .ok (set', log)) :
    Edits set set' := by
  induction fuel generalizing slot received set log with
  | zero =>
    unfold pollLoop at h
    split at h
    · contradiction
    · cases Except.ok.inj h
      exact .refl _
  | succ fuel ih =>
    unfold pollLoop at h
    split at h
    · obtain ⟨⟨mid, events, again⟩, hround, h⟩ := bind_eq_ok.mp h
      obtain ⟨⟨last, logs⟩, hrest, h⟩ := bind_eq_ok.mp h
      cases Except.ok.inj h
      obtain ⟨fd, seen, -, -, hpasses⟩ := handleConn_passes hround
      exact hpasses.edits.trans (ih hrest)
    · cases Except.ok.inj h
      exact .refl _

theorem Edits.of_sweepLoop {timeNow fuel i : Nat} {calls : List SocketCall}
    (h : sweepLoop timeNow fuel i set = .ok (set', calls)) : Edits set set' := by
  induction fuel generalizing i set calls with
  | zero =>
    unfold sweepLoop at h
    split at h
    · contradiction
    · cases Except.ok.inj h
      exact .refl _
  | succ fuel ih =>
    unfold sweepLoop at h
    split at h
    · obtain ⟨lastUsage, -, h⟩ := bind_eq_ok.mp h
      obtain ⟨timeout, -, h⟩ := bind_eq_ok.mp h
      split at h
      · obtain ⟨⟨mid, missing⟩, hremove, h⟩ := bind_eq_ok.mp h
        obtain ⟨fd, -, h⟩ := bind_eq_ok.mp h
        obtain ⟨⟨last, more⟩, hrest, h⟩ := bind_eq_ok.mp h
        cases Except.ok.inj h
        exact (Edits.removed (.refl set) hremove).trans (ih hrest)
      · exact ih h
    · cases Except.ok.inj h
      exact .refl _

end Loops

section Address

/-- Addresses that the accept loop does not tell apart. -/
def SockAddr.sharesFirst : SockAddr → SockAddr → Bool
  | .inet first, .inet second => first.toList.head? = second.toList.head?
  | .inet6 first, .inet6 second => first.toList.head? = second.toList.head?
  | _, _ => false

theorem copyAddr_inj {first second : Byte} (h : copyAddr first = copyAddr second) :
    first = second := by
  have hget : (copyAddr first)[0] = (copyAddr second)[0] := by rw [h]
  unfold copyAddr at hget
  rwa [Vector.getElem_set_self, Vector.getElem_set_self] at hget

theorem IpAddrStorage.bytes_eq_iff {family other : Nat} {first second : Byte}
    (hfamily : leBytes 4 family = leBytes 4 other ↔ family = other) :
    IpAddrStorage.bytes ⟨family, copyAddr first⟩ = IpAddrStorage.bytes ⟨other, copyAddr second⟩ ↔
      family = other ∧ first = second := by
  unfold bytes
  constructor
  · intro h
    obtain ⟨hleft, hright⟩ := List.append_inj h (by simp)
    exact ⟨hfamily.mp hleft, copyAddr_inj (Vector.toList_inj.mp hright)⟩
  · rintro ⟨rfl, rfl⟩
    rfl

theorem head?_toList {n : Nat} (addr : Vector Byte n) (h : 0 < n) :
    addr.toList.head? = some addr[0] := by
  rw [List.head?_eq_getElem?, List.getElem?_eq_getElem (by simpa using h), Vector.getElem_toList]

/-- Only the family and the first byte of an address are stored. -/
theorem storage_bytes_eq_iff {addr other : SockAddr} {ip ip' : IpAddrStorage}
    (h : ipAddrStorageFromSockaddr addr = .ok ip) (h' : ipAddrStorageFromSockaddr other = .ok ip') :
    ip.bytes = ip'.bytes ↔ addr.sharesFirst other = true := by
  cases addr with
  | other family => contradiction
  | inet addr =>
    cases Except.ok.inj h
    cases other with
    | other family => contradiction
    | inet other =>
      cases Except.ok.inj h'
      rw [IpAddrStorage.bytes_eq_iff (by decide)]
      simp [SockAddr.sharesFirst, head?_toList]
    | inet6 other =>
      cases Except.ok.inj h'
      rw [IpAddrStorage.bytes_eq_iff (by decide)]
      simp [SockAddr.sharesFirst, afInet, afInet6]
  | inet6 addr =>
    cases Except.ok.inj h
    cases other with
    | other family => contradiction
    | inet other =>
      cases Except.ok.inj h'
      rw [IpAddrStorage.bytes_eq_iff (by decide)]
      simp [SockAddr.sharesFirst, afInet, afInet6]
    | inet6 other =>
      cases Except.ok.inj h'
      rw [IpAddrStorage.bytes_eq_iff (by decide)]
      simp [SockAddr.sharesFirst, head?_toList]

theorem SockAddr.sharesFirst_congr {addr other : SockAddr} (h : addr.sharesFirst other = true)
    (peer : SockAddr) : peer.sharesFirst other = peer.sharesFirst addr := by
  cases addr <;> cases other <;> cases peer <;> simp_all [sharesFirst]

/-- The clients of an address. -/
def fromPeer (clients : List Client) (addr : SockAddr) : Nat :=
  clients.countP fun client => client.peer = addr

/-- The clients that count against an address. -/
def likePeer (clients : List Client) (addr : SockAddr) : Nat :=
  clients.countP fun client => client.peer.sharesFirst addr

end Address

section Accept

variable {σ : Type} {cfg : ServerConfig σ} {shape : SetShape 4} {set : ConnSet}
  {conns : List Conn} {conn : Accepted} {ip : IpAddrStorage}

theorem length_newItems (cfg : ServerConfig σ) (conn : Accepted) (ip : IpAddrStorage)
    (cat : Fin 4) : (newItems cfg conn ip cat).length = connItemSizes cat := by
  match cat with
  | 0 => rfl
  | 1 => rfl
  | 2 => rfl
  | 3 =>
    show (ip.bytes).length = 20
    unfold IpAddrStorage.bytes
    rw [List.length_append, length_leBytes, Vector.length_toList]

/-- The number of entries whose stored address is the given one. -/
theorem HoldsConns.countInArray (h : HoldsConns shape set conns) {key : Bytes}
    (hkey : key.length = 20) :
    Net77.countInArray (set.data 3) set.len (key.map some) 20 =
      .ok (conns.countP fun conn => conn 3 = key) := by
  have hitem : readCells (key.map some) 20 = .ok key := by
    rw [readCells_map hkey.ge, ← hkey, List.take_length]
  have hsize : shape.itemSizes 3 = 20 := by
    rw [h.sizes_eq]
    rfl
  have hfrom : ∀ rest i, i + rest = conns.length →
      countInArrayFrom (set.data 3) (key.map some) 20 i rest =
        .ok ((conns.drop i).countP fun conn => conn 3 = key) := by
    intro rest
    induction rest with
    | zero =>
      intro i hi
      rw [List.drop_of_length_le (by omega)]
      rfl
    | succ rest ih =>
      intro i hi
      have hlt : i < conns.length := by omega
      have hread := h.toRepresents.read_item hlt 3
      have hoff := h.offset_lt 3 hlt.le
      rw [hsize] at hread hoff
      rw [countInArrayFrom, Nat.mod_eq_of_lt hoff, memEq_eq hread hitem, ok_bind,
        ih (i + 1) (by omega), ok_bind, List.drop_eq_getElem_cons hlt, List.countP_cons]
      by_cases heq : conns[i] 3 = key
      · simp [heq]
      · simp [heq]
  unfold Net77.countInArray
  rw [h.len_eq, hfrom conns.length 0 (Nat.zero_add _)]
  rfl

theorem acceptConn_refused (hrefused : setupRefused cfg conn = true) :
    acceptConn cfg set conn = .ok (set, [.closed conn.socket]) := by
  unfold acceptConn
  rw [if_pos hrefused]
  rfl

/-- What happens to a connection with its calls behind it. -/
theorem HoldsConns.acceptConn (h : HoldsConns shape set conns)
    (hrefused : setupRefused cfg conn = false)
    (hip : ipAddrStorageFromSockaddr conn.addr = .ok ip) :
    Net77.acceptConn cfg set conn =
      if (conns.countP fun other => other 3 = ip.bytes) < toSize cfg.maxConnsPerIp then do
        let (set, full) ← mcfsSetAdd set (newItems cfg conn ip) 0
        pure (set, if full ≠ 0 then [.closed conn.socket] else [])
      else .ok (set, [.closed conn.socket]) := by
  unfold Net77.acceptConn
  have hlen : ip.bytes.length = 20 := length_newItems cfg conn ip 3
  have hcount := h.countInArray hlen
  rw [if_neg (by rw [hrefused]; decide), hip, ok_bind, hcount, ok_bind]
  rfl

theorem take_newItems (cfg : ServerConfig σ) (conn : Accepted) (ip : IpAddrStorage) :
    (fun cat => (newItems cfg conn ip cat).take (connItemSizes cat)) = newItems cfg conn ip := by
  funext cat
  rw [← length_newItems cfg conn ip cat, List.take_length]

/-- The new connection is added, if no entry has its `pollfd`. Otherwise nothing is
added, and nothing is closed. -/
theorem HoldsConns.acceptConn_adds (h : HoldsConns shape set conns) (hfree : set.len < set.cap)
    (hrefused : setupRefused cfg conn = false)
    (hip : ipAddrStorageFromSockaddr conn.addr = .ok ip)
    (hcount : (conns.countP fun other => other 3 = ip.bytes) < toSize cfg.maxConnsPerIp)
    (hroom : (¬ ∃ other ∈ conns, other 0 = newPollfd conn.socket) →
      ∀ cat, (conns.length + 1) * shape.itemSizes cat ≤ shape.room cat) :
    ∃ set', Net77.acceptConn cfg set conn = .ok (set', []) ∧
      HoldsConns shape set' (if ∃ other ∈ conns, other 0 = newPollfd conn.socket then conns
        else conns ++ [newItems cfg conn ip]) := by
  have hread : ∀ cat, shape.itemSizes cat ≤ (newItems cfg conn ip cat).length := by
    intro cat
    rw [h.sizes_eq, length_newItems]
  have htaken : (fun cat => (newItems cfg conn ip cat).take (shape.itemSizes cat)) =
      newItems cfg conn ip := by
    rw [h.sizes_eq]
    exact take_newItems cfg conn ip
  have hpollfd : (newItems cfg conn ip 0).take (shape.itemSizes 0) = newPollfd conn.socket :=
    congrFun htaken 0
  have hnotFull : conns.length ≠ shape.cap := by
    rw [← h.len_eq, ← h.cap_eq]
    exact hfree.ne
  have hfits : conns.length ≠ shape.cap →
      (¬ ∃ other ∈ conns, other 0 = (newItems cfg conn ip 0).take (shape.itemSizes 0)) →
        ∀ cat, (conns.length + 1) * shape.itemSizes cat ≤ shape.room cat := by
    intro _
    rwa [hpollfd]
  obtain ⟨set', hadd, hset'⟩ := h.mcfsSetAdd hread hfits
  rw [htaken] at hadd hset'
  have hadded : addTuple shape.cap conns (newItems cfg conn ip) 0 =
      (if ∃ other ∈ conns, other 0 = newPollfd conn.socket then conns
        else conns ++ [newItems cfg conn ip], 0) := by
    have hkey : newItems cfg conn ip 0 = newPollfd conn.socket := rfl
    unfold addTuple
    rw [if_neg hnotFull, hkey]
    split <;> rfl
  rw [hadded] at hadd hset'
  refine ⟨set', ?_, hset', h.sizes_eq⟩
  rw [h.acceptConn hrefused hip, if_pos hcount, hadd]
  rfl

/-- Without room, it is stored behind the arrays. -/
theorem HoldsConns.acceptConn_room (h : HoldsConns shape set conns) (hfree : set.len < set.cap)
    (hrefused : setupRefused cfg conn = false)
    (hip : ipAddrStorageFromSockaddr conn.addr = .ok ip)
    (hcount : (conns.countP fun other => other 3 = ip.bytes) < toSize cfg.maxConnsPerIp)
    (hnew : ¬ ∃ other ∈ conns, other 0 = newPollfd conn.socket) {set' : ConnSet}
    {calls : List SocketCall} (haccept : Net77.acceptConn cfg set conn = .ok (set', calls)) :
    ∀ cat, (conns.length + 1) * shape.itemSizes cat ≤ shape.room cat := by
  have hread : ∀ cat, shape.itemSizes cat ≤ (newItems cfg conn ip cat).length := by
    intro cat
    rw [h.sizes_eq, length_newItems]
  have hpollfd : (newItems cfg conn ip 0).take (shape.itemSizes 0) = newPollfd conn.socket := by
    rw [h.sizes_eq]
    exact congrFun (take_newItems cfg conn ip) 0
  have hnotFull : conns.length ≠ shape.cap := by
    rw [← h.len_eq, ← h.cap_eq]
    exact hfree.ne
  rw [h.acceptConn hrefused hip, if_pos hcount] at haccept
  obtain ⟨⟨added, full⟩, hadd, -⟩ := bind_eq_ok.mp haccept
  have hrun : McfsCall.run set (.add (newItems cfg conn ip) 0) = .ok (added, .status full) := by
    unfold McfsCall.run
    dsimp only
    rw [hadd]
    rfl
  have hreadable : (McfsCall.add (newItems cfg conn ip) 0).Readable shape conns := hread
  have hfits : conns.length ≠ shape.cap →
      (¬ ∃ other ∈ conns, other 0 = (newItems cfg conn ip 0).take (shape.itemSizes 0)) →
        ∀ cat, (conns.length + 1) * shape.itemSizes cat ≤ shape.room cat :=
    McfsCall.fits_of_run h.toRepresents hreadable hrun
  rw [hpollfd] at hfits
  exact hfits hnotFull hnew

end Accept

section Runs

variable {σ : Type} {rt : Runtime} {cfg : ServerConfig σ} {set set' : ConnSet}
  {clients clients' : List Client} {conn : Accepted} {ip : IpAddrStorage}

/-- What the main loop does to its connections between two rounds of the accept
loop: the call of `poll`, the poll loop and the sweep. -/
inductive LoopStep (rt : Runtime) (cfg : ServerConfig σ) : ConnSet → ConnSet → Prop where
  | poll {set set' : ConnSet} {revents : Nat → Nat}
      (h : pollInto set revents set.len = .ok set') : LoopStep rt cfg set set'
  | pass {set set' : ConnSet} {dataAddr fuel : Nat} {arrivals : Nat → Arrival σ}
      {log : List ServerEvent}
      (h : pollLoop rt cfg dataAddr arrivals set.len fuel 0 0 set = .ok (set', log)) :
      LoopStep rt cfg set set'
  | sweep {set set' : ConnSet} {timeNow fuel : Nat} {calls : List SocketCall}
      (h : sweepLoop timeNow fuel 0 set = .ok (set', calls)) : LoopStep rt cfg set set'

theorem LoopStep.edits (h : LoopStep rt cfg set set') : Edits set set' := by
  cases h with
  | poll h => exact .of_pollInto h
  | pass h => exact .of_pollLoop h
  | sweep h => exact .of_sweepLoop h

/-- What `newMcfsSet` gives the server. -/
def serverShape (rt : Runtime) (cfg : ServerConfig σ) : SetShape 4 :=
  .new rt (toSize cfg.maxConcurrentConnections) connItemSizes

/-- The states of the server. The steps may come in any order, which covers the one
of the main loop. -/
inductive Serves (rt : Runtime) (cfg : ServerConfig σ) : ConnSet → List Client → Prop where
  | started {set : ConnSet}
      (hnew : newMcfsSet rt (toSize cfg.maxConcurrentConnections) connItemSizes = .ok set) :
      Serves rt cfg set []
  | refused {set set' : ConnSet} {clients : List Client} {conn : Accepted} {calls : List SocketCall}
      (h : Serves rt cfg set clients) (hfree : set.len < set.cap)
      (haccept : acceptConn cfg set conn = .ok (set', calls)) (hlen : set'.len = set.len) :
      Serves rt cfg set' clients
  | admitted {set set' : ConnSet} {clients : List Client} {conn : Accepted}
      {calls : List SocketCall} {ip : IpAddrStorage} (h : Serves rt cfg set clients)
      (hfree : set.len < set.cap) (haccept : acceptConn cfg set conn = .ok (set', calls))
      (hlen : set'.len = set.len + 1) (hip : ipAddrStorageFromSockaddr conn.addr = .ok ip) :
      Serves rt cfg set' (clients ++ [⟨newItems cfg conn ip, conn.addr⟩])
  | looped {set set' : ConnSet} {clients clients' : List Client} (h : Serves rt cfg set clients)
      (hloop : LoopStep rt cfg set set') (hremain : Remain clients clients')
      (hholds : HoldsConns (serverShape rt cfg) set' (clients'.map Client.conn)) :
      Serves rt cfg set' clients'

/-- What holds in every state: the set has the address of every client, and no
address has too many that count against it. -/
structure Enrolled (rt : Runtime) (cfg : ServerConfig σ) (set : ConnSet) (clients : List Client) :
    Prop where
  holds : HoldsConns (serverShape rt cfg) set (clients.map Client.conn)
  addressed : ∀ client ∈ clients,
    ∃ ip, ipAddrStorageFromSockaddr client.peer = .ok ip ∧ client.conn 3 = ip.bytes
  bounded : ∀ addr, likePeer clients addr ≤ toSize cfg.maxConnsPerIp

theorem fromPeer_le_likePeer (h : Enrolled rt cfg set clients) (addr : SockAddr) :
    fromPeer clients addr ≤ likePeer clients addr := by
  apply List.countP_mono_left
  intro client hclient hpeer
  obtain ⟨ip, hip, -⟩ := h.addressed client hclient
  rw [← of_decide_eq_true hpeer]
  exact (storage_bytes_eq_iff hip hip).mp rfl

theorem Enrolled.countP_eq (h : Enrolled rt cfg set clients) {addr : SockAddr}
    (hip : ipAddrStorageFromSockaddr addr = .ok ip) :
    ((clients.map Client.conn).countP fun other => other 3 = ip.bytes) = likePeer clients addr := by
  rw [List.countP_map]
  apply List.countP_congr
  intro client hclient
  obtain ⟨stored, hstored, hitem⟩ := h.addressed client hclient
  simp only [Function.comp_apply, decide_eq_true_eq]
  rw [hitem]
  exact storage_bytes_eq_iff hstored hip

theorem likePeer_eq (clients : List Client) (addr : SockAddr) : likePeer clients addr =
    (clients.map Client.origin).countP fun origin => origin.2.2.sharesFirst addr := by
  rw [List.countP_map]
  rfl

/-- Clients that go make room for others. -/
theorem Enrolled.remain (h : Enrolled rt cfg set clients) (hremain : Remain clients clients')
    (hholds : HoldsConns (serverShape rt cfg) set' (clients'.map Client.conn)) :
    Enrolled rt cfg set' clients' where
  holds := hholds
  addressed := by
    intro client hclient
    have horigin := hremain.subset (List.mem_map_of_mem hclient)
    obtain ⟨before, hbefore, hsame⟩ := List.mem_map.mp horigin
    obtain ⟨ip, hip, hitem⟩ := h.addressed before hbefore
    unfold Client.origin at hsame
    obtain ⟨-, haddr, hpeer⟩ : _ ∧ before.conn 3 = client.conn 3 ∧ before.peer = client.peer := by
      simpa using hsame
    rw [← hpeer, ← haddr]
    exact ⟨ip, hip, hitem⟩
  bounded := by
    intro addr
    refine le_trans ?_ (h.bounded addr)
    rw [likePeer_eq, likePeer_eq]
    exact List.Sublist.countP_le hremain

theorem Enrolled.admit (h : Enrolled rt cfg set clients)
    (hip : ipAddrStorageFromSockaddr conn.addr = .ok ip)
    (hcount : likePeer clients conn.addr < toSize cfg.maxConnsPerIp)
    (hholds : HoldsConns (serverShape rt cfg) set'
      (clients.map Client.conn ++ [newItems cfg conn ip])) :
    Enrolled rt cfg set' (clients ++ [⟨newItems cfg conn ip, conn.addr⟩]) where
  holds := by rwa [List.map_append]
  addressed := by
    intro client hclient
    rcases List.mem_append.mp hclient with hclient | hclient
    · exact h.addressed client hclient
    · rw [List.mem_singleton.mp hclient]
      exact ⟨ip, hip, rfl⟩
  bounded := by
    intro addr
    unfold likePeer
    rw [List.countP_append, List.countP_singleton]
    split
    · rename_i hshares
      have hsame : likePeer clients addr = likePeer clients conn.addr :=
        congrArg (fun shares => clients.countP shares)
          (funext fun client => SockAddr.sharesFirst_congr hshares client.peer)
      unfold likePeer at hsame hcount
      omega
    · exact h.bounded addr

/-- What accepting a connection leads to. -/
theorem Enrolled.acceptConn_cases (h : Enrolled rt cfg set clients) (hfree : set.len < set.cap)
    {calls : List SocketCall} (haccept : acceptConn cfg set conn = .ok (set', calls)) :
    HoldsConns (serverShape rt cfg) set' (clients.map Client.conn) ∨
      ∃ ip, ipAddrStorageFromSockaddr conn.addr = .ok ip ∧
        likePeer clients conn.addr < toSize cfg.maxConnsPerIp ∧
        HoldsConns (serverShape rt cfg) set' (clients.map Client.conn ++ [newItems cfg conn ip]) := by
  cases hrefused : setupRefused cfg conn with
  | true =>
    rw [acceptConn_refused hrefused] at haccept
    cases Except.ok.inj haccept
    exact .inl h.holds
  | false =>
    cases hip : ipAddrStorageFromSockaddr conn.addr with
    | error stop =>
      unfold acceptConn at haccept
      rw [if_neg (by rw [hrefused]; decide), hip] at haccept
      contradiction
    | ok ip =>
      have hcountP := h.countP_eq hip
      by_cases hcount : likePeer clients conn.addr < toSize cfg.maxConnsPerIp
      · have hroom := fun hnew => h.holds.acceptConn_room hfree hrefused hip (by rwa [hcountP]) hnew
          haccept
        obtain ⟨added, hadded, hholds⟩ :=
          h.holds.acceptConn_adds hfree hrefused hip (by rwa [hcountP]) hroom
        cases Except.ok.inj (haccept.symm.trans hadded)
        split at hholds
        · exact .inl hholds
        · exact .inr ⟨ip, rfl, hcount, hholds⟩
      · rw [h.holds.acceptConn hrefused hip, if_neg (by rwa [hcountP])] at haccept
        cases Except.ok.inj haccept
        exact .inl h.holds

theorem Serves.enrolled (h : Serves rt cfg set clients) : Enrolled rt cfg set clients := by
  induction h with
  | started hnew =>
    refine ⟨⟨newMcfsSet_represents hnew, rfl⟩, ?_, ?_⟩
    · intro client hclient
      contradiction
    · intro addr
      exact Nat.zero_le _
  | refused h hfree haccept hlen ih =>
    rcases ih.acceptConn_cases hfree haccept with hholds | ⟨ip, -, -, hholds⟩
    · exact ⟨hholds, ih.addressed, ih.bounded⟩
    · have hmore := hholds.len_eq
      rw [List.length_append, ← ih.holds.len_eq, List.length_singleton] at hmore
      omega
  | admitted h hfree haccept hlen hip ih =>
    rcases ih.acceptConn_cases hfree haccept with hholds | ⟨ip', hip', hcount, hholds⟩
    · have hsame := hholds.len_eq
      rw [← ih.holds.len_eq] at hsame
      omega
    · cases Except.ok.inj (hip.symm.trans hip')
      exact ih.admit hip hcount hholds
  | looped h hloop hremain hholds ih => exact ih.remain hremain hholds

/-- Every step of the loops leads to a state. -/
theorem Serves.looped_exists (h : Serves rt cfg set clients) (hloop : LoopStep rt cfg set set') :
    ∃ clients', Remain clients clients' ∧ Serves rt cfg set' clients' := by
  obtain ⟨left, hremain, hholds⟩ := hloop.edits.leaves h.enrolled.holds
  exact ⟨left, hremain, .looped h hloop hremain hholds⟩

end Runs

section Exact

variable {σ : Type} {rt : Runtime} {cfg : ServerConfig σ} {set : ConnSet} {clients : List Client}
  {conn : Accepted} {ip : IpAddrStorage}

/-- The connection has been set up, and its address has a free place. -/
def Welcome (cfg : ServerConfig σ) (clients : List Client) (conn : Accepted) : Prop :=
  conn.nonBlocking = 0 ∧ conn.keepalive = 0 ∧
    (cfg.enableDelayingSockets = false → conn.noDelay = 0) ∧
    (fromPeer clients conn.addr : Int) < cfg.maxConnsPerIp

/-- The connection is added to the set if it is welcome, and closed otherwise. -/
def AdmitsExactly (rt : Runtime) (cfg : ServerConfig σ) (set : ConnSet) (clients : List Client)
    (conn : Accepted) : Prop :=
  ∃ set' calls, acceptConn cfg set conn = .ok (set', calls) ∧
    (Welcome cfg clients conn → calls = [] ∧ ∃ ip, ipAddrStorageFromSockaddr conn.addr = .ok ip ∧
      HoldsConns (serverShape rt cfg) set' (clients.map Client.conn ++ [newItems cfg conn ip])) ∧
    (¬ Welcome cfg clients conn → calls = [.closed conn.socket] ∧
      HoldsConns (serverShape rt cfg) set' (clients.map Client.conn))

/-- When that is so. A call that fails goes unnoticed, unless it is the last one,
addresses are told apart by their first bytes, and an entry with the same `pollfd`
stands for the new one. -/
def JudgesRight (rt : Runtime) (cfg : ServerConfig σ) (clients : List Client) (conn : Accepted) :
    Prop :=
  if conn.nonBlocking ≠ 0 ∨ conn.keepalive ≠ 0 then
    cfg.maxConnsPerIp ≤ likePeer clients conn.addr
  else
    (cfg.enableDelayingSockets = false ∧ conn.noDelay ≠ 0) ∨
      cfg.maxConnsPerIp ≤ fromPeer clients conn.addr ∨
      ((likePeer clients conn.addr : Int) < cfg.maxConnsPerIp ∧
        (∀ client ∈ clients, client.conn 0 ≠ newPollfd conn.socket) ∧
        ∀ cat, (clients.length + 1) * connItemSizes cat ≤ (serverShape rt cfg).room cat)

theorem setupRefused_eq_true : setupRefused cfg conn = true ↔
    ¬ (conn.nonBlocking ≠ 0 ∨ conn.keepalive ≠ 0) ∧ cfg.enableDelayingSockets = false ∧
      conn.noDelay ≠ 0 := by
  unfold setupRefused
  by_cases hsetup : conn.nonBlocking ≠ 0 ∨ conn.keepalive ≠ 0
  · rw [if_pos (by rw [← or_assoc]; exact .inl hsetup)]
    simp [hsetup]
  · cases hdelay : cfg.enableDelayingSockets with
    | true => simp
    | false =>
      rw [if_neg (by simpa using hsetup)]
      simp [hsetup]

theorem welcome_iff : Welcome cfg clients conn ↔ ¬ (conn.nonBlocking ≠ 0 ∨ conn.keepalive ≠ 0) ∧
    (cfg.enableDelayingSockets = false → conn.noDelay = 0) ∧
      (fromPeer clients conn.addr : Int) < cfg.maxConnsPerIp := by
  unfold Welcome
  simp [and_assoc]

/-- The socket is closed. -/
theorem Enrolled.closes_iff (h : Enrolled rt cfg set clients)
    (haccept : acceptConn cfg set conn = .ok (set, [.closed conn.socket])) :
    AdmitsExactly rt cfg set clients conn ↔ ¬ Welcome cfg clients conn := by
  constructor
  · rintro ⟨set', calls, hother, hadds, -⟩ hwelcome
    cases Except.ok.inj (haccept.symm.trans hother)
    exact absurd (hadds hwelcome).1 (by simp)
  · intro hrefuse
    exact ⟨set, _, haccept, fun hwelcome => absurd hwelcome hrefuse, fun _ => ⟨rfl, h.holds⟩⟩

/-- The address has a free place by the count of the server. -/
theorem Enrolled.counted_iff (h : Enrolled rt cfg set clients) (hfree : set.len < set.cap)
    (hrefused : setupRefused cfg conn = false)
    (hip : ipAddrStorageFromSockaddr conn.addr = .ok ip)
    (hcount : likePeer clients conn.addr < toSize cfg.maxConnsPerIp) :
    AdmitsExactly rt cfg set clients conn ↔ Welcome cfg clients conn ∧
      (∀ client ∈ clients, client.conn 0 ≠ newPollfd conn.socket) ∧
      ∀ cat, (clients.length + 1) * connItemSizes cat ≤ (serverShape rt cfg).room cat := by
  have hcountP := h.countP_eq hip
  rw [← hcountP] at hcount
  have hknown : (∃ other ∈ clients.map Client.conn, other 0 = newPollfd conn.socket) ↔
      ¬ ∀ client ∈ clients, client.conn 0 ≠ newPollfd conn.socket := by simp
  have hlen : (clients.map Client.conn).length = clients.length := List.length_map _
  constructor
  · rintro ⟨set', calls, haccept, hadds, hcloses⟩
    have hroom := fun hnew => h.holds.acceptConn_room hfree hrefused hip hcount hnew haccept
    obtain ⟨added, hadded, hholds⟩ :=
      h.holds.acceptConn_adds hfree hrefused hip hcount hroom
    cases Except.ok.inj (haccept.symm.trans hadded)
    have hwelcome : Welcome cfg clients conn := by
      by_contra hrefuse
      exact absurd (hcloses hrefuse).1 (by simp)
    obtain ⟨-, stored, -, hmore⟩ := hadds hwelcome
    -- the length says that the connection has been added
    have hnew : ¬ ∃ other ∈ clients.map Client.conn, other 0 = newPollfd conn.socket := by
      intro hthere
      rw [if_pos hthere] at hholds
      have hsame := hholds.len_eq.symm.trans hmore.len_eq
      simp at hsame
    refine ⟨hwelcome, not_not.mp (mt hknown.mpr hnew), ?_⟩
    intro cat
    have hcat := hroom hnew cat
    rwa [hlen] at hcat
  · rintro ⟨hwelcome, hnew, hroom⟩
    have hnone := mt hknown.mp (not_not.mpr hnew)
    obtain ⟨added, hadded, hholds⟩ :=
      h.holds.acceptConn_adds hfree hrefused hip hcount fun _ cat => by
        rw [hlen]
        exact hroom cat
    rw [if_neg hnone] at hholds
    exact ⟨added, [], hadded, fun _ => ⟨rfl, ip, hip, hholds⟩,
      fun hrefuse => absurd hwelcome hrefuse⟩

/-- A connection that is refused for its setup. -/
theorem Enrolled.judges_refused (h : Enrolled rt cfg set clients)
    (hrefused : setupRefused cfg conn = true) :
    AdmitsExactly rt cfg set clients conn ↔ JudgesRight rt cfg clients conn := by
  obtain ⟨hcalls, hdelay, hnoDelay⟩ := setupRefused_eq_true.mp hrefused
  rw [h.closes_iff (acceptConn_refused hrefused), welcome_iff, JudgesRight, if_neg hcalls]
  apply iff_of_true
  · rintro ⟨-, hneeded, -⟩
    exact hnoDelay (hneeded hdelay)
  · exact .inl ⟨hdelay, hnoDelay⟩

/-- If it is not refused, a last call that fails was not needed. -/
theorem noDelay_of_not_refused (hrefused : setupRefused cfg conn = false)
    (hcalls : ¬ (conn.nonBlocking ≠ 0 ∨ conn.keepalive ≠ 0)) :
    cfg.enableDelayingSockets = false → conn.noDelay = 0 := by
  intro hdelay
  by_contra hnoDelay
  have hclosed := setupRefused_eq_true.mpr ⟨hcalls, hdelay, hnoDelay⟩
  rw [hrefused] at hclosed
  contradiction

/-- A connection that the server counts a free place for. -/
theorem Enrolled.judges_counted (h : Enrolled rt cfg set clients) (hfree : set.len < set.cap)
    (hrefused : setupRefused cfg conn = false)
    (hip : ipAddrStorageFromSockaddr conn.addr = .ok ip)
    (hlimit : (toSize cfg.maxConnsPerIp : Int) = cfg.maxConnsPerIp)
    (hcount : likePeer clients conn.addr < toSize cfg.maxConnsPerIp) :
    AdmitsExactly rt cfg set clients conn ↔ JudgesRight rt cfg clients conn := by
  have hless := fromPeer_le_likePeer h conn.addr
  rw [h.counted_iff hfree hrefused hip hcount, welcome_iff, JudgesRight]
  by_cases hcalls : conn.nonBlocking ≠ 0 ∨ conn.keepalive ≠ 0
  · rw [if_pos hcalls]
    apply iff_of_false
    · intro hadmits
      exact hadmits.1.1 hcalls
    · omega
  · rw [if_neg hcalls]
    have hneeded := noDelay_of_not_refused hrefused hcalls
    constructor
    · rintro ⟨-, hnew, hroom⟩
      exact .inr (.inr ⟨by omega, hnew, hroom⟩)
    · rintro (⟨hdelay, hnoDelay⟩ | hfull | ⟨-, hnew, hroom⟩)
      · exact absurd (hneeded hdelay) hnoDelay
      · omega
      · exact ⟨⟨hcalls, hneeded, by omega⟩, hnew, hroom⟩

/-- A connection that the server counts no free place for. -/
theorem Enrolled.judges_full (h : Enrolled rt cfg set clients)
    (hrefused : setupRefused cfg conn = false)
    (hip : ipAddrStorageFromSockaddr conn.addr = .ok ip)
    (hlimit : (toSize cfg.maxConnsPerIp : Int) = cfg.maxConnsPerIp)
    (hcount : ¬ likePeer clients conn.addr < toSize cfg.maxConnsPerIp) :
    AdmitsExactly rt cfg set clients conn ↔ JudgesRight rt cfg clients conn := by
  have haccept : acceptConn cfg set conn = .ok (set, [.closed conn.socket]) := by
    rw [h.holds.acceptConn hrefused hip, h.countP_eq hip, if_neg hcount]
  rw [h.closes_iff haccept, welcome_iff, JudgesRight]
  by_cases hcalls : conn.nonBlocking ≠ 0 ∨ conn.keepalive ≠ 0
  · rw [if_pos hcalls]
    apply iff_of_true
    · intro hwelcome
      exact hwelcome.1 hcalls
    · omega
  · rw [if_neg hcalls]
    have hneeded := noDelay_of_not_refused hrefused hcalls
    constructor
    · intro hrefuse
      by_contra hright
      push Not at hright
      exact hrefuse ⟨hcalls, hneeded, by omega⟩
    · rintro (⟨hdelay, hnoDelay⟩ | hfull | ⟨hless, -⟩) hwelcome
      · exact hnoDelay (hneeded hdelay)
      · omega
      · omega

/-- In every state of the server, no address has more connections than it may have,
and the accept loop admits the next one exactly if it counts right. -/
theorem admission_exact_iff (h : Serves rt cfg set clients) (hmax : 0 ≤ cfg.maxConnsPerIp)
    (hint : cfg.maxConnsPerIp < 2 ^ 31) :
    (∀ addr, (fromPeer clients addr : Int) ≤ cfg.maxConnsPerIp) ∧
      ∀ conn : Accepted, (∀ family, conn.addr ≠ .other family) → set.len < set.cap →
        (AdmitsExactly rt cfg set clients conn ↔ JudgesRight rt cfg clients conn) := by
  have henrolled := h.enrolled
  have hlimit : (toSize cfg.maxConnsPerIp : Int) = cfg.maxConnsPerIp := by
    unfold toSize
    omega
  constructor
  · intro addr
    have hless := fromPeer_le_likePeer henrolled addr
    have hbound := henrolled.bounded addr
    omega
  intro conn hfamily hfree
  cases hrefused : setupRefused cfg conn with
  | true => exact henrolled.judges_refused hrefused
  | false =>
    obtain ⟨ip, hip⟩ : ∃ ip, ipAddrStorageFromSockaddr conn.addr = .ok ip := by
      cases haddr : conn.addr with
      | inet addr => exact ⟨_, rfl⟩
      | inet6 addr => exact ⟨_, rfl⟩
      | other family => exact absurd haddr (hfamily family)
    by_cases hcount : likePeer clients conn.addr < toSize cfg.maxConnsPerIp
    · exact henrolled.judges_counted hfree hrefused hip hlimit hcount
    · exact henrolled.judges_full hrefused hip hlimit hcount

end Exact

/-- A connection that has been set up. -/
def setUpConn (socket : Int) (addr : Vector Byte 4) : Accepted := ⟨socket, 0, 0, 0, .inet addr, 0⟩

/-- The set of a server that takes four connections. -/
def emptyConns : ConnSet :=
  ⟨fun cat => List.replicate (categorySize .unlimited 4 (connItemSizes cat)) none, connItemSizes, 0, 4⟩

theorem emptyConns_serves {cfg : ServerConfig Unit} (hcap : cfg.maxConcurrentConnections = 4) :
    Serves .unlimited cfg emptyConns [] := by
  apply Serves.started
  rw [hcap]
  rfl

/-- A server that takes two connections from an address has one, and takes another one. -/
theorem admission_exact_second : ∃ set clients, Serves .unlimited smallServer set clients ∧
    fromPeer clients (.inet #v[127, 0, 0, 1]) = 1 ∧ (∀ addr, (fromPeer clients addr : Int) ≤ 2) ∧
      (AdmitsExactly .unlimited smallServer set clients (setUpConn 6 #v[127, 0, 0, 1]) ↔
        JudgesRight .unlimited smallServer clients (setUpConn 6 #v[127, 0, 0, 1])) ∧
      AdmitsExactly .unlimited smallServer set clients (setUpConn 6 #v[127, 0, 0, 1]) := by
  have hfirst : (acceptConn smallServer emptyConns (setUpConn 5 #v[127, 0, 0, 1]) >>= fun first =>
      pure (first.1.len, first.1.cap)) = Except.ok (1, 4) := by decide +kernel
  obtain ⟨⟨set, calls⟩, haccept, hfirst⟩ := bind_eq_ok.mp hfirst
  have hresult : (set.len, set.cap) = (1, 4) := Except.ok.inj hfirst
  obtain ⟨hlen, hcap⟩ := Prod.mk.inj hresult
  have hserves : Serves .unlimited smallServer set
      [⟨newItems smallServer (setUpConn 5 #v[127, 0, 0, 1]) ⟨afInet, copyAddr 127⟩,
        .inet #v[127, 0, 0, 1]⟩] :=
    .admitted (emptyConns_serves rfl) (by decide) haccept hlen rfl
  obtain ⟨hbound, hexact⟩ := admission_exact_iff hserves (by decide) (by decide)
  have hiff := hexact (setUpConn 6 #v[127, 0, 0, 1]) (fun family hfamily => by contradiction)
    (by omega)
  refine ⟨set, _, hserves, by decide, hbound, hiff, hiff.mpr ?_⟩
  unfold JudgesRight
  decide +kernel

/-- A server that takes one connection from an address. -/
def oneEach : ServerConfig Unit := ⟨4, 1, 16, 4, -1, false, 0, none⟩

/-- With a connection from 127.0.0.1, one from 127.9.9.9 is turned away. -/
theorem neighbour_turned_away : ∃ set clients, Serves .unlimited oneEach set clients ∧
    set.len < set.cap ∧
      ¬ AdmitsExactly .unlimited oneEach set clients (setUpConn 6 #v[127, 9, 9, 9]) := by
  have hboth : (acceptConn oneEach emptyConns (setUpConn 5 #v[127, 0, 0, 1]) >>= fun first =>
      acceptConn oneEach first.1 (setUpConn 6 #v[127, 9, 9, 9]) >>= fun second =>
        pure (first.1.len, first.1.cap, first.2, second.2)) = Except.ok (1, 4, [], [.closed 6]) := by
    decide +kernel
  obtain ⟨⟨set, calls⟩, hfirst, hboth⟩ := bind_eq_ok.mp hboth
  obtain ⟨⟨set', more⟩, hsecond, hboth⟩ := bind_eq_ok.mp hboth
  have hresult : (set.len, set.cap, calls, more) = (1, 4, [], [SocketCall.closed 6]) :=
    Except.ok.inj hboth
  simp only [Prod.mk.injEq] at hresult
  obtain ⟨hlen, hcap, rfl, rfl⟩ := hresult
  have hserves : Serves .unlimited oneEach emptyConns [] := emptyConns_serves rfl
  refine ⟨set, _, .admitted hserves (by decide) hfirst hlen rfl, by omega, ?_⟩
  rintro ⟨other, calls, haccept, hadds, -⟩
  cases Except.ok.inj (hsecond.symm.trans haccept)
  have hwelcome : Welcome oneEach [⟨newItems oneEach (setUpConn 5 #v[127, 0, 0, 1])
      ⟨afInet, copyAddr 127⟩, .inet #v[127, 0, 0, 1]⟩] (setUpConn 6 #v[127, 9, 9, 9]) := by
    unfold Welcome
    decide +kernel
  exact absurd (hadds hwelcome).1 (by simp)

end Net77
