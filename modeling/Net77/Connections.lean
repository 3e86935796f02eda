import Mathlib.Data.List.Nodup
import Net77.McfssRefinement
import Net77.Server

/-! The entries of `timed_conn_pollfds` as connections, and what the loads, the
stores and the removals of the server loop do to them. -/
namespace Net77

open Net77.Base

/-- The bytes that the set has about a connection. -/
abbrev Conn := Tuple 4

namespace Conn

def fd (conn : Conn) : Int := toInt (leNat ((conn 0).take 4))
def revents (conn : Conn) : Nat := leNat (((conn 0).drop 6).take 2)
def lastUsage (conn : Conn) : Nat := leNat (conn 1)
def timeout (conn : Conn) : Int := toSsize (leNat (conn 2))

/-- Behind `pfd->revents = 0`. -/
def cleared (conn : Conn) : Conn := Function.update conn 0 ((conn 0).take 6 ++ leBytes 2 0)

/-- Behind `*time_last_usage_ptr = ...`. -/
def used (conn : Conn) (time : Nat) : Conn := Function.update conn 1 (leBytes 8 time)

end Conn

/-- The set holds the connections. -/
structure HoldsConns (shape : SetShape 4) (set : ConnSet) (conns : List Conn) : Prop extends
    Represents shape set conns where
  sizes_eq : shape.itemSizes = connItemSizes

/-- No two connections have the same descriptor. -/
def DistinctFds (conns : List Conn) : Prop := (conns.map Conn.fd).Nodup

instance (conns : List Conn) : Decidable (DistinctFds conns) :=
  inferInstanceAs (Decidable (conns.map Conn.fd).Nodup)

theorem Conn.fd_congr {conn other : Conn} (h : conn 0 = other 0) : conn.fd = other.fd := by
  unfold Conn.fd
  rw [h]

theorem DistinctFds.fd_ne {conns : List Conn} (h : DistinctFds conns) {i j : Nat}
    (hi : i < conns.length) (hj : j < conns.length) (hne : i ≠ j) : conns[i].fd ≠ conns[j].fd := by
  intro heq
  have hi' : i < (conns.map Conn.fd).length := by rwa [List.length_map]
  have hj' : j < (conns.map Conn.fd).length := by rwa [List.length_map]
  have hget : (conns.map Conn.fd)[i] = (conns.map Conn.fd)[j] := by
    rw [List.getElem_map, List.getElem_map, heq]
  exact hne ((List.Nodup.getElem_inj_iff h).mp hget)

@[simp] theorem Conn.fd_used (conn : Conn) (time : Nat) : (conn.used time).fd = conn.fd := rfl

theorem Conn.fd_cleared {conn : Conn} (hlen : (conn 0).length = 8) :
    conn.cleared.fd = conn.fd := by
  unfold fd cleared
  rw [Function.update_self, List.take_append_of_le_length (by rw [List.length_take]; omega),
    List.take_take]
  rfl

/-- The search for an entry's own `pollfd` ends at the entry. -/
theorem DistinctFds.findIdx?_pollfd {conns : List Conn} (h : DistinctFds conns) {slot : Nat}
    (hslot : slot < conns.length) :
    conns.findIdx? (fun conn => conn 0 = conns[slot] 0) = some slot := by
  rw [List.findIdx?_eq_some_iff_getElem]
  refine ⟨hslot, decide_eq_true rfl, ?_⟩
  intro j hj heq
  exact h.fd_ne (hj.trans hslot) hslot hj.ne (Conn.fd_congr (of_decide_eq_true heq))

theorem DistinctFds.set {conns : List Conn} (h : DistinctFds conns) {slot : Nat}
    (hslot : slot < conns.length) {conn : Conn} (hfd : conn.fd = conns[slot].fd) :
    DistinctFds (conns.set slot conn) := by
  unfold DistinctFds
  have hmapped : slot < (conns.map Conn.fd).length := by rwa [List.length_map]
  have hsame : conns[slot].fd = (conns.map Conn.fd)[slot] := by rw [List.getElem_map]
  rwa [List.map_set, hfd, hsame, List.set_getElem_self]

namespace HoldsConns

variable {shape : SetShape 4} {set : ConnSet} {conns : List Conn} {slot : Nat}

theorem length_pollfd (h : HoldsConns shape set conns) {conn : Conn} (hconn : conn ∈ conns) :
    (conn 0).length = 8 := by
  have hsized := h.sized 0 (conn 0) (List.mem_map.mpr ⟨conn, hconn, rfl⟩)
  rwa [h.sizes_eq] at hsized

/-- Loading from an item. -/
theorem read_part (h : HoldsConns shape set conns) (hslot : slot < conns.length) {cat : Fin 4}
    {off size : Nat} (hfits : off + size ≤ connItemSizes cat) :
    readCells ((set.data cat).drop (slot * connItemSizes cat + off)) size =
      .ok (((conns[slot] cat).drop off).take size) := by
  rw [← h.sizes_eq] at hfits ⊢
  exact h.toRepresents.read_part hslot hfits

theorem loadFd (h : HoldsConns shape set conns) (hslot : slot < conns.length) :
    Net77.loadFd set slot = .ok conns[slot].fd := by
  have hread : readCells ((set.data 0).drop (slot * 8)) 4 = .ok ((conns[slot] 0).take 4) :=
    h.read_part hslot (by decide : 0 + 4 ≤ connItemSizes 0)
  unfold Net77.loadFd
  rw [hread]
  rfl

theorem loadRevents (h : HoldsConns shape set conns) (hslot : slot < conns.length) :
    Net77.loadRevents set slot = .ok conns[slot].revents := by
  have hread : readCells ((set.data 0).drop (slot * 8 + 6)) 2 =
      .ok (((conns[slot] 0).drop 6).take 2) :=
    h.read_part hslot (by decide : 6 + 2 ≤ connItemSizes 0)
  unfold Net77.loadRevents
  rw [hread]
  rfl

/-- An item as a key for a search. -/
theorem read_key (h : HoldsConns shape set conns) (hslot : slot < conns.length) :
    readCells ((set.data 0).drop (slot * 8)) (shape.itemSizes 0) = .ok (conns[slot] 0) := by
  have hread := h.read_item hslot 0
  rwa [h.sizes_eq] at hread ⊢

theorem storeAt (h : HoldsConns shape set conns) (hslot : slot < conns.length) {cat : Fin 4}
    {off : Nat} {bytes : Bytes} (hfits : off + bytes.length ≤ connItemSizes cat) :
    ∃ set', Net77.storeAt set cat (slot * connItemSizes cat + off) bytes = .ok set' ∧
      HoldsConns shape set' (conns.set slot (Function.update conns[slot] cat
        ((conns[slot] cat).take off ++ bytes ++ (conns[slot] cat).drop (off + bytes.length)))) := by
  obtain ⟨cells, hcells, hstored⟩ := h.store hslot (by rwa [h.sizes_eq] :
    off + bytes.length ≤ shape.itemSizes cat)
  refine ⟨_, ?_, hstored, h.sizes_eq⟩
  unfold Net77.storeAt
  rw [← h.sizes_eq, hcells]
  rfl

theorem clear (h : HoldsConns shape set conns) (hslot : slot < conns.length) :
    ∃ set', storeRevents set slot 0 = .ok set' ∧
      HoldsConns shape set' (conns.set slot conns[slot].cleared) := by
  obtain ⟨set', hstore, hset'⟩ := h.storeAt hslot (by decide :
    6 + (leBytes 2 0).length ≤ connItemSizes 0)
  have hnothing : (conns[slot] 0).drop (6 + (leBytes 2 0).length) = [] :=
    List.drop_of_length_le (h.length_pollfd (List.getElem_mem hslot)).le
  rw [hnothing, List.append_nil] at hset'
  exact ⟨set', hstore, hset'⟩

theorem use (h : HoldsConns shape set conns) (hslot : slot < conns.length) (time : Nat) :
    ∃ set', Net77.storeAt set 1 (slot * 8) (leBytes 8 time) = .ok set' ∧
      HoldsConns shape set' (conns.set slot (conns[slot].used time)) := by
  have hlen : 0 + (leBytes 8 time).length ≤ connItemSizes 1 := by
    rw [length_leBytes]
    decide
  obtain ⟨set', hstore, hset'⟩ := h.storeAt hslot hlen
  have hitem : (conns[slot] 1).length = 8 := by
    have hitem := h.length_item hslot 1
    rwa [h.sizes_eq] at hitem
  have hnothing : (conns[slot] 1).drop (0 + (leBytes 8 time).length) = [] := by
    apply List.drop_of_length_le
    rw [length_leBytes, hitem]
  rw [hnothing, List.append_nil, List.take_zero, List.nil_append] at hset'
  exact ⟨set', hstore, hset'⟩

/-- An entry is removed through the pointer to its slot. -/
theorem removeSlot (h : HoldsConns shape set conns) (hdistinct : DistinctFds conns)
    (hslot : slot < conns.length) :
    ∃ set', mcfsSetRemove set ((set.data 0).drop (slot * 8)) 0 = .ok (set', 0) ∧
      HoldsConns shape set' (conns.eraseIdx slot) ∧
        (slot + 1 = conns.length → set'.data = set.data) := by
  obtain ⟨set', hremove, hset', hlast⟩ :=
    h.mcfsSetRemove_at (h.read_key hslot) (hdistinct.findIdx?_pollfd hslot)
  exact ⟨set', hremove, ⟨hset', h.sizes_eq⟩, hlast⟩

/-- The pointer that the lookup of the last-use time returns. -/
theorem lookup (h : HoldsConns shape set conns) (hdistinct : DistinctFds conns)
    (hslot : slot < conns.length) :
    mcfsSetGetAssocItemPtr set ((set.data 0).drop (slot * 8)) 0 1 = .ok (some (slot * 8)) := by
  rw [h.getAssocItemPtr_at (h.read_key hslot) (hdistinct.findIdx?_pollfd hslot), h.sizes_eq]
  rfl

theorem distinct_clear (h : HoldsConns shape set conns) (hdistinct : DistinctFds conns)
    (hslot : slot < conns.length) : DistinctFds (conns.set slot conns[slot].cleared) :=
  hdistinct.set hslot (Conn.fd_cleared (h.length_pollfd (List.getElem_mem hslot)))

/-- The key is the value of a pointer, and an entry with these bytes is removed. -/
theorem removeFinished (h : HoldsConns shape set conns) (hslot : slot < conns.length)
    (dataAddr : Nat) :
    ∃ set', Net77.removeFinished dataAddr set slot = .ok (set', decide ((removeTuple
        (conns.set slot conns[slot].cleared) (pointerBytes dataAddr slot) 0).2 = 0)) ∧
      HoldsConns shape set' (removeTuple (conns.set slot conns[slot].cleared)
        (pointerBytes dataAddr slot) 0).1 := by
  obtain ⟨set₁, hclear, hset₁⟩ := h.clear hslot
  have hkey : readCells ((pointerBytes dataAddr slot).map some) (shape.itemSizes 0) =
      .ok (pointerBytes dataAddr slot) := by
    have hlen : shape.itemSizes 0 = (pointerBytes dataAddr slot).length := by
      rw [pointerBytes, length_leBytes, h.sizes_eq]
      rfl
    rw [readCells_map hlen.le, hlen, List.take_length]
  obtain ⟨set', hremove, hset'⟩ := hset₁.mcfsSetRemove hkey
  refine ⟨set', ?_, hset', h.sizes_eq⟩
  unfold Net77.removeFinished
  rw [hclear, ok_bind, hremove]
  rfl

end HoldsConns

/-- What the loops do to the set: `revents` are stored in a slot, the last-use time
of an entry is set, and entries are removed. -/
inductive Edits : ConnSet → ConnSet → Prop where
  | refl (set : ConnSet) : Edits set set
  | stored {set mid set' : ConnSet} {slot revents : Nat} (edits : Edits set mid)
      (hstore : storeRevents mid slot revents = .ok set') : Edits set set'
  | used {set mid set' : ConnSet} {item : List (Option Byte)} {off time : Nat}
      (edits : Edits set mid) (hlookup : mcfsSetGetAssocItemPtr mid item 0 1 = .ok (some off))
      (hstore : storeAt mid 1 off (leBytes 8 time) = .ok set') : Edits set set'
  | removed {set mid set' : ConnSet} {item : List (Option Byte)} {missing : Int}
      (edits : Edits set mid) (hremove : mcfsSetRemove mid item 0 = .ok (set', missing)) :
      Edits set set'

theorem storeAt_len {set set' : ConnSet} {cat : Fin 4} {off : Nat} {bytes : Bytes}
    (h : storeAt set cat off bytes = .ok set') : set'.len = set.len := by
  obtain ⟨cells, -, h⟩ := bind_eq_ok.mp h
  cases Except.ok.inj h
  rfl

theorem mcfsSetRemove_len_le {n : Nat} {set set' : MultiCategoryFixedSizeSet n}
    {item : List (Option Byte)} {cat : Fin n} {missing : Int}
    (h : mcfsSetRemove set item cat = .ok (set', missing)) : set'.len ≤ set.len := by
  obtain ⟨found, -, h⟩ := bind_eq_ok.mp h
  cases found with
  | none =>
    cases Except.ok.inj h
    exact le_rfl
  | some idx =>
    obtain ⟨data, -, h⟩ := bind_eq_ok.mp h
    cases Except.ok.inj h
    exact Nat.sub_le _ _

namespace Edits

variable {set mid set' : ConnSet} {slot : Nat}

theorem trans (h : Edits set mid) (hmore : Edits mid set') : Edits set set' := by
  induction hmore with
  | refl => exact h
  | stored _ hstore ih => exact .stored ih hstore
  | used _ hlookup hstore ih => exact .used ih hlookup hstore
  | removed _ hremove ih => exact .removed ih hremove

/-- Nothing is added. -/
theorem len_le (h : Edits set set') : set'.len ≤ set.len := by
  induction h with
  | refl => exact le_rfl
  | stored _ hstore ih => exact (storeAt_len hstore).le.trans ih
  | used _ _ hstore ih => exact (storeAt_len hstore).le.trans ih
  | removed _ hremove ih => exact (mcfsSetRemove_len_le hremove).trans ih

theorem of_removeFinished {dataAddr : Nat} {found : Bool}
    (h : removeFinished dataAddr set slot = .ok (set', found)) : Edits set set' := by
  obtain ⟨set₁, hstore, h⟩ := bind_eq_ok.mp h
  obtain ⟨⟨set₂, missing⟩, hremove, h⟩ := bind_eq_ok.mp h
  cases Except.ok.inj h
  exact .removed (.stored (.refl set) hstore) hremove

theorem of_noteReception {fd : Int} {time : Nat} {res : RecvResult} {calls : List SocketCall}
    {closed : Bool}
    (h : noteReception set slot fd time res = .ok (set', calls, closed)) : Edits set set' := by
  unfold noteReception at h
  split at h
  · obtain ⟨set₁, hstore, h⟩ := bind_eq_ok.mp h
    obtain ⟨⟨set₂, missing⟩, hremove, h⟩ := bind_eq_ok.mp h
    cases Except.ok.inj h
    exact .removed (.stored (.refl set) hstore) hremove
  · obtain ⟨place, hlookup, h⟩ := bind_eq_ok.mp h
    cases place with
    | none => contradiction
    | some off =>
      obtain ⟨set₁, hstore, h⟩ := bind_eq_ok.mp h
      cases Except.ok.inj h
      exact .used (.refl set) hlookup hstore

end Edits

/-- A server that takes four connections. -/
def fourConns : SetShape 4 := ⟨4, connItemSizes, fun cat => 4 * connItemSizes cat, by decide⟩

theorem fourConns_holds {conns : List Conn} (hlen : conns.length ≤ 4)
    (hsized : ∀ cat, OfWidth (connItemSizes cat) (conns.map fun conn => conn cat)) :
    HoldsConns fourConns (fourConns.pack conns) conns where
  toRepresents := SetShape.pack_represents hlen hsized fun _ => Nat.mul_le_mul_right _ hlen
  sizes_eq := rfl

/-- A connection from 127.0.0.1. -/
def localConn (fd : Int) (revents lastUsage : Nat) (timeout : Int) : Conn :=
  ![(newPollfd fd).take 6 ++ leBytes 2 revents, leBytes 8 lastUsage, leBytes 8 (toSize timeout),
    IpAddrStorage.bytes ⟨afInet, copyAddr 127⟩]

theorem length_localConn (fd : Int) (revents lastUsage : Nat) (timeout : Int) (cat : Fin 4) :
    (localConn fd revents lastUsage timeout cat).length = connItemSizes cat := by
  match cat with
  | 0 => rfl
  | 1 => rfl
  | 2 => rfl
  | 3 => rfl

end Net77
