import Net77.Admission
import Net77.Base.Slots

/-! The slots of the first array, also those behind the entries: `memmove` leaves
copies there, and the poll loop goes through them. -/
namespace Net77

open Net77.Base

section Cells

variable {cells : List (Option Byte)}

/-- Loading needs only as many cells as it loads. -/
theorem readCells_take {n m : Nat} (h : n ≤ m) : readCells (cells.take m) n = readCells cells n := by
  induction n generalizing cells m with
  | zero => simp [readCells]
  | succ n ih =>
    cases m with
    | zero => omega
    | succ m =>
      cases cells with
      | nil => rfl
      | cons cell cells =>
        cases cell with
        | none => rfl
        | some byte =>
          rw [List.take_succ_cons, readCells, readCells, ih (Nat.le_of_succ_le_succ h)]

theorem writeCells_eq_ok {off : Nat} {bytes : Bytes} {cells' : List (Option Byte)} :
    writeCells cells off bytes = .ok cells' ↔
      off + bytes.length ≤ cells.length ∧ cells' = overwrite cells off (bytes.map some) := by
  unfold writeCells overwrite
  rw [List.length_map]
  constructor
  · intro h
    split at h
    · rename_i hfits
      exact ⟨hfits, (Except.ok.inj h).symm⟩
    · contradiction
  · rintro ⟨hfits, rfl⟩
    rw [if_pos hfits]
    rfl

/-- `pfd->fd` in a slot. -/
def fdIn (cells : List (Option Byte)) : Except Stop Int := do
  let bytes ← readCells cells 4
  pure (toInt (leNat bytes))

/-- `pfd->revents` in a slot. -/
def reventsIn (cells : List (Option Byte)) : Except Stop Nat := do
  let bytes ← readCells (cells.drop 6) 2
  pure (leNat bytes)

/-- A stored `revents` is loaded again, and the descriptor is not touched. -/
theorem reventsIn_overwrite (hlen : cells.length = 8) (revents : Nat) :
    reventsIn (overwrite cells 6 ((leBytes 2 revents).map some)) = .ok (leNat (leBytes 2 revents)) ∧
      fdIn (overwrite cells 6 ((leBytes 2 revents).map some)) = fdIn cells := by
  have hfront : (cells.take 6).length = 6 := by
    rw [List.length_take]
    omega
  unfold overwrite
  rw [List.append_assoc]
  constructor
  · have htwo : (leBytes 2 revents).length = 2 := length_leBytes 2 revents
    have hread : readCells ((leBytes 2 revents).map some) 2 = .ok (leBytes 2 revents) := by
      rw [readCells_map htwo.ge, List.take_of_length_le htwo.le]
    unfold reventsIn
    rw [List.drop_left' hfront, ← readCells_take le_rfl, List.take_left' (by simp), hread]
    rfl
  · unfold fdIn
    rw [← readCells_take (by omega : 4 ≤ 6), List.take_left' hfront, readCells_take (by omega)]

end Cells

/-- The cells of a slot of the first array. -/
def pollfdCells (set : ConnSet) (i : Nat) : List (Option Byte) := slot 8 (set.data 0) i

section Slots

variable {set set' : ConnSet} {shape : SetShape 4} {conns : List Conn}

theorem loadFd_eq (set : ConnSet) (i : Nat) : loadFd set i = fdIn (pollfdCells set i) := by
  unfold loadFd fdIn pollfdCells slot
  rw [readCells_take (by omega)]

theorem loadRevents_eq (set : ConnSet) (i : Nat) :
    loadRevents set i = reventsIn (pollfdCells set i) := by
  unfold loadRevents reventsIn pollfdCells slot
  rw [List.drop_take, List.drop_drop, readCells_take (by omega)]

theorem pollfdCells_congr (h : set'.data 0 = set.data 0) (i : Nat) :
    pollfdCells set' i = pollfdCells set i := by
  unfold pollfdCells
  rw [h]

/-- The other arrays are apart. -/
theorem storeAt_pollfds {cat : Fin 4} {off : Nat} {bytes : Bytes}
    (h : storeAt set cat off bytes = .ok set') (hother : 0 ≠ cat) : set'.data 0 = set.data 0 := by
  obtain ⟨cells, -, h⟩ := bind_eq_ok.mp h
  cases Except.ok.inj h
  exact Function.update_of_ne hother _ _

/-- What a store of `revents` does to the slots. -/
structure Marked (set set' : ConnSet) (i revents : Nat) : Prop where
  len_eq : set'.len = set.len
  own : loadRevents set' i = .ok (leNat (leBytes 2 revents))
  others : ∀ j ≠ i, pollfdCells set' j = pollfdCells set j
  fds : ∀ j, loadFd set' j = loadFd set j

theorem storeRevents_marked {i revents : Nat} (h : storeRevents set i revents = .ok set') :
    Marked set set' i revents := by
  have hlen := storeAt_len h
  obtain ⟨cells, hcells, h⟩ := bind_eq_ok.mp h
  cases Except.ok.inj h
  obtain ⟨hfits, rfl⟩ := writeCells_eq_ok.mp hcells
  rw [length_leBytes] at hfits
  have hpart : 6 + ((leBytes 2 revents).map some).length ≤ 8 := by simp
  have hown : slot 8 (overwrite (set.data 0) (i * 8 + 6) ((leBytes 2 revents).map some)) i =
      overwrite (pollfdCells set i) 6 ((leBytes 2 revents).map some) :=
    slot_overwrite_self hpart (by omega)
  have hwhole : (pollfdCells set i).length = 8 := by
    unfold pollfdCells slot
    rw [List.length_take, List.length_drop]
    omega
  obtain ⟨hrevents, hfd⟩ := reventsIn_overwrite hwhole revents
  have hothers : ∀ j ≠ i,
      slot 8 (overwrite (set.data 0) (i * 8 + 6) ((leBytes 2 revents).map some)) j =
        pollfdCells set j := by
    intro j hne
    exact slot_overwrite_of_ne hne.symm hpart (by simp; omega)
  constructor
  · exact hlen
  · rw [loadRevents_eq, pollfdCells]
    dsimp only
    rw [Function.update_self, hown, hrevents]
  · intro j hne
    rw [pollfdCells]
    dsimp only
    rw [Function.update_self, hothers j hne]
  · intro j
    rw [loadFd_eq, loadFd_eq, pollfdCells]
    dsimp only
    rw [Function.update_self]
    by_cases heq : j = i
    · rw [heq, hown, hfd]
    · rw [hothers j heq]

theorem HoldsConns.closeGap_eq (h : HoldsConns shape set conns) {idx : Nat} (hidx : idx < set.len) :
    Net77.closeGap set idx 0 = .ok (closeSlot 8 set.len idx (set.data 0)) := by
  have hfits := h.length_column_le 0
  have hsize := h.size_eq 0
  have hroom := shape.room_lt 0
  have hitems : shape.itemSizes 0 = 8 := by
    rw [h.sizes_eq]
    rfl
  rw [hitems, ← h.len_eq] at hfits
  have hmoved : (((set.data 0).drop (8 * (idx + 1))).take (8 * (set.len - 1 - idx))).length =
      8 * (set.len - 1 - idx) := by
    rw [List.length_take, List.length_drop]
    omega
  unfold Net77.closeGap moveCells closeSlot overwrite
  rw [h.itemSizes_eq, hitems, Nat.mod_eq_of_lt (by omega), Nat.mod_eq_of_lt (by omega),
    Nat.mod_eq_of_lt (by omega), if_pos (by omega), Nat.mul_comm idx, Nat.mul_comm (idx + 1),
    Nat.mul_comm (set.len - 1 - idx), hmoved]
  rfl

/-- What a removal does to the slots. -/
structure Removed (set set' : ConnSet) (idx : Nat) : Prop where
  idx_lt : idx < set.len
  len_eq : set'.len + 1 = set.len
  cells : ∀ j, pollfdCells set' j = pollfdCells set (behindGap set.len idx j)

theorem HoldsConns.removed (h : HoldsConns shape set conns) {item : List (Option Byte)}
    {missing : Int} (hremove : Net77.mcfsSetRemove set item 0 = .ok (set', missing)) :
    set' = set ∨ ∃ idx, Removed set set' idx := by
  obtain ⟨found, hfind, hremove⟩ := bind_eq_ok.mp hremove
  cases found with
  | none =>
    cases Except.ok.inj hremove
    exact .inl rfl
  | some idx =>
    have hidx := findInArray_lt hfind
    obtain ⟨data, hdata, hremove⟩ := bind_eq_ok.mp hremove
    cases Except.ok.inj hremove
    have hgap := forEach_eq_ok.mp hdata 0
    rw [h.closeGap_eq hidx] at hgap
    have hroom := h.length_column_le 0
    have hitems : shape.itemSizes 0 = 8 := by
      rw [h.sizes_eq]
      rfl
    rw [hitems, ← h.len_eq, ← h.size_eq 0] at hroom
    refine .inr ⟨idx, hidx, by dsimp only; omega, ?_⟩
    intro j
    unfold pollfdCells
    dsimp only
    rw [← Except.ok.inj hgap, slot_closeSlot hidx hroom]

/-- The set still holds connections. -/
theorem Edits.holds (hedits : Edits set set') (h : HoldsConns shape set conns) :
    ∃ conns', HoldsConns shape set' conns' := by
  have hclients : (conns.map fun conn => (⟨conn, .other 0⟩ : Client)).map Client.conn = conns := by
    rw [List.map_map]
    exact List.map_id conns
  rw [← hclients] at h
  obtain ⟨left, -, hholds⟩ := hedits.leaves h
  exact ⟨_, hholds⟩

/-- Every descriptor is one that was there before. -/
theorem Edits.loadFd (hedits : Edits set set') (h : HoldsConns shape set conns) (j : Nat) :
    ∃ i, Net77.loadFd set' j = Net77.loadFd set i := by
  induction hedits generalizing j with
  | refl => exact ⟨j, rfl⟩
  | stored _ hstore ih =>
    obtain ⟨i, hi⟩ := ih j
    exact ⟨i, ((storeRevents_marked hstore).fds j).trans hi⟩
  | used _ _ hstore ih =>
    obtain ⟨i, hi⟩ := ih j
    refine ⟨i, ?_⟩
    rw [← hi, loadFd_eq, loadFd_eq, pollfdCells_congr (storeAt_pollfds hstore (by decide))]
  | removed hmid hremove ih =>
    obtain ⟨left, hholds⟩ := hmid.holds h
    rcases hholds.removed hremove with rfl | ⟨idx, hremoved⟩
    · exact ih j
    · obtain ⟨i, hi⟩ := ih (behindGap _ idx j)
      refine ⟨i, ?_⟩
      rw [← hi, loadFd_eq, loadFd_eq, hremoved.cells]

end Slots

section Rounds

variable {σ : Type} {rt : Runtime} {cfg : ServerConfig σ} {dataAddr slot : Nat}
  {arrival : Arrival σ} {set set' : ConnSet} {log : List ServerEvent} {again : Bool}

/-- A round that returns: it ends with the reception, or goes on to the flags. -/
theorem handleConn_cases
    (h : handleConn rt cfg dataAddr arrival set slot = .ok (set', log, again)) :
    ∃ fd revents, loadFd set slot = .ok fd ∧ loadRevents set slot = .ok revents ∧
      ((again = true ∧ revents &&& pollin ≠ 0 ∧
          receiveConn rt cfg dataAddr set slot fd arrival = .ok (set', log, true)) ∨
        (∃ mid log₁ more, revents &&& pollin ≠ 0 ∧
          receiveConn rt cfg dataAddr set slot fd arrival = .ok (mid, log₁, false) ∧
          finishConn dataAddr mid slot fd = .ok (set', more, again) ∧ log = log₁ ++ more) ∨
        finishConn dataAddr set slot fd = .ok (set', log, again)) := by
  obtain ⟨fd, hfd, h⟩ := bind_eq_ok.mp h
  obtain ⟨revents, hrevents, h⟩ := bind_eq_ok.mp h
  refine ⟨fd, revents, hfd, hrevents, ?_⟩
  dsimp only at h
  by_cases hpollin : revents &&& pollin ≠ 0
  · rw [if_pos hpollin] at h
    obtain ⟨⟨mid, log₁, closed⟩, hreceive, h⟩ := bind_eq_ok.mp h
    dsimp only at h
    cases closed with
    | true =>
      rw [if_pos rfl] at h
      cases Except.ok.inj h
      exact .inl ⟨rfl, hpollin, hreceive⟩
    | false =>
      rw [if_neg (by decide)] at h
      obtain ⟨⟨finished, more, wasClosed⟩, hfinish, h⟩ := bind_eq_ok.mp h
      cases Except.ok.inj h
      exact .inr (.inl ⟨mid, log₁, more, hpollin, hreceive, hfinish, rfl⟩)
  · rw [if_neg hpollin, pure_eq_ok, ok_bind] at h
    dsimp only at h
    rw [if_neg (by decide)] at h
    obtain ⟨⟨finished, more, wasClosed⟩, hfinish, h⟩ := bind_eq_ok.mp h
    cases Except.ok.inj h
    exact .inr (.inr hfinish)

end Rounds

end Net77
