import Net77.Server

/-! Of what the main loop of the server does, only a reception can wait for an event
that does not come. -/
namespace Net77

open Net77.Base

/-- The call does not wait for an event that does not come. -/
def NeverHangs {α : Type} (result : Except Stop α) : Prop := result ≠ .error .blocked

section Results

variable {α β : Type}

theorem neverHangs_ok (a : α) : NeverHangs (Except.ok a : Except Stop α) := by
  intro h
  contradiction

theorem neverHangs_fault (fault : Fault) :
    NeverHangs (Except.error (.fault fault) : Except Stop α) := by
  intro h
  cases Except.error.inj h

theorem neverHangs_iff_avoids {result : Except Stop α} :
    NeverHangs result ↔ Avoids (· = .blocked) result := by
  cases result with
  | ok a => exact iff_of_true (neverHangs_ok a) (avoids_ok a)
  | error stop => exact not_congr ⟨Except.error.inj, congrArg Except.error⟩

theorem neverHangs_bind {call : Except Stop α} {next : α → Except Stop β} :
    NeverHangs (call >>= next) ↔ NeverHangs call ∧ ∀ a, call = .ok a → NeverHangs (next a) := by
  simp only [neverHangs_iff_avoids]
  exact avoids_bind

/-- A sequence hangs behind a call that does not. -/
theorem NeverHangs.bind_iff {call : Except Stop α} {next : α → Except Stop β}
    (h : NeverHangs call) : (call >>= next) = .error .blocked ↔
      ∃ a, call = .ok a ∧ next a = .error .blocked :=
  bind_eq_error.trans (or_iff_right h)

/-- A sequence hangs in its first call if nothing behind it does. -/
theorem hangs_bind_iff {call : Except Stop α} {next : α → Except Stop β}
    (h : ∀ a, call = .ok a → NeverHangs (next a)) :
    (call >>= next) = .error .blocked ↔ call = .error .blocked := by
  refine bind_eq_error.trans (or_iff_left ?_)
  rintro ⟨a, hcall, hnext⟩
  exact h a hcall hnext

theorem neverHangs_forEach {n : Nat} {call : Fin n → Except Stop α}
    (h : ∀ i, NeverHangs (call i)) : NeverHangs (forEach call) :=
  neverHangs_iff_avoids.mpr (avoids_forEach fun i => neverHangs_iff_avoids.mp (h i))

theorem neverHangs_ite {p : Prop} [Decidable p] {first second : Except Stop α}
    (hfirst : NeverHangs first) (hsecond : NeverHangs second) :
    NeverHangs (if p then first else second) := by
  split
  · exact hfirst
  · exact hsecond

end Results

section Cells

theorem readCells_neverHangs (cells : List (Option Byte)) (n : Nat) :
    NeverHangs (readCells cells n) := by
  fun_induction readCells cells n with
  | case1 => exact neverHangs_ok _
  | case2 => exact neverHangs_fault _
  | case3 => exact neverHangs_fault _
  | case4 n byte cells ih => exact neverHangs_bind.mpr ⟨ih, fun bytes _ => neverHangs_ok _⟩

theorem writeCells_neverHangs (cells : List (Option Byte)) (off : Nat) (bytes : Bytes) :
    NeverHangs (writeCells cells off bytes) := by
  unfold writeCells
  split
  · exact neverHangs_ok _
  · exact neverHangs_fault _

theorem memEq_neverHangs (left right : List (Option Byte)) (size : Nat) :
    NeverHangs (memEq left right size) := by
  refine neverHangs_bind.mpr ⟨readCells_neverHangs left size, fun first _ => ?_⟩
  exact neverHangs_bind.mpr ⟨readCells_neverHangs right size, fun second _ => neverHangs_ok _⟩

theorem moveCells_neverHangs (data : List (Option Byte)) (dst src size : Nat) :
    NeverHangs (moveCells data dst src size) := by
  unfold moveCells
  split
  · exact neverHangs_ok _
  · exact neverHangs_fault _

end Cells

section Set

variable {n : Nat} (set : MultiCategoryFixedSizeSet n)

theorem findInArray_neverHangs (data item : List (Option Byte)) (len itemSize : Nat) :
    NeverHangs (findInArray data len item itemSize) := by
  unfold findInArray
  generalize (0 : Nat) = i
  induction len generalizing i with
  | zero => exact neverHangs_ok _
  | succ rest ih =>
    refine neverHangs_bind.mpr ⟨memEq_neverHangs _ _ _, fun found _ => ?_⟩
    split
    · exact neverHangs_ok _
    · exact ih (i + 1)

theorem mcfsSetAdd_neverHangs (items : Fin n → Bytes) (cat : Fin n) :
    NeverHangs (mcfsSetAdd set items cat) := by
  unfold mcfsSetAdd
  split
  · exact neverHangs_ok _
  · refine neverHangs_bind.mpr ⟨findInArray_neverHangs _ _ _ _, fun found _ => ?_⟩
    cases found with
    | some idx => exact neverHangs_ok _
    | none =>
      refine neverHangs_bind.mpr ⟨neverHangs_forEach fun other => ?_, fun data _ => neverHangs_ok _⟩
      unfold storeItem
      split
      · exact neverHangs_fault _
      · exact writeCells_neverHangs _ _ _

theorem mcfsSetRemove_neverHangs (item : List (Option Byte)) (cat : Fin n) :
    NeverHangs (mcfsSetRemove set item cat) := by
  refine neverHangs_bind.mpr ⟨findInArray_neverHangs _ _ _ _, fun found _ => ?_⟩
  cases found with
  | none => exact neverHangs_ok _
  | some idx =>
    refine neverHangs_bind.mpr ⟨neverHangs_forEach fun other => ?_, fun data _ => neverHangs_ok _⟩
    exact moveCells_neverHangs _ _ _ _

theorem mcfsSetGetAssocItemPtr_neverHangs (item : List (Option Byte)) (group target : Fin n) :
    NeverHangs (mcfsSetGetAssocItemPtr set item group target) := by
  refine neverHangs_bind.mpr ⟨findInArray_neverHangs _ _ _ _, fun found _ => ?_⟩
  cases found with
  | none => exact neverHangs_ok _
  | some idx => exact neverHangs_ok _

end Set

section Connections

variable (set : ConnSet) (slot : Nat)

theorem loadFd_neverHangs : NeverHangs (loadFd set slot) :=
  neverHangs_bind.mpr ⟨readCells_neverHangs _ _, fun _ _ => neverHangs_ok _⟩

theorem loadRevents_neverHangs : NeverHangs (loadRevents set slot) :=
  neverHangs_bind.mpr ⟨readCells_neverHangs _ _, fun _ _ => neverHangs_ok _⟩

theorem storeAt_neverHangs (cat : Fin 4) (off : Nat) (bytes : Bytes) :
    NeverHangs (storeAt set cat off bytes) :=
  neverHangs_bind.mpr ⟨writeCells_neverHangs _ _ _, fun _ _ => neverHangs_ok _⟩

theorem pollInto_neverHangs (revents : Nat → Nat) (n : Nat) :
    NeverHangs (pollInto set revents n) := by
  induction n with
  | zero => exact neverHangs_ok _
  | succ n ih => exact neverHangs_bind.mpr ⟨ih, fun mid _ => storeAt_neverHangs mid 0 _ _⟩

theorem removeFinished_neverHangs (dataAddr : Nat) :
    NeverHangs (removeFinished dataAddr set slot) := by
  refine neverHangs_bind.mpr ⟨storeAt_neverHangs set 0 _ _, fun marked _ => ?_⟩
  exact neverHangs_bind.mpr ⟨mcfsSetRemove_neverHangs marked _ 0, fun removed _ => neverHangs_ok _⟩

theorem noteReception_neverHangs (fd : Int) (time : Nat) (res : RecvResult) :
    NeverHangs (noteReception set slot fd time res) := by
  unfold noteReception
  split
  · refine neverHangs_bind.mpr ⟨storeAt_neverHangs set 0 _ _, fun marked _ => ?_⟩
    exact neverHangs_bind.mpr ⟨mcfsSetRemove_neverHangs marked _ 0, fun removed _ => neverHangs_ok _⟩
  · refine neverHangs_bind.mpr ⟨mcfsSetGetAssocItemPtr_neverHangs set _ 0 1, fun place _ => ?_⟩
    cases place with
    | none => exact neverHangs_fault _
    | some off =>
      exact neverHangs_bind.mpr ⟨storeAt_neverHangs set 1 _ _, fun used _ => neverHangs_ok _⟩

theorem finishConn_neverHangs (dataAddr : Nat) (fd : Int) :
    NeverHangs (finishConn dataAddr set slot fd) := by
  refine neverHangs_bind.mpr ⟨loadRevents_neverHangs set slot, fun revents _ => ?_⟩
  split
  · exact neverHangs_bind.mpr ⟨removeFinished_neverHangs set slot dataAddr, fun removed _ =>
      neverHangs_ok _⟩
  · split
    · exact neverHangs_bind.mpr ⟨removeFinished_neverHangs set slot dataAddr, fun removed _ =>
        neverHangs_ok _⟩
    · exact neverHangs_ok _

end Connections

section Server

variable {σ : Type} {rt : Runtime} {cfg : ServerConfig σ}

theorem acceptConn_neverHangs (set : ConnSet) (conn : Accepted) :
    NeverHangs (acceptConn cfg set conn) := by
  have hip : NeverHangs (ipAddrStorageFromSockaddr conn.addr) := by
    cases conn.addr with
    | inet addr => exact neverHangs_ok _
    | inet6 addr => exact neverHangs_ok _
    | other family => exact neverHangs_fault _
  have hcount (data item : List (Option Byte)) (len itemSize : Nat) :
      NeverHangs (countInArray data len item itemSize) := by
    unfold countInArray
    generalize (0 : Nat) = i
    induction len generalizing i with
    | zero => exact neverHangs_ok _
    | succ rest ih =>
      refine neverHangs_bind.mpr ⟨memEq_neverHangs _ _ _, fun found _ => ?_⟩
      exact neverHangs_bind.mpr ⟨ih (i + 1), fun count _ => neverHangs_ok _⟩
  unfold acceptConn
  split
  · exact neverHangs_ok _
  · refine neverHangs_bind.mpr ⟨hip, fun ip _ => ?_⟩
    refine neverHangs_bind.mpr ⟨hcount _ _ _ _, fun nConnsFromIp _ => ?_⟩
    split
    · exact neverHangs_bind.mpr ⟨mcfsSetAdd_neverHangs set _ 0, fun added _ => neverHangs_ok _⟩
    · exact neverHangs_ok _

theorem dispatchConn_neverHangs (fd : Int) (connWasClosed : Bool) (res : RecvResult) :
    NeverHangs (dispatchConn rt cfg fd connWasClosed res) := by
  have hbuild : NeverHangs (stringBuilderBuildAndDestroy rt res.builder) := by
    unfold stringBuilderBuildAndDestroy
    dsimp only
    split
    · split
      · exact neverHangs_fault _
      · exact neverHangs_bind.mpr ⟨readCells_neverHangs _ _, fun bytes _ => neverHangs_ok _⟩
    · exact neverHangs_fault _
  unfold dispatchConn
  split
  · exact neverHangs_ok _
  · refine neverHangs_bind.mpr ⟨hbuild, fun built _ => ?_⟩
    dsimp only
    split
    · exact neverHangs_fault _
    · exact neverHangs_ok _

/-- What follows a reception does not hang. -/
theorem receiveConn_hangs_iff {dataAddr : Nat} {arrival : Arrival σ} {set : ConnSet}
    {slot : Nat} {fd : Int} : receiveConn rt cfg dataAddr set slot fd arrival = .error .blocked ↔
      receive rt cfg fd arrival = .error .blocked := by
  apply hangs_bind_iff
  intro res _
  refine neverHangs_bind.mpr ⟨noteReception_neverHangs set slot fd _ res, fun noted _ => ?_⟩
  refine neverHangs_bind.mpr ⟨dispatchConn_neverHangs fd _ res, fun dispatched _ => ?_⟩
  dsimp only
  split
  · exact neverHangs_bind.mpr ⟨removeFinished_neverHangs _ slot dataAddr, fun removed _ =>
      neverHangs_ok _⟩
  · exact neverHangs_ok _

/-- A round hangs exactly if it comes to a reception, and that hangs. -/
theorem handleConn_hangs_iff {dataAddr : Nat} {arrival : Arrival σ} {set : ConnSet} {slot : Nat} :
    handleConn rt cfg dataAddr arrival set slot = .error .blocked ↔
      ∃ fd revents, loadFd set slot = .ok fd ∧ loadRevents set slot = .ok revents ∧
        revents &&& pollin ≠ 0 ∧ receive rt cfg fd arrival = .error .blocked := by
  have hrest (fd : Int) (received : ConnSet × List ServerEvent × Bool) :
      NeverHangs (if received.2.2 then pure (received.1, received.2.1, true)
        else finishConn dataAddr received.1 slot fd >>= fun finished =>
          pure (finished.1, received.2.1 ++ finished.2.1, finished.2.2)) := by
    split
    · exact neverHangs_ok _
    · exact neverHangs_bind.mpr ⟨finishConn_neverHangs _ slot dataAddr fd, fun _ _ =>
        neverHangs_ok _⟩
  refine (loadFd_neverHangs set slot).bind_iff.trans (exists_congr fun fd => ?_)
  rw [(loadRevents_neverHangs set slot).bind_iff, ← exists_and_left]
  refine exists_congr fun revents => and_congr_right fun _ => and_congr_right fun _ => ?_
  dsimp only
  split
  · rename_i hpollin
    rw [hangs_bind_iff fun received _ => hrest fd received, receiveConn_hangs_iff]
    exact (and_iff_right hpollin).symm
  · rename_i hquiet
    exact iff_of_false (hrest fd (set, [], false)) fun hwaits => hquiet hwaits.1

end Server

end Net77
