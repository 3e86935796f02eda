import Net77.Connections

/-! The timeout sweep removes exactly the connections that have expired. It closes
the descriptor of the connection behind each of them. -/
namespace Net77

open Net77.Base

/-- The connection has a timeout, and it is over. -/
def Conn.Expired (timeNow : Nat) (conn : Conn) : Prop :=
  0 ≤ conn.timeout ∧ conn.timeout < (timeNow : Int) - conn.lastUsage

instance (timeNow : Nat) (conn : Conn) : Decidable (conn.Expired timeNow) :=
  inferInstanceAs (Decidable (0 ≤ conn.timeout ∧ conn.timeout < (timeNow : Int) - conn.lastUsage))

/-- The descriptors that the sweep closes: where a connection has expired, the one
of the next connection, or its own if it is the last. -/
def sweptFds (timeNow : Nat) : List Conn → List Int
  | [] => []
  | conn :: rest =>
    if conn.Expired timeNow then (rest.headD conn).fd :: sweptFds timeNow rest
    else sweptFds timeNow rest

/-- With enough fuel, the sweep leaves the connections that have not expired, and
closes each of the others once. -/
def SweepsExactly (shape : SetShape 4) (timeNow : Nat) (set : ConnSet) (conns : List Conn) : Prop :=
  ∃ (set' : ConnSet) (closed : List Int),
    (∀ fuel, set.len ≤ fuel →
      sweepLoop timeNow fuel 0 set = .ok (set', closed.map SocketCall.closed)) ∧
    HoldsConns shape set' (conns.filter fun conn => ¬ conn.Expired timeNow) ∧
    closed.Perm ((conns.filter fun conn => conn.Expired timeNow).map Conn.fd)

section Sweep

variable {shape : SetShape 4} {timeNow : Nat}

/-- What an iteration finds at its index. -/
theorem sweepLoop_conn {set : ConnSet} {kept rest : List Conn} {conn : Conn}
    (h : HoldsConns shape set (kept ++ conn :: rest)) (hlast : conn.lastUsage ≤ timeNow)
    (hclock : timeNow < 2 ^ 64) (fuel : Nat) :
    sweepLoop timeNow (fuel + 1) kept.length set =
      if conn.Expired timeNow then do
        let (set, _) ← mcfsSetRemove set ((set.data 0).drop (kept.length * 8)) 0
        let fd ← loadFd set kept.length
        let (set, calls) ← sweepLoop timeNow fuel kept.length set
        pure (set, .closed fd :: calls)
      else sweepLoop timeNow fuel (kept.length + 1) set := by
  have hslot : kept.length < (kept ++ conn :: rest).length := by simp
  have hget : (kept ++ conn :: rest)[kept.length] = conn := by simp
  have htime : readCells ((set.data 1).drop (kept.length * 8)) 8 = .ok (conn 1) := by
    have hread := h.toRepresents.read_item hslot 1
    rwa [h.sizes_eq, hget] at hread
  have htimeout : readCells ((set.data 2).drop (kept.length * 8)) 8 = .ok (conn 2) := by
    have hread := h.toRepresents.read_item hslot 2
    rwa [h.sizes_eq, hget] at hread
  have helapsed : (toSize (timeNow - leNat (conn 1)) : Int) = timeNow - conn.lastUsage := by
    unfold Conn.lastUsage at hlast ⊢
    unfold toSize
    omega
  rw [sweepLoop, if_pos (by rw [h.len_eq]; exact hslot), htime, ok_bind, htimeout, ok_bind,
    helapsed]
  rfl

/-- An expired connection is removed, and the descriptor that is loaded behind that
is the one of the connection that has taken its place. -/
theorem sweepLoop_expired {set : ConnSet} {kept rest : List Conn} {conn : Conn}
    (h : HoldsConns shape set (kept ++ conn :: rest))
    (hdistinct : DistinctFds (kept ++ conn :: rest)) (hlast : conn.lastUsage ≤ timeNow)
    (hclock : timeNow < 2 ^ 64) (hexpired : conn.Expired timeNow) :
    ∃ swept, HoldsConns shape swept (kept ++ rest) ∧
      ∀ fuel, sweepLoop timeNow (fuel + 1) kept.length set = (do
        let (set, calls) ← sweepLoop timeNow fuel kept.length swept
        pure (set, .closed (rest.headD conn).fd :: calls)) := by
  have hslot : kept.length < (kept ++ conn :: rest).length := by simp
  obtain ⟨swept, hremove, hswept, hstale⟩ := h.removeSlot hdistinct hslot
  rw [List.eraseIdx_append_of_length_le le_rfl, Nat.sub_self, List.eraseIdx_cons_zero] at hswept
  have hfd : loadFd swept kept.length = .ok (rest.headD conn).fd := by
    cases rest with
    | nil =>
      have hsame := h.loadFd hslot
      unfold loadFd at hsame ⊢
      rw [hstale (by simp), hsame]
      simp
    | cons next rest =>
      rw [hswept.loadFd (by simp)]
      simp
  refine ⟨swept, hswept, ?_⟩
  intro fuel
  rw [sweepLoop_conn h hlast hclock, if_pos hexpired, hremove, ok_bind]
  dsimp only
  rw [hfd, ok_bind]

theorem sweepLoop_end {set : ConnSet} {kept : List Conn} (h : HoldsConns shape set kept)
    (fuel : Nat) : sweepLoop timeNow fuel kept.length set = .ok (set, []) := by
  have hend : ¬ kept.length < set.len := by
    rw [h.len_eq]
    exact Nat.lt_irrefl _
  cases fuel with
  | zero => rw [sweepLoop, if_neg hend]; rfl
  | succ fuel => rw [sweepLoop, if_neg hend]; rfl

/-- The sweep from an index on. -/
theorem sweepLoop_eq {rest : List Conn} (hclock : timeNow < 2 ^ 64) {set : ConnSet}
    {kept : List Conn} (h : HoldsConns shape set (kept ++ rest))
    (hdistinct : DistinctFds (kept ++ rest)) (hlast : ∀ conn ∈ rest, conn.lastUsage ≤ timeNow) :
    ∃ set', (∀ fuel, rest.length ≤ fuel → sweepLoop timeNow fuel kept.length set =
        .ok (set', (sweptFds timeNow rest).map SocketCall.closed)) ∧
      HoldsConns shape set' (kept ++ rest.filter fun conn => ¬ conn.Expired timeNow) := by
  induction rest generalizing set kept with
  | nil =>
    refine ⟨set, ?_, h⟩
    intro fuel _
    rw [List.append_nil] at h
    exact sweepLoop_end h fuel
  | cons conn rest ih =>
    have hconn := hlast conn List.mem_cons_self
    have hrest : ∀ other ∈ rest, other.lastUsage ≤ timeNow := fun other hother =>
      hlast other (List.mem_cons_of_mem conn hother)
    by_cases hexpired : conn.Expired timeNow
    · obtain ⟨swept, hswept, hround⟩ := sweepLoop_expired h hdistinct hconn hclock hexpired
      have hfewer : DistinctFds (kept ++ rest) := by
        apply List.Nodup.sublist _ hdistinct
        exact ((List.sublist_cons_self conn rest).append_left kept).map _
      obtain ⟨set', hloop, hset'⟩ := ih hswept hfewer hrest
      refine ⟨set', ?_, ?_⟩
      · intro fuel hfuel
        cases fuel with
        | zero => simp at hfuel
        | succ fuel =>
          rw [hround, hloop fuel (by simpa using hfuel), ok_bind, sweptFds, if_pos hexpired]
          rfl
      · rw [List.filter_cons_of_neg (by simpa using hexpired)]
        exact hset'
    · have hround := sweepLoop_conn h hconn hclock
      have hsplit : kept ++ conn :: rest = (kept ++ [conn]) ++ rest := by simp
      rw [hsplit] at h hdistinct
      obtain ⟨set', hloop, hset'⟩ := ih h hdistinct hrest
      refine ⟨set', ?_, ?_⟩
      · intro fuel hfuel
        cases fuel with
        | zero => simp at hfuel
        | succ fuel =>
          have hnext := hloop fuel (by simpa using hfuel)
          rw [List.length_append, List.length_singleton] at hnext
          rw [hround, if_neg hexpired, hnext, sweptFds, if_neg hexpired]
      · rw [List.filter_cons_of_pos (by simpa using hexpired)]
        rwa [List.append_assoc, List.singleton_append] at hset'

theorem sweptFds_subset (conns : List Conn) : sweptFds timeNow conns ⊆ conns.map Conn.fd := by
  induction conns with
  | nil => exact List.Subset.refl _
  | cons conn rest ih =>
    have hrest : sweptFds timeNow rest ⊆ (conn :: rest).map Conn.fd :=
      fun fd hfd => List.mem_cons_of_mem _ (ih hfd)
    unfold sweptFds
    split
    · apply List.cons_subset.mpr ⟨?_, hrest⟩
      cases rest with
      | nil => simp
      | cons next rest => simp
    · exact hrest

/-- The right descriptors are closed if only the last connection can have expired. -/
theorem sweptFds_perm_iff {conns : List Conn} (hdistinct : DistinctFds conns) :
    (sweptFds timeNow conns).Perm ((conns.filter fun conn => conn.Expired timeNow).map Conn.fd) ↔
      ∀ conn ∈ conns.dropLast, ¬ conn.Expired timeNow := by
  induction conns with
  | nil => simp [sweptFds]
  | cons conn rest ih =>
    have hrest : DistinctFds rest := List.Nodup.of_cons hdistinct
    cases rest with
    | nil => by_cases hexpired : conn.Expired timeNow <;> simp [sweptFds, hexpired]
    | cons next rest =>
      rw [List.dropLast_cons_cons, List.forall_mem_cons]
      by_cases hexpired : conn.Expired timeNow
      · apply iff_of_false
        · intro hperm
          -- its own descriptor is not among those that are closed
          have hmem : conn.fd ∈ sweptFds timeNow (conn :: next :: rest) := by
            apply hperm.mem_iff.mpr
            apply List.mem_map_of_mem
            exact List.mem_filter.mpr ⟨List.mem_cons_self, decide_eq_true hexpired⟩
          have hother : conn.fd ∈ (next :: rest).map Conn.fd := by
            rw [sweptFds, if_pos hexpired, List.mem_cons] at hmem
            rcases hmem with heq | hmem
            · rw [heq]
              exact List.mem_cons_self
            · exact sweptFds_subset _ hmem
          exact (List.nodup_cons.mp hdistinct).1 hother
        · intro hnone
          exact hnone.1 hexpired
      · rw [sweptFds, if_neg hexpired, List.filter_cons_of_neg (by rwa [decide_eq_true_iff]), ih hrest]
        exact (and_iff_right hexpired).symm

/-- The sweep is exact if and only if no connection in front of the last one has
expired: behind the `memmove`, the pointer of the removed entry points to the next. -/
theorem sweep_exact_iff {set : ConnSet} {conns : List Conn} (h : HoldsConns shape set conns)
    (hdistinct : DistinctFds conns) (hlast : ∀ conn ∈ conns, conn.lastUsage ≤ timeNow)
    (hclock : timeNow < 2 ^ 64) :
    SweepsExactly shape timeNow set conns ↔ ∀ conn ∈ conns.dropLast, ¬ conn.Expired timeNow := by
  have hstart : HoldsConns shape set ([] ++ conns) := h
  obtain ⟨set', hloop, hset'⟩ := sweepLoop_eq hclock hstart hdistinct hlast
  rw [← sweptFds_perm_iff hdistinct]
  constructor
  · rintro ⟨other, closed, hother, -, hperm⟩
    have hsame := (hother conns.length h.len_eq.le).symm.trans (hloop conns.length le_rfl)
    have hcalls := (Prod.mk.inj (Except.ok.inj hsame)).2
    rwa [List.map_injective_iff.mpr (fun _ _ heq => SocketCall.closed.inj heq) hcalls] at hperm
  · intro hperm
    exact ⟨set', _, fun fuel hfuel => hloop fuel (h.len_eq ▸ hfuel), hset', hperm⟩

end Sweep

/-- The second of two connections has expired. -/
theorem sweep_exact_last : SweepsExactly fourConns 100
    (fourConns.pack [localConn 5 0 90 20, localConn 6 0 50 20])
    [localConn 5 0 90 20, localConn 6 0 50 20] :=
  (sweep_exact_iff (fourConns_holds (by decide) (by decide)) (by decide +kernel)
    (by decide +kernel) (by decide)).mpr (by decide +kernel)

/-- The first of two connections has expired, and the second one is closed. -/
theorem sweep_closes_other : ¬ SweepsExactly fourConns 100
    (fourConns.pack [localConn 5 0 50 20, localConn 6 0 90 20])
    [localConn 5 0 50 20, localConn 6 0 90 20] := by
  rintro ⟨set', closed, hloop, -, hperm⟩
  have hcalls : (sweepLoop 100 2 0 (fourConns.pack [localConn 5 0 50 20, localConn 6 0 90 20])).map
      Prod.snd = .ok [.closed 6] := by decide +kernel
  rw [hloop 2 le_rfl] at hcalls
  have hclosed : closed = [6] := by
    cases closed with
    | nil => simp [Except.map] at hcalls
    | cons fd rest => simpa [Except.map] using hcalls
  rw [hclosed] at hperm
  exact absurd hperm (by decide +kernel)

end Net77
