import Net77.NeverHangs
import Net77.PollfdSlots

/-! The poll loop steps its pointer back when it has tried to remove a connection. A
pass still takes at most three rounds for each connection, and the sweep one: neither
can hang but in a reception. -/
namespace Net77

open Net77.Base

section Rounds

variable {σ : Type} {rt : Runtime} {cfg : ServerConfig σ} {dataAddr : Nat} {arrival : Arrival σ}
  {shape : SetShape 4} {set mid set' : ConnSet} {conns : List Conn} {slot endSlot : Nat}

/-- `poll` has reported something for a slot. -/
def slotLive (set : ConnSet) (i : Nat) : Bool :=
  match loadRevents set i with
  | .ok revents => revents ≠ 0
  | .error _ => false

theorem slotLive_congr {i j : Nat} (h : pollfdCells set' i = pollfdCells set j) :
    slotLive set' i = slotLive set j := by
  unfold slotLive
  rw [loadRevents_eq, loadRevents_eq, h]

theorem slotLive_of_flags {revents flags : Nat} (h : loadRevents set slot = .ok revents)
    (hflags : revents &&& flags ≠ 0) : slotLive set slot = true := by
  unfold slotLive
  rw [h]
  apply decide_eq_true
  rintro rfl
  rw [Nat.zero_and] at hflags
  contradiction

/-- What a round does. The last-use time of an entry may be set; then, if the pointer
is stepped back, the `revents` of a slot that had some are cleared, and an entry is
removed or not found. -/
inductive Round (set : ConnSet) (slot : Nat) : ConnSet → Bool → Prop where
  | passed {mid : ConnSet} (edits : Edits set mid) (same : mid.data 0 = set.data 0)
      (len_eq : mid.len = set.len) : Round set slot mid false
  | cleared {mid marked set' : ConnSet} {item : List (Option Byte)} {missing : Int}
      (edits : Edits set mid) (same : mid.data 0 = set.data 0) (len_eq : mid.len = set.len)
      (live : slotLive set slot = true) (hstore : storeRevents mid slot 0 = .ok marked)
      (hremove : mcfsSetRemove marked item 0 = .ok (set', missing)) : Round set slot set' true

theorem Round.after {again : Bool} (hfirst : Round set slot mid false)
    (h : Round mid slot set' again) : Round set slot set' again := by
  cases hfirst with
  | passed edits same len_eq =>
    cases h with
    | passed edits' same' len_eq' =>
      exact .passed (edits.trans edits') (same'.trans same) (len_eq'.trans len_eq)
    | cleared edits' same' len_eq' live hstore hremove =>
      rw [slotLive_congr (pollfdCells_congr same slot)] at live
      exact .cleared (edits.trans edits') (same'.trans same) (len_eq'.trans len_eq) live hstore
        hremove

theorem removeFinished_round {found : Bool} (hlive : slotLive set slot = true)
    (h : removeFinished dataAddr set slot = .ok (set', found)) : Round set slot set' true := by
  obtain ⟨marked, hstore, h⟩ := bind_eq_ok.mp h
  obtain ⟨⟨left, missing⟩, hremove, h⟩ := bind_eq_ok.mp h
  cases Except.ok.inj h
  exact .cleared (.refl set) rfl rfl hlive hstore hremove

theorem noteReception_round {fd : Int} {time : Nat} {res : RecvResult} {calls : List SocketCall}
    {closed : Bool} (hlive : slotLive set slot = true)
    (h : noteReception set slot fd time res = .ok (set', calls, closed)) :
    Round set slot set' closed := by
  unfold noteReception at h
  split at h
  · obtain ⟨marked, hstore, h⟩ := bind_eq_ok.mp h
    obtain ⟨⟨left, missing⟩, hremove, h⟩ := bind_eq_ok.mp h
    cases Except.ok.inj h
    exact .cleared (.refl set) rfl rfl hlive hstore hremove
  · rename_i hends
    obtain ⟨place, hlookup, h⟩ := bind_eq_ok.mp h
    cases place with
    | none => contradiction
    | some off =>
      obtain ⟨left, hstore, h⟩ := bind_eq_ok.mp h
      have hopen : res.closedSock = false := by
        unfold endsConn at hends
        simp at hends
        exact hends.2.1
      rw [hopen] at h
      cases Except.ok.inj h
      exact .passed (.used (.refl set) hlookup hstore) (storeAt_pollfds hstore (by decide))
        (storeAt_len hstore)

theorem receiveConn_round {fd : Int} {log : List ServerEvent} {closed : Bool}
    (hlive : slotLive set slot = true)
    (h : receiveConn rt cfg dataAddr set slot fd arrival = .ok (set', log, closed)) :
    Round set slot set' closed := by
  obtain ⟨res, -, h⟩ := bind_eq_ok.mp h
  obtain ⟨⟨noted, calls, wasClosed⟩, hnote, h⟩ := bind_eq_ok.mp h
  obtain ⟨dispatched, -, h⟩ := bind_eq_ok.mp h
  have hnoted := noteReception_round hlive hnote
  dsimp only at h
  split at h
  · rename_i hdiscard
    have hopen : wasClosed = false := by simpa using hdiscard.2
    obtain ⟨⟨left, found⟩, hremove, h⟩ := bind_eq_ok.mp h
    cases Except.ok.inj h
    rw [hopen] at hnoted
    have hsame : slotLive noted slot = true := by
      cases hnoted with
      | passed edits same len_eq =>
        rw [slotLive_congr (pollfdCells_congr same slot)]
        exact hlive
    exact hnoted.after (removeFinished_round hsame hremove)
  · cases Except.ok.inj h
    exact hnoted

theorem finishConn_round {fd : Int} {log : List ServerEvent} {again : Bool}
    (h : finishConn dataAddr set slot fd = .ok (set', log, again)) : Round set slot set' again := by
  obtain ⟨revents, hrevents, h⟩ := bind_eq_ok.mp h
  split at h
  · rename_i herr
    obtain ⟨⟨left, found⟩, hremove, h⟩ := bind_eq_ok.mp h
    cases Except.ok.inj h
    exact removeFinished_round (slotLive_of_flags hrevents herr) hremove
  · split at h
    · rename_i hnval
      obtain ⟨⟨left, found⟩, hremove, h⟩ := bind_eq_ok.mp h
      cases Except.ok.inj h
      exact removeFinished_round (slotLive_of_flags hrevents hnval) hremove
    · cases Except.ok.inj h
      exact .passed (.refl set) rfl rfl

theorem handleConn_round {log : List ServerEvent} {again : Bool}
    (h : handleConn rt cfg dataAddr arrival set slot = .ok (set', log, again)) :
    Round set slot set' again := by
  obtain ⟨fd, revents, -, hrevents, hcases⟩ := handleConn_cases h
  rcases hcases with ⟨rfl, hpollin, hreceive⟩ | ⟨mid, log₁, more, hpollin, hreceive, hfinish, -⟩ |
    hfinish
  · exact receiveConn_round (slotLive_of_flags hrevents hpollin) hreceive
  · exact (receiveConn_round (slotLive_of_flags hrevents hpollin) hreceive).after
      (finishConn_round hfinish)
  · exact finishConn_round hfinish

theorem Round.edits {again : Bool} (h : Round set slot set' again) : Edits set set' := by
  cases h with
  | passed edits same len_eq => exact edits
  | cleared edits same len_eq live hstore hremove => exact .removed (.stored edits hstore) hremove

/-- What is left to do in a pass: slots to get to, slots with `revents`, entries. -/
def passRank (endSlot slot : Nat) (set : ConnSet) : Nat :=
  endSlot - slot + countSlots (slotLive set) endSlot + set.len

/-- A removal may copy the last slot, but clears the one that it is about before. -/
theorem Round.rank_lt {again : Bool} (h : Round set slot set' again)
    (hholds : HoldsConns shape set conns) (hlen : set.len ≤ endSlot) (hslot : slot < endSlot) :
    passRank endSlot (if again then slot else slot + 1) set' < passRank endSlot slot set := by
  cases h with
  | passed edits same len_eq =>
    have hcount : slotLive set' = slotLive set :=
      funext fun i => slotLive_congr (pollfdCells_congr same i)
    unfold passRank
    rw [hcount, len_eq, if_neg (by decide)]
    omega
  | cleared edits same len_eq live hstore hremove =>
    rename_i mid marked item missing
    have hmarked := storeRevents_marked hstore
    have hlost : countSlots (slotLive marked) endSlot + 1 ≤ countSlots (slotLive set) endSlot := by
      refine countSlots_lost hslot live ?_ ?_
      · unfold slotLive
        rw [hmarked.own]
        rfl
      · intro j hne
        exact slotLive_congr ((hmarked.others j hne).trans (pollfdCells_congr same j))
    obtain ⟨left, hleft⟩ := (edits.stored hstore).holds hholds
    have hsize : marked.len = set.len := hmarked.len_eq.trans len_eq
    unfold passRank
    rw [if_pos rfl]
    rcases hleft.removed hremove with rfl | ⟨idx, hremoved⟩
    · omega
    · have hcount : slotLive set' = fun i => slotLive marked (behindGap marked.len idx i) :=
        funext fun i => slotLive_congr (hremoved.cells i)
      have hcopy : countSlots (slotLive set') endSlot ≤ countSlots (slotLive marked) endSlot + 1 := by
        rw [hcount]
        exact countSlots_behindGap (by omega)
      have hfewer := hremoved.len_eq
      omega

theorem passRank_le (set : ConnSet) : passRank set.len 0 set ≤ 3 * set.len := by
  have hcount := countSlots_le (slotLive set) set.len
  unfold passRank
  omega

/-- With as much fuel as there is to do, more of it changes nothing. -/
theorem pollLoop_settled {arrivals : Nat → Arrival σ} {fuel received : Nat}
    (hholds : HoldsConns shape set conns) (hlen : set.len ≤ endSlot)
    (hfuel : passRank endSlot slot set ≤ fuel) (more : Nat) :
    pollLoop rt cfg dataAddr arrivals endSlot (fuel + more) slot received set =
      pollLoop rt cfg dataAddr arrivals endSlot fuel slot received set := by
  induction fuel generalizing slot received set conns with
  | zero =>
    have hend : ¬ slot < endSlot := by
      unfold passRank at hfuel
      omega
    cases more with
    | zero => rfl
    | succ more => rw [Nat.zero_add, pollLoop, pollLoop, if_neg hend, if_neg hend]
  | succ fuel ih =>
    rw [Nat.succ_add]
    by_cases hslot : slot < endSlot
    · cases hround : handleConn rt cfg dataAddr (arrivals received) set slot with
      | error stop => rw [pollLoop, pollLoop, if_pos hslot, if_pos hslot, hround]; rfl
      | ok result =>
        obtain ⟨set₁, log, again⟩ := result
        have hstep := handleConn_round hround
        have hrank := hstep.rank_lt hholds hlen hslot
        obtain ⟨left, hleft⟩ := hstep.edits.holds hholds
        have hfewer := hstep.edits.len_le
        rw [pollLoop_round hslot hround, pollLoop_round hslot hround,
          ih hleft (hfewer.trans hlen) (by omega)]
    · rw [pollLoop, pollLoop, if_neg hslot, if_neg hslot]

/-- Where a pass is in front of a round: the slot, how many receptions there have been,
and the set. -/
structure PassPlace where
  slot : Nat
  received : Nat
  set : ConnSet

/-- A round leads from one place to the next one. -/
def PassStep (rt : Runtime) (cfg : ServerConfig σ) (dataAddr : Nat) (arrivals : Nat → Arrival σ)
    (endSlot : Nat) (place next : PassPlace) : Prop :=
  place.slot < endSlot ∧ ∃ log again,
    handleConn rt cfg dataAddr (arrivals place.received) place.set place.slot =
        .ok (next.set, log, again) ∧
      next.slot = (if again then place.slot else place.slot + 1) ∧
      next.received = place.received + (receivedFds log).length

/-- The round calls `recvAllData` for the descriptor in the slot, and what arrives there
does not let it return. -/
def PassPlace.Waits (rt : Runtime) (cfg : ServerConfig σ) (arrivals : Nat → Arrival σ)
    (endSlot : Nat) (place : PassPlace) : Prop :=
  place.slot < endSlot ∧ ∃ fd revents, loadFd place.set place.slot = .ok fd ∧
    loadRevents place.set place.slot = .ok revents ∧ revents &&& pollin ≠ 0 ∧
      receive rt cfg fd (arrivals place.received) = .error .blocked

/-- The pass over a set comes to a reception that does not return. -/
def PassWaits (rt : Runtime) (cfg : ServerConfig σ) (dataAddr : Nat) (arrivals : Nat → Arrival σ)
    (set : ConnSet) : Prop :=
  ∃ place, Relation.ReflTransGen (PassStep rt cfg dataAddr arrivals set.len) ⟨0, 0, set⟩ place ∧
    place.Waits rt cfg arrivals set.len

/-- Whatever the fuel is: a place that waits is the end of the pass. -/
theorem PassPlace.Waits.hangs {arrivals : Nat → Arrival σ} {start place : PassPlace}
    (hwaits : place.Waits rt cfg arrivals endSlot)
    (hreached : Relation.ReflTransGen (PassStep rt cfg dataAddr arrivals endSlot) start place)
    (fuel : Nat) : pollLoop rt cfg dataAddr arrivals endSlot fuel start.slot start.received
      start.set = .error .blocked := by
  induction hreached using Relation.ReflTransGen.head_induction_on generalizing fuel with
  | refl =>
    obtain ⟨hslot, hround⟩ := hwaits
    cases fuel with
    | zero => rw [pollLoop, if_pos hslot]
    | succ fuel =>
      rw [pollLoop, if_pos hslot, handleConn_hangs_iff.mpr hround]
      rfl
  | head hstep _ ih =>
    obtain ⟨hslot, log, again, hround, hnext, hreceived⟩ := hstep
    cases fuel with
    | zero => rw [pollLoop, if_pos hslot]
    | succ fuel =>
      have hrest := ih fuel
      rw [hnext, hreceived] at hrest
      rw [pollLoop_round hslot hround, hrest]
      rfl

/-- By the fuel, which covers what is left to do: if a pass does not end, one of the
rounds that it comes to waits. -/
theorem pollLoop_waits {arrivals : Nat → Arrival σ} {fuel received : Nat}
    (hholds : HoldsConns shape set conns) (hlen : set.len ≤ endSlot)
    (hfuel : passRank endSlot slot set ≤ fuel)
    (h : pollLoop rt cfg dataAddr arrivals endSlot fuel slot received set = .error .blocked) :
    ∃ place, Relation.ReflTransGen (PassStep rt cfg dataAddr arrivals endSlot)
      ⟨slot, received, set⟩ place ∧ place.Waits rt cfg arrivals endSlot := by
  induction fuel generalizing slot received set conns with
  | zero =>
    have hend : ¬ slot < endSlot := by
      unfold passRank at hfuel
      omega
    rw [pollLoop, if_neg hend] at h
    contradiction
  | succ fuel ih =>
    rw [pollLoop] at h
    split at h
    · rename_i hslot
      rcases bind_eq_error.mp h with hround | ⟨⟨set₁, log, again⟩, hround, hrest⟩
      · exact ⟨_, .refl, hslot, handleConn_hangs_iff.mp hround⟩
      · have hstep := handleConn_round hround
        have hrank := hstep.rank_lt hholds hlen hslot
        obtain ⟨left, hleft⟩ := hstep.edits.holds hholds
        have hnext := (hangs_bind_iff fun _ _ => neverHangs_ok _).mp hrest
        obtain ⟨place, hreached, hwaits⟩ :=
          ih hleft (hstep.edits.len_le.trans hlen) (by omega) hnext
        exact ⟨place, .head ⟨hslot, log, again, hround, rfl, rfl⟩ hreached, hwaits⟩
    · contradiction

/-- The rounds of a pass. -/
def rounds (log : List ServerEvent) : Nat :=
  log.countP fun event => match event with
    | .visited _ _ => true
    | _ => false

theorem rounds_quiet {log : List ServerEvent} (h : ∀ slot len, .visited slot len ∉ log) :
    rounds log = 0 := by
  unfold rounds
  rw [List.countP_eq_zero]
  intro event hevent
  cases event with
  | visited slot len => exact absurd hevent (h slot len)
  | _ => simp

theorem pollLoop_rounds {arrivals : Nat → Arrival σ} {fuel received : Nat} {log : List ServerEvent}
    (hholds : HoldsConns shape set conns) (hlen : set.len ≤ endSlot)
    (h : pollLoop rt cfg dataAddr arrivals endSlot fuel slot received set = .ok (set', log)) :
    rounds log ≤ passRank endSlot slot set := by
  induction fuel generalizing slot received set log conns with
  | zero =>
    unfold pollLoop at h
    split at h
    · contradiction
    · cases Except.ok.inj h
      exact Nat.zero_le _
  | succ fuel ih =>
    unfold pollLoop at h
    split at h
    · rename_i hslot
      obtain ⟨⟨set₁, events, again⟩, hround, h⟩ := bind_eq_ok.mp h
      obtain ⟨⟨last, logs⟩, hrest, h⟩ := bind_eq_ok.mp h
      cases Except.ok.inj h
      obtain ⟨_, _, -, -, hpasses⟩ := handleConn_passes hround
      have hstep := handleConn_round hround
      have hrank := hstep.rank_lt hholds hlen hslot
      obtain ⟨left, hleft⟩ := hstep.edits.holds hholds
      have hmore := ih hleft (hstep.edits.len_le.trans hlen) hrest
      have hquiet := rounds_quiet hpasses.quiet
      have hsplit : rounds (.visited slot set.len :: events ++ logs) =
          rounds events + 1 + rounds logs := by
        unfold rounds
        rw [List.countP_append, List.countP_cons_of_pos rfl]
      omega
    · cases Except.ok.inj h
      exact Nat.zero_le _

end Rounds

section Sweep

variable {shape : SetShape 4} {set : ConnSet} {conns : List Conn} {timeNow : Nat}

/-- What is in a slot of the set is found, in this slot or in front of it. -/
theorem HoldsConns.removes {i : Nat} (h : HoldsConns shape set conns) (hi : i < set.len) :
    ∃ set' conns', Net77.mcfsSetRemove set ((set.data 0).drop (i * 8)) 0 = .ok (set', 0) ∧
      HoldsConns shape set' conns' ∧ set'.len + 1 = set.len := by
  have hslot : i < conns.length := by
    rw [← h.len_eq]
    exact hi
  have hsome : (conns.findIdx? fun conn => conn 0 = conns[i] 0).isSome = true := by
    rw [List.findIdx?_isSome, List.any_eq_true]
    exact ⟨conns[i], List.getElem_mem hslot, decide_eq_true rfl⟩
  obtain ⟨idx, hfind⟩ := Option.isSome_iff_exists.mp hsome
  obtain ⟨set', hremove, hset', -⟩ := h.mcfsSetRemove_at (h.read_key hslot) hfind
  have hidx : idx < conns.length := (List.findIdx?_eq_some_iff_getElem.mp hfind).1
  refine ⟨set', _, hremove, ⟨hset', h.sizes_eq⟩, ?_⟩
  rw [hset'.len_eq, h.len_eq, List.length_eraseIdx_of_lt hidx]
  omega

/-- With as much fuel as there are entries left, the sweep comes to its end, and more
fuel changes nothing. -/
theorem sweepLoop_settled {fuel i : Nat} (h : HoldsConns shape set conns)
    (hfuel : set.len - i ≤ fuel) (more : Nat) :
    NeverHangs (sweepLoop timeNow fuel i set) ∧
      sweepLoop timeNow (fuel + more) i set = sweepLoop timeNow fuel i set := by
  induction fuel generalizing i set conns with
  | zero =>
    have hend : ¬ i < set.len := by omega
    cases more with
    | zero => exact ⟨by rw [sweepLoop, if_neg hend]; exact neverHangs_ok _, rfl⟩
    | succ more =>
      rw [Nat.zero_add, sweepLoop, sweepLoop, if_neg hend, if_neg hend]
      exact ⟨neverHangs_ok _, rfl⟩
  | succ fuel ih =>
    rw [Nat.succ_add, sweepLoop, sweepLoop]
    by_cases hi : i < set.len
    · obtain ⟨set', conns', hremove, hset', hlen⟩ := h.removes hi
      rw [if_pos hi, if_pos hi, hremove, ok_bind, ok_bind]
      obtain ⟨hremoved, hremovedSame⟩ := ih (i := i) hset' (by omega)
      obtain ⟨hkept, hkeptSame⟩ := ih (i := i + 1) h (by omega)
      dsimp only
      rw [hremovedSame, hkeptSame]
      refine ⟨?_, rfl⟩
      refine neverHangs_bind.mpr ⟨readCells_neverHangs _ _, fun lastUsage _ => ?_⟩
      refine neverHangs_bind.mpr ⟨readCells_neverHangs _ _, fun timeout _ => ?_⟩
      refine neverHangs_ite ?_ hkept
      refine neverHangs_bind.mpr ⟨loadFd_neverHangs set' i, fun fd _ => ?_⟩
      exact neverHangs_bind.mpr ⟨hremoved, fun _ _ => neverHangs_ok _⟩
    · rw [if_neg hi, if_neg hi]
      exact ⟨neverHangs_ok _, rfl⟩

end Sweep

end Net77
