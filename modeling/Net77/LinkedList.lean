import Net77.Base.Calls
import Net77.Base.Chain
import Net77.Base.Ledger
import Net77.ThreadPool

/-! `lib/linked_list.c`. Every call holds the mutex of the list, so that the calls of all
threads come one after another. The nodes are in a heap. -/
namespace Net77

open Net77.Base

/-- The list, its mutex apart, with the nodes that are allocated and the log of what `malloc`
and `free` did. -/
structure LinkedList (κ α : Type) where
  start : Option κ
  endNode : Option κ
  heap : Heap κ (Option α)
  log : List (Entry κ)

/-- An access through a pointer that is NULL or was freed, an assertion that fails, and a loop
that is not done yet. -/
inductive ListFault where
  | invalidPointer
  | assertFailed
  | unfinished
  deriving DecidableEq, Repr

def access {β : Type} : Option β → Except ListFault β
  | some b => pure b
  | none => .error .invalidPointer

namespace LinkedList

section Code

variable {κ α : Type} [DecidableEq κ]

def newLinkedList : LinkedList κ α := ⟨none, none, fun _ => none, []⟩

/-- `address` is what `malloc` returns, which is not checked. -/
def newLinkedListNode (list : LinkedList κ α) (data : Option α) (address : Option κ) :
    Except ListFault (κ × LinkedList κ α) := do
  let node ← access address
  pure (node, { list with
    heap := list.heap.alloc node ⟨data, none⟩
    log := list.log ++ [.acquire node] })

def linkedListPushBack (list : LinkedList κ α) (data : Option α) (address : Option κ) :
    Except ListFault (LinkedList κ α) :=
  match list.start, list.endNode with
  | none, none => do
    let (node, list) ← newLinkedListNode list data address
    pure { list with start := some node, endNode := some node }
  | some _, some _ => do
    let (node, list) ← newLinkedListNode list data address
    let last ← access (list.heap.load list.endNode)
    let heap ← access (list.heap.store list.endNode { last with next := some node })
    let last ← access (heap.load list.endNode)
    pure { list with heap, endNode := last.next }
  | _, _ => .error .assertFailed

/-- NULL is `none`, also where it is the data of a node. -/
def linkedListPopFront (list : LinkedList κ α) :
    Except ListFault (LinkedList κ α × Option α) :=
  match list.start, list.endNode with
  | none, none => pure (list, none)
  | some node, some last => do
    let cell ← access (list.heap.load (some node))
    let endNode ←
      if node = last then do
        let first ← access (list.heap.load list.start)
        if first.next = none then pure none else .error .assertFailed
      else pure list.endNode
    let first ← access (list.heap.load list.start)
    let heap ← access (list.heap.free (some node))
    pure (⟨first.next, endNode, heap, list.log ++ [.release node]⟩, cell.data)
  | _, _ => .error .assertFailed

/-- The loop of `linkedListLen`, for at most `fuel` iterations. -/
def countNodes (heap : Heap κ (Option α)) : (fuel : Nat) → Option κ → (len : Nat) →
    Except ListFault Nat
  | _, none, len => pure len
  | 0, some _, _ => .error .unfinished
  | fuel + 1, some node, len => do
    let cell ← access (heap.load (some node))
    countNodes heap fuel cell.next (len + 1)

def linkedListLen (fuel : Nat) : Option (LinkedList κ α) → Except ListFault Nat
  | none => pure 0
  | some list => countNodes list.heap fuel list.start 0

/-- The loop of `linkedListDestroy`, for at most `fuel` iterations, with the data that it frees. -/
def destroyNodes (heap : Heap κ (Option α)) (log : List (Entry κ)) :
    (fuel : Nat) → Option κ → (freed : List (Option α)) →
      Except ListFault (Heap κ (Option α) × List (Entry κ) × List (Option α))
  | _, none, freed => pure (heap, log, freed)
  | 0, some _, _ => .error .unfinished
  | fuel + 1, some node, freed => do
    let cell ← access (heap.load (some node))
    let heap ← access (heap.free (some node))
    destroyNodes heap (log ++ [.release node]) fuel cell.next (freed ++ [cell.data])

def linkedListDestroy (fuel : Nat) (list : LinkedList κ α) :
    Except ListFault (LinkedList κ α × List (Option α)) := do
  let (heap, log, freed) ← destroyNodes list.heap list.log fuel list.start []
  pure (⟨none, none, heap, log⟩, freed)

inductive ListCall (κ α : Type) where
  | pushBack (data : Option α) (address : Option κ)
  | popFront
  | len (fuel : Nat)

inductive ListResult (α : Type) where
  | done
  | data (data : Option α)
  | len (len : Nat)

def listCall (list : LinkedList κ α) :
    ListCall κ α → Except ListFault (LinkedList κ α × ListResult α)
  | .pushBack data address => do
    let list ← linkedListPushBack list data address
    pure (list, .done)
  | .popFront => do
    let (list, data) ← linkedListPopFront list
    pure (list, .data data)
  | .len fuel => do
    let len ← linkedListLen fuel (some list)
    pure (list, .len len)

end Code

/-- What a queue has been through: the data that was pushed, with the addresses of its nodes,
and how much of it was popped. -/
structure Fifo (κ α : Type) where
  pushed : List (κ × Option α)
  popped : Nat
  popped_le : popped ≤ pushed.length

namespace Fifo

variable {κ α : Type}

def empty : Fifo κ α := ⟨[], 0, Nat.le_refl 0⟩

/-- What is pushed and not popped. -/
def queue (fifo : Fifo κ α) : List (κ × Option α) := fifo.pushed.drop fifo.popped

def push (fifo : Fifo κ α) (key : κ) (data : Option α) : Fifo κ α :=
  ⟨fifo.pushed ++ [(key, data)], fifo.popped, by
    rw [List.length_append]
    exact Nat.le_add_right_of_le fifo.popped_le⟩

/-- The n-th pop that finds something returns what the n-th push brought. -/
def call (fifo : Fifo κ α) : ListCall κ α → Fifo κ α × ListResult α
  | .pushBack data address =>
    match address with
    | some key => (fifo.push key data, .done)
    | none => (fifo, .done)
  | .popFront =>
    if h : fifo.popped < fifo.pushed.length then
      (⟨fifo.pushed, fifo.popped + 1, h⟩, .data (fifo.pushed.get ⟨fifo.popped, h⟩).2)
    else (fifo, .data none)
  | .len _ => (fifo, .len (fifo.pushed.length - fifo.popped))

/-- `malloc` returns an address that none of the nodes has, and the loop may go on to the end. -/
def Granted (fifo : Fifo κ α) : ListCall κ α → Prop
  | .pushBack _ none => False
  | .pushBack _ (some key) => key ∉ fifo.queue.map Prod.fst
  | .popFront => True
  | .len fuel => fifo.queue.length ≤ fuel

instance [DecidableEq κ] (fifo : Fifo κ α) : (call : ListCall κ α) → Decidable (fifo.Granted call)
  | .pushBack _ none => inferInstanceAs (Decidable False)
  | .pushBack _ (some key) => inferInstanceAs (Decidable (key ∉ fifo.queue.map Prod.fst))
  | .popFront => inferInstanceAs (Decidable True)
  | .len fuel => inferInstanceAs (Decidable (fifo.queue.length ≤ fuel))

/-- A pop returns NULL exactly if there is nothing in the queue. -/
def NullIffEmpty (fifo : Fifo κ α) : ListCall κ α → Prop
  | .popFront => (fifo.call .popFront).2 = .data none ↔ fifo.queue = []
  | _ => True

variable {fifo : Fifo κ α}

theorem queue_push (fifo : Fifo κ α) (key : κ) (data : Option α) :
    (fifo.push key data).queue = fifo.queue ++ [(key, data)] :=
  List.drop_append_of_le_length fifo.popped_le

theorem length_queue (fifo : Fifo κ α) :
    fifo.queue.length = fifo.pushed.length - fifo.popped := List.length_drop

theorem queue_eq_nil_iff : fifo.queue = [] ↔ ¬ fifo.popped < fifo.pushed.length := by
  unfold queue
  rw [List.drop_eq_nil_iff, Nat.not_lt]

theorem call_pop_nil (h : fifo.queue = []) : fifo.call .popFront = (fifo, .data none) := by
  unfold call
  exact dif_neg (queue_eq_nil_iff.mp h)

/-- A pop takes the first of the queue. -/
theorem call_pop_cons {key : κ} {data : Option α} {rest : List (κ × Option α)}
    (h : fifo.queue = (key, data) :: rest) :
    ∃ next, fifo.call .popFront = (next, .data data) ∧ next.queue = rest := by
  have hless : fifo.popped < fifo.pushed.length := by
    by_contra hnot
    rw [queue_eq_nil_iff.mpr hnot] at h
    contradiction
  unfold queue at h
  rw [List.drop_eq_getElem_cons hless] at h
  obtain ⟨hfirst, hrest⟩ := List.cons.inj h
  refine ⟨⟨fifo.pushed, fifo.popped + 1, hless⟩, ?_, hrest⟩
  unfold call
  dsimp only
  rw [dif_pos hless, List.get_eq_getElem, hfirst]

/-- The lists of the thread pool's workers are such queues. -/
theorem data_push (fifo : Fifo κ α) (key : κ) (data : Option α) :
    (fifo.push key data).queue.map Prod.snd =
      Net77.linkedListPushBack (fifo.queue.map Prod.snd) data := by
  rw [queue_push, List.map_append]
  rfl

theorem data_pop (fifo : Fifo κ α) : ∃ next data, fifo.call .popFront = (next, .data data) ∧
    Net77.linkedListPopFront (fifo.queue.map Prod.snd) = (data, next.queue.map Prod.snd) := by
  cases hqueue : fifo.queue with
  | nil => exact ⟨fifo, none, call_pop_nil hqueue, by rw [hqueue]; rfl⟩
  | cons item rest =>
    obtain ⟨key, data⟩ := item
    obtain ⟨next, hcall, hrest⟩ := call_pop_cons hqueue
    exact ⟨next, data, hcall, by rw [hrest]; rfl⟩

/-- What was pushed without a NULL is told apart from an empty queue. -/
theorem nullIffEmpty (hdata : ∀ item ∈ fifo.pushed, item.2 ≠ none) (call : ListCall κ α) :
    fifo.NullIffEmpty call := by
  cases call with
  | pushBack data address => trivial
  | popFront =>
    cases hqueue : fifo.queue with
    | nil =>
      unfold NullIffEmpty
      exact iff_of_true (by rw [call_pop_nil hqueue]) hqueue
    | cons item rest =>
      obtain ⟨key, data⟩ := item
      obtain ⟨next, hcall, -⟩ := call_pop_cons hqueue
      have hmem : (key, data) ∈ fifo.pushed := by
        refine List.mem_of_mem_drop (i := fifo.popped) ?_
        rw [show fifo.pushed.drop fifo.popped = _ from hqueue]
        exact List.mem_cons_self
      refine iff_of_false (fun hnull => hdata _ hmem ?_) (by rw [hqueue]; simp)
      rw [hcall] at hnull
      exact ListResult.data.inj hnull
  | len fuel => trivial

end Fifo

/-- The call brings no NULL. -/
def ListCall.NonNull {κ α : Type} : ListCall κ α → Prop
  | .pushBack data _ => data ≠ none
  | _ => True

theorem Fifo.everyCall_nullIffEmpty {κ α : Type} {fifo : Fifo κ α} {calls : List (ListCall κ α)}
    (hdata : ∀ item ∈ fifo.pushed, item.2 ≠ none) (nonNull : ∀ call ∈ calls, call.NonNull) :
    EveryCall (total Fifo.call) Fifo.NullIffEmpty fifo calls := by
  induction calls generalizing fifo with
  | nil => trivial
  | cons call calls ih =>
    rw [List.forall_mem_cons] at nonNull
    refine ⟨fifo.nullIffEmpty hdata call, fun next r hcall => ih ?_ nonNull.2⟩
    obtain rfl := congrArg Prod.fst (Except.ok.inj hcall)
    match call, nonNull.1 with
    | .pushBack data none, _ => exact hdata
    | .pushBack data (some key), hnonNull =>
      intro item hmem
      rcases List.mem_append.mp hmem with hold | hnew
      · exact hdata item hold
      · rw [List.mem_singleton.mp hnew]
        exact hnonNull
    | .popFront, _ =>
      by_cases hless : fifo.popped < fifo.pushed.length
      · simpa [Fifo.call, hless] using hdata
      · simpa [Fifo.call, hless] using hdata
    | .len fuel, _ => exact hdata

section Refinement

variable {κ α : Type} [DecidableEq κ] {list : LinkedList κ α} {fifo : Fifo κ α} {key : κ}

/-- The pointer leads through all that is allocated. What else was allocated has been freed. -/
structure Live (heap : Heap κ (Option α)) (log : List (Entry κ)) (pointer : Option κ)
    (items : List (κ × Option α)) : Prop where
  chain : Chain heap pointer items
  only : ∀ key, heap key ≠ none → key ∈ items.map Prod.fst
  orderly : Orderly log
  held : ∀ key, Held key log ↔ key ∈ items.map Prod.fst

/-- The nodes of the list are what is pushed and not popped. -/
structure Represents (list : LinkedList κ α) (fifo : Fifo κ α) : Prop extends
    Live list.heap list.log list.start fifo.queue where
  ends : list.endNode = fifo.queue.getLast?.map Prod.fst

/-- The pointers alone: the way from `start` is finite, comes to no node twice and ends at
`end`. -/
structure WellFormed (list : LinkedList κ α) : Prop where
  null_iff : list.start = none ↔ list.endNode = none
  chain : ∃ items, Chain list.heap list.start items ∧ (items.map Prod.fst).Nodup ∧
    ∀ last data, items.getLast? = some (last, data) →
      list.endNode = some last ∧ list.heap last = some ⟨data, none⟩

theorem access_bind {β γ : Type} {o : Option β} {b : β} (h : o = some b)
    (f : β → Except ListFault γ) : access o >>= f = f b := by
  rw [h]
  rfl

/-- The first node. -/
theorem pushBack_empty (hstart : list.start = none) (hend : list.endNode = none) (key : κ)
    (data : Option α) : linkedListPushBack list data (some key) =
      .ok ⟨some key, some key, list.heap.alloc key ⟨data, none⟩, list.log ++ [.acquire key]⟩ := by
  unfold linkedListPushBack
  rw [hstart, hend]
  rfl

/-- A node behind the last one, which is another. -/
theorem pushBack_behind {start last : κ} {cell : Cell κ (Option α)}
    (hstart : list.start = some start) (hend : list.endNode = some last)
    (hcell : list.heap last = some cell) (hne : last ≠ key) (data : Option α) :
    linkedListPushBack list data (some key) = .ok ⟨some start, some key,
      Function.update (list.heap.alloc key ⟨data, none⟩) last (some { cell with next := some key }),
      list.log ++ [.acquire key]⟩ := by
  have hload : (list.heap.alloc key ⟨data, none⟩).load (some last) = some cell :=
    (Function.update_of_ne hne _ _).trans hcell
  unfold linkedListPushBack
  rw [hstart, hend]
  dsimp only [newLinkedListNode]
  rw [access_bind rfl, pure_bind]
  dsimp only
  rw [hend, access_bind hload, access_bind (Heap.store_of hload),
    access_bind (Heap.load_of (Function.update_self _ _ _))]
  rw [hstart]
  rfl

theorem newLinkedList_represents : Represents (newLinkedList : LinkedList κ α) .empty := by
  refine ⟨⟨rfl, fun key hkey => absurd rfl hkey, fun key => .inl .nil, fun key => ?_⟩, rfl⟩
  exact iff_of_false (by simp [Held, newLinkedList]) (by simp [Fifo.empty, Fifo.queue])

theorem Live.fresh {heap : Heap κ (Option α)} {log : List (Entry κ)} {pointer : Option κ}
    {items : List (κ × Option α)} (h : Live heap log pointer items)
    (hkey : key ∉ items.map Prod.fst) : heap key = none := by
  by_contra hne
  exact hkey (h.only key hne)

/-- A node is allocated and comes to the end. -/
theorem Live.acquire {heap heap' : Heap κ (Option α)} {log : List (Entry κ)}
    {pointer pointer' : Option κ} {items : List (κ × Option α)} {data : Option α}
    (h : Live heap log pointer items) (hkey : key ∉ items.map Prod.fst)
    (chain : Chain heap' pointer' (items ++ [(key, data)]))
    (grown : ∀ other, heap' other ≠ none → other = key ∨ heap other ≠ none) :
    Live heap' (log ++ [.acquire key]) pointer' (items ++ [(key, data)]) := by
  refine ⟨chain, fun other hother => ?_, h.orderly.acquire ((h.held key).not.mpr hkey),
    fun other => ?_⟩
  · rw [List.map_append, List.mem_append]
    rcases grown other hother with heq | hold
    · exact .inr (List.mem_singleton.mpr heq)
    · exact .inl (h.only other hold)
  · rw [held_append_acquire, h.held, List.map_append, List.mem_append, or_comm,
      List.map_singleton, List.mem_singleton, eq_comm]

/-- The first node is freed. -/
theorem Live.release {heap : Heap κ (Option α)} {log : List (Entry κ)} {pointer next : Option κ}
    {rest : List (κ × Option α)} {datum : Option α}
    (h : Live heap log pointer ((key, datum) :: rest))
    (hcell : heap key = some ⟨datum, next⟩) :
    Live (Function.update heap key none) (log ++ [.release key]) next rest := by
  have hkey := (List.nodup_cons.mp h.chain.nodup).1
  refine ⟨h.chain.tail hcell, fun other hother => ?_, h.orderly.release ?_, fun other => ?_⟩
  · have hne : other ≠ key := by
      rintro rfl
      exact hother (Function.update_self _ _ _)
    rw [Function.update_of_ne hne] at hother
    exact (List.mem_cons.mp (h.only other hother)).resolve_left hne
  · exact (h.held key).mpr List.mem_cons_self
  · rw [held_append_release, h.held, List.map_cons, List.mem_cons]
    constructor
    · rintro ⟨hne, heq | hmem⟩
      · exact absurd heq.symm hne
      · exact hmem
    · intro hmem
      exact ⟨fun heq => hkey (heq ▸ hmem), .inr hmem⟩

namespace Represents

theorem of_nil (h : Represents list fifo) (hqueue : fifo.queue = []) :
    list.start = none ∧ list.endNode = none := by
  have hchain := h.chain
  have hends := h.ends
  rw [hqueue] at hchain hends
  exact ⟨hchain, hends⟩

theorem of_concat (h : Represents list fifo) {front : List (κ × Option α)} {last : κ}
    {datum : Option α} (hqueue : fifo.queue = front ++ [(last, datum)]) :
    list.endNode = some last ∧ list.heap last = some ⟨datum, none⟩ := by
  have hchain := h.chain
  have hends := h.ends
  rw [hqueue] at hchain hends
  rw [List.getLast?_concat] at hends
  exact ⟨hends, hchain.last_cell⟩

theorem of_cons (h : Represents list fifo) {rest : List (κ × Option α)} {datum : Option α}
    (hqueue : fifo.queue = (key, datum) :: rest) :
    list.start = some key ∧ ∃ next, list.heap key = some ⟨datum, next⟩ ∧
      Chain list.heap next rest := by
  have hchain := h.chain
  rw [hqueue] at hchain
  exact hchain

theorem wellFormed (h : Represents list fifo) : WellFormed list := by
  refine ⟨?_, fifo.queue, h.chain, h.chain.nodup, fun last data hlast => ?_⟩
  · cases hqueue : fifo.queue with
    | nil => exact iff_of_true (h.of_nil hqueue).1 (h.of_nil hqueue).2
    | cons item rest =>
      have hstart := (h.of_cons hqueue).1
      have hends := h.ends
      rw [hqueue, List.getLast?_cons] at hends
      exact iff_of_false (by rw [hstart]; simp) (by rw [hends]; simp)
  · obtain ⟨front, hqueue⟩ := List.getLast?_eq_some_iff.mp hlast
    exact h.of_concat hqueue

theorem push (h : Represents list fifo) (data : Option α)
    (hkey : key ∉ fifo.queue.map Prod.fst) :
    ∃ list', linkedListPushBack list data (some key) = .ok list' ∧
      Represents list' (fifo.push key data) := by
  have hfresh := h.toLive.fresh hkey
  rcases List.eq_nil_or_concat fifo.queue with hqueue | ⟨front, ⟨last, datum⟩, hqueue⟩
  · obtain ⟨hstart, hend⟩ := h.of_nil hqueue
    refine ⟨_, pushBack_empty hstart hend key data, ?_, ?_⟩
    · rw [Fifo.queue_push]
      refine h.toLive.acquire hkey ?_ fun other => Heap.allocated_update
      rw [hqueue]
      exact Chain.single list.heap key data
    · rw [Fifo.queue_push, List.getLast?_concat]
      rfl
  · rw [List.concat_eq_append] at hqueue
    obtain ⟨hend, hcell⟩ := h.of_concat hqueue
    have hne : last ≠ key := fun heq => by rw [heq, hfresh] at hcell; contradiction
    obtain ⟨start, hstart⟩ : ∃ start, list.start = some start :=
      Option.ne_none_iff_exists'.mp ((h.wellFormed.null_iff).not.mpr (by rw [hend]; simp))
    refine ⟨_, pushBack_behind hstart hend hcell hne data, ?_, ?_⟩
    · have hchain := h.chain
      rw [hqueue] at hchain
      rw [Fifo.queue_push, ← hstart]
      refine h.toLive.acquire hkey ?_ fun other hother => ?_
      · rw [hqueue, List.append_assoc, List.singleton_append]
        exact hchain.concat hfresh
      · rcases Heap.allocated_update hother with heq | hold
        · exact .inr (by rw [heq, hcell]; simp)
        · exact Heap.allocated_update hold
    · rw [Fifo.queue_push, List.getLast?_concat]
      rfl

/-- The branch of a pop for the last node is taken when nothing is behind the first one. -/
theorem pop_end (h : Represents list fifo) {rest : List (κ × Option α)} {datum : Option α}
    {next : Option κ} (hqueue : fifo.queue = (key, datum) :: rest)
    (hcell : list.heap key = some ⟨datum, next⟩) :
    ∃ last, list.endNode = some last ∧
      (key = last → next = none ∧ rest = []) ∧
      (key ≠ last → rest.getLast?.map Prod.fst = some last) := by
  have hnodup := h.chain.nodup
  have hends := h.ends
  rw [hqueue] at hnodup hends
  have hkey := (List.nodup_cons.mp hnodup).1
  rcases List.eq_nil_or_concat rest with hrest | ⟨front, ⟨last, data⟩, hrest⟩
  · subst hrest
    obtain ⟨hend, hlast⟩ := h.of_concat (show fifo.queue = [] ++ [(key, datum)] from hqueue)
    refine ⟨key, hend, fun _ => ⟨?_, rfl⟩, fun hne => absurd rfl hne⟩
    cases Option.some.inj (hcell.symm.trans hlast)
    rfl
  · rw [List.concat_eq_append] at hrest
    have hmem : last ∈ rest.map Prod.fst := by
      rw [hrest]
      simp
    have hlast : rest.getLast?.map Prod.fst = some last := by
      rw [hrest, List.getLast?_concat]
      rfl
    refine ⟨last, ?_, fun heq => absurd (heq ▸ hmem) hkey, fun _ => hlast⟩
    rw [hends, hrest, ← List.cons_append, List.getLast?_concat]
    rfl

theorem pop (h : Represents list fifo) {rest : List (κ × Option α)} {datum : Option α}
    (hqueue : fifo.queue = (key, datum) :: rest) {fifo' : Fifo κ α} (hrest : fifo'.queue = rest) :
    ∃ list', linkedListPopFront list = .ok (list', datum) ∧ Represents list' fifo' := by
  obtain ⟨hstart, next, hcell, -⟩ := h.of_cons hqueue
  obtain ⟨last, hend, hlast, hmore⟩ := h.pop_end hqueue hcell
  have hlive := h.toLive
  rw [hqueue] at hlive
  refine ⟨⟨next, rest.getLast?.map Prod.fst, Function.update list.heap key none,
    list.log ++ [.release key]⟩, ?_, ⟨?_, ?_⟩⟩
  · unfold linkedListPopFront
    by_cases heq : key = last
    · obtain ⟨hnext, hnil⟩ := hlast heq
      rw [hstart, hend]
      dsimp only
      rw [access_bind (Heap.load_of hcell), if_pos heq, access_bind (Heap.load_of hcell),
        if_pos hnext, pure_bind, access_bind (Heap.load_of hcell),
        access_bind (Heap.free_of hcell), hnil]
      rfl
    · rw [hstart, hend]
      dsimp only
      rw [access_bind (Heap.load_of hcell), if_neg heq, pure_bind,
        access_bind (Heap.load_of hcell), access_bind (Heap.free_of hcell), hmore heq]
      rfl
  · rw [hrest]
    exact hlive.release hcell
  · rw [hrest]

end Represents

omit [DecidableEq κ] in
/-- The loop counts the nodes on the way. -/
theorem countNodes_eq {heap : Heap κ (Option α)} {pointer : Option κ}
    {items : List (κ × Option α)} (h : Chain heap pointer items) {fuel : Nat}
    (enough : items.length ≤ fuel) (len : Nat) :
    countNodes heap fuel pointer len = .ok (len + items.length) := by
  induction items generalizing pointer fuel len with
  | nil =>
    rw [show pointer = none from h]
    cases fuel <;> rfl
  | cons item items ih =>
    obtain ⟨rfl, next, hcell, hrest⟩ := h
    cases fuel with
    | zero => exact absurd enough (Nat.not_succ_le_zero _)
    | succ fuel =>
      rw [countNodes, access_bind (Heap.load_of hcell), ih hrest (Nat.le_of_succ_le_succ enough),
        List.length_cons, Nat.add_assoc, Nat.add_comm 1]

theorem Represents.len (h : Represents list fifo) {fuel : Nat} (enough : fifo.queue.length ≤ fuel) :
    linkedListLen fuel (some list) = .ok (fifo.pushed.length - fifo.popped) := by
  unfold linkedListLen
  dsimp only
  rw [countNodes_eq h.chain enough, Nat.zero_add, Fifo.length_queue]

/-- The loop frees the nodes on the way, and their data with them. -/
theorem destroyNodes_eq {heap : Heap κ (Option α)} {log : List (Entry κ)} {pointer : Option κ}
    {items : List (κ × Option α)} (h : Live heap log pointer items) {fuel : Nat}
    (enough : items.length ≤ fuel) (freed : List (Option α)) :
    ∃ heap' log', destroyNodes heap log fuel pointer freed =
      .ok (heap', log', freed ++ items.map Prod.snd) ∧ Live heap' log' none [] := by
  induction items generalizing heap log pointer fuel freed with
  | nil =>
    have hnull : pointer = none := h.chain
    subst hnull
    refine ⟨heap, log, ?_, h⟩
    rw [List.map_nil, List.append_nil]
    cases fuel <;> rfl
  | cons item items ih =>
    obtain ⟨key, datum⟩ := item
    obtain ⟨rfl, next, hcell, -⟩ := h.chain
    cases fuel with
    | zero => exact absurd enough (Nat.not_succ_le_zero _)
    | succ fuel =>
      obtain ⟨heap', log', hloop, hlive⟩ := ih (h.release hcell) (Nat.le_of_succ_le_succ enough)
        (freed ++ [datum])
      refine ⟨heap', log', ?_, hlive⟩
      rw [destroyNodes, access_bind (Heap.load_of hcell), access_bind (Heap.free_of hcell), hloop,
        List.append_assoc]
      rfl

/-- The end of a list: what was pushed and not popped is freed, and every node has been. -/
theorem Represents.destroy (h : Represents list fifo) {fuel : Nat}
    (enough : fifo.queue.length ≤ fuel) : ∃ list', linkedListDestroy fuel list =
      .ok (list', fifo.queue.map Prod.snd) ∧ (∀ key, list'.heap key = none) ∧
        Orderly list'.log ∧ ∀ key, ¬ Held key list'.log := by
  obtain ⟨heap, log, hloop, hlive⟩ := destroyNodes_eq h.toLive enough []
  refine ⟨⟨none, none, heap, log⟩, ?_, fun key => hlive.fresh List.not_mem_nil, hlive.orderly,
    fun key hheld => ?_⟩
  · unfold linkedListDestroy
    rw [hloop]
    rfl
  · exact absurd ((hlive.held key).mp hheld) List.not_mem_nil

/-- Every call does what a queue does. -/
theorem listCall_refines :
    Refines (listCall (κ := κ) (α := α)) Fifo.call Fifo.Granted Represents := by
  intro list fifo call h granted
  cases call with
  | pushBack data address =>
    cases address with
    | none => contradiction
    | some key =>
      obtain ⟨list', hpush, hrep⟩ := h.push data granted
      refine ⟨list', ?_, hrep⟩
      unfold listCall
      dsimp only
      rw [hpush]
      rfl
  | popFront =>
    cases hqueue : fifo.queue with
    | nil =>
      obtain ⟨hstart, hend⟩ := h.of_nil hqueue
      rw [Fifo.call_pop_nil hqueue]
      refine ⟨list, ?_, h⟩
      unfold listCall linkedListPopFront
      dsimp only
      rw [hstart, hend]
      rfl
    | cons item rest =>
      obtain ⟨key, datum⟩ := item
      obtain ⟨next, hcall, hrest⟩ := Fifo.call_pop_cons hqueue
      obtain ⟨list', hpop, hrep⟩ := h.pop hqueue hrest
      rw [hcall]
      refine ⟨list', ?_, hrep⟩
      unfold listCall
      dsimp only
      rw [hpop]
      rfl
  | len fuel =>
    refine ⟨list, ?_, h⟩
    unfold listCall
    dsimp only
    rw [h.len granted]
    rfl

/-- In every run the calls do what those of a queue do, and the pointers of every state are
as they should be. -/
theorem list_is_fifo (calls : List (ListCall κ α))
    (granted : EveryCall (total Fifo.call) Fifo.Granted .empty calls) :
    Follows listCall Fifo.call (fun list fifo => Represents list fifo ∧ WellFormed list)
      newLinkedList .empty calls ∧
    ((∀ call ∈ calls, call.NonNull) →
      EveryCall (total Fifo.call) Fifo.NullIffEmpty (.empty : Fifo κ α) calls) := by
  constructor
  · exact (listCall_refines.follows newLinkedList_represents granted).imp
      fun list fifo h => ⟨h, h.wellFormed⟩
  · exact Fifo.everyCall_nullIffEmpty fun item hmem => nomatch hmem

end Refinement

/-- Two jobs, the second one in the node that the first one has left. -/
theorem list_is_fifo_reused :
    let calls : List (ListCall Nat Nat) :=
      [.pushBack (some 7) (some 0), .len 1, .popFront, .pushBack (some 8) (some 0), .popFront,
        .popFront]
    Follows listCall Fifo.call (fun list fifo => Represents list fifo ∧ WellFormed list)
      newLinkedList .empty calls ∧
    ((∀ call ∈ calls, call.NonNull) →
      EveryCall (total Fifo.call) Fifo.NullIffEmpty (.empty : Fifo Nat Nat) calls) :=
  list_is_fifo _ (by decide)

end LinkedList

end Net77
