import Net77.Base.Ownership
import Net77.StringBuilder

/-! `lib/string_builder.c` and `freeString` with the calls of `malloc`, `realloc` and `free`
that they make. A pointer is the address of a block, or NULL. -/
namespace Net77

open Net77.Base

abbrev HeapCall (α : Type) : Type := Traced Nat Stop α

/-- The block behind a pointer. -/
def blocks : Option Nat → Multiset Nat
  | none => 0
  | some addr => {addr}

/-- `free(data)`. -/
def freeBlock : Option Nat → HeapCall Unit
  | none => pure ()
  | some addr => .release addr

/-- A builder and its `data` pointer. -/
structure PlacedBuilder where
  builder : StringBuilder
  addr : Option Nat

/-- An owned string and its `data` pointer. -/
structure PlacedString where
  str : OwnedString
  addr : Option Nat

section Calls

variable (rt : Runtime) (allocator : Allocator Nat)

/-- A `realloc` that succeeds. The block that it returns may be the one that it was given. -/
def reallocBlock (addr : Option Nat) : HeapCall Nat := do
  freeBlock addr
  .acquire allocator

def newStringBuilderAt (cap : Nat) : HeapCall PlacedBuilder :=
  if cap = 0 then pure ⟨⟨0, 0, []⟩, none⟩
  else if rt.malloc cap then do
    let addr ← .acquire allocator
    pure ⟨⟨0, cap, List.replicate cap none⟩, some addr⟩
  else .lift (.error (.fault .assertFailed))

def stringBuilderExpandBufAt (placed : PlacedBuilder) (minNewSize : Nat) :
    HeapCall PlacedBuilder :=
  if minNewSize ≤ placed.builder.cap then .lift (.error (.fault .assertFailed))
  else
    let newCap := newCapacity rt minNewSize
    if rt.malloc newCap then do
      let addr ← reallocBlock allocator placed.addr
      pure ⟨{ placed.builder with
        cap := newCap, data := reallocCells placed.builder.data newCap }, some addr⟩
    else do
      freeBlock placed.addr
      .lift (.error (.fault .assertFailed))

def growForAt (placed : PlacedBuilder) (newLen : Nat) : HeapCall PlacedBuilder :=
  if placed.builder.cap < newLen then stringBuilderExpandBufAt rt allocator placed newLen
  else pure placed

def stringBuilderAppendAt (placed : PlacedBuilder) (data : Bytes) (len : Nat) :
    HeapCall PlacedBuilder := do
  let newLen := (placed.builder.len + len) % 2 ^ 64
  let placed ← growForAt rt allocator placed newLen
  if data.length < len then .lift (.error (.fault .outOfBounds))
  else
    let cells ← .lift (writeCells placed.builder.data placed.builder.len (data.take len))
    pure { placed with builder := { placed.builder with len := newLen, data := cells } }

def stringBuilderBuildAt (placed : PlacedBuilder) : HeapCall PlacedString :=
  let size := (placed.builder.len + 1) % 2 ^ 64
  if rt.malloc size then do
    let addr ← .acquire allocator
    if size ≤ placed.builder.len then .lift (.error (.fault .outOfBounds))
    else do
      let bytes ← .lift (readCells placed.builder.data placed.builder.len)
      pure ⟨⟨placed.builder.len, bytes ++ [0]⟩, some addr⟩
  else .lift (.error (.fault .outOfBounds))

def stringBuilderBuildAndDestroyAt (placed : PlacedBuilder) :
    HeapCall (PlacedString × PlacedBuilder) :=
  let size := (placed.builder.len + 1) % 2 ^ 64
  if rt.malloc size then do
    let addr ← reallocBlock allocator placed.addr
    if size ≤ placed.builder.len then .lift (.error (.fault .outOfBounds))
    else do
      let bytes ← .lift (readCells (reallocCells placed.builder.data size) placed.builder.len)
      pure (⟨⟨placed.builder.len, bytes ++ [0]⟩, some addr⟩, ⟨⟨0, 0, []⟩, none⟩)
  else do
    freeBlock placed.addr
    .lift (.error (.fault .assertFailed))

def stringBuilderDestroyAt (placed : PlacedBuilder) : HeapCall PlacedBuilder := do
  freeBlock placed.addr
  pure ⟨stringBuilderDestroy placed.builder, none⟩

/-- `memset` stays within the block. -/
def freeString (placed : PlacedString) : HeapCall Unit :=
  match placed.addr with
  | none => pure ()
  | some addr =>
    if placed.str.data.length < placed.str.len then .lift (.error (.fault .outOfBounds))
    else .release addr

end Calls

/-- What a call hands over with what it returns, and what is left behind its error status. -/
def Hands {α : Type} (kept : α → Multiset Nat → Prop) (failed : Multiset Nat → Prop) :
    Except Stop α → Multiset Nat → Prop
  | .ok a, left => kept a left
  | .error (.status _), left => failed left
  | .error _, _ => True

/-- The builder has its block, and it has one if `allocated` holds. -/
def BuilderHas (allocated : Prop) (placed : PlacedBuilder) (left : Multiset Nat) : Prop :=
  left = blocks placed.addr ∧ (allocated → placed.addr ≠ none)

def StringHas (str : PlacedString) (left : Multiset Nat) : Prop := left = blocks str.addr

section Specs

variable {rt : Runtime} {allocator : Allocator Nat} {α β : Type} {given : Multiset Nat}
  {kept : α → Multiset Nat → Prop} {kept' : β → Multiset Nat → Prop}
  {failed : Multiset Nat → Prop}

theorem Hands.bind {call : HeapCall α} {next : α → HeapCall β}
    (h : Disposes given call (Hands kept failed))
    (hnext : ∀ a left, kept a left → Disposes left (next a) (Hands kept' failed)) :
    Disposes given (call >>= next) (Hands kept' failed) := by
  apply Disposes.bind h hnext
  intro stop left hleft
  cases stop <;> exact hleft

theorem Hands.mono {failed' : Multiset Nat → Prop} {kept' : α → Multiset Nat → Prop}
    {call : HeapCall α} (h : Disposes given call (Hands kept failed))
    (hkept : ∀ a left, kept a left → kept' a left) (hfailed : ∀ left, failed left → failed' left) :
    Disposes given call (Hands kept' failed') := by
  refine Disposes.mono h fun result left hleft => ?_
  match result, hleft with
  | .ok a, hleft => exact hkept a left hleft
  | .error (.status _), hleft => exact hfailed left hleft
  | .error (.fault _), _ => trivial
  | .error .blocked, _ => trivial

/-- A fault ends the program. -/
theorem Hands.fault (fault : Fault) :
    Disposes given (.lift (.error (.fault fault))) (Hands kept failed) := .lift trivial

/-- What is read from a block or written to it does not change who has it. -/
theorem Hands.lift {result : Except Stop α} (hnever : ∀ err, result ≠ .error (.status err)) :
    Disposes given (.lift result) (Hands (fun _ left => left = given) failed) := by
  apply Disposes.lift
  match result with
  | .ok a => rfl
  | .error (.status err) => exact absurd rfl (hnever err)
  | .error (.fault _) => trivial
  | .error .blocked => trivial

theorem release_leaves (addr : Nat) :
    Disposes (blocks (some addr)) (.release addr) (Hands (fun _ left => left = 0) failed) := by
  show Disposes (addr ::ₘ 0) _ _
  exact .release rfl

theorem freeBlock_leaves (addr : Option Nat) :
    Disposes (blocks addr) (freeBlock addr) (Hands (fun _ left => left = 0) failed) := by
  cases addr with
  | none => exact .pure rfl
  | some addr => exact release_leaves addr

theorem acquire_leaves :
    Disposes 0 (.acquire allocator) (Hands (fun addr left => left = blocks (some addr)) failed) :=
  .acquire fun _ => rfl

theorem reallocBlock_leaves (addr : Option Nat) :
    Disposes (blocks addr) (reallocBlock allocator addr)
      (Hands (fun new left => left = blocks (some new)) failed) := by
  refine Hands.bind (freeBlock_leaves addr) ?_
  rintro - left rfl
  exact acquire_leaves

theorem newStringBuilderAt_leaves (cap : Nat) : Disposes 0 (newStringBuilderAt rt allocator cap)
    (Hands (BuilderHas (cap ≠ 0)) failed) := by
  unfold newStringBuilderAt
  split
  · rename_i hcap
    exact .pure ⟨rfl, fun hne => absurd hcap hne⟩
  · split
    · refine Hands.bind acquire_leaves ?_
      rintro addr left rfl
      exact .pure ⟨rfl, fun _ => nofun⟩
    · exact Hands.fault _

theorem stringBuilderExpandBufAt_leaves {allocated : Prop} (placed : PlacedBuilder)
    (minNewSize : Nat) :
    Disposes (blocks placed.addr) (stringBuilderExpandBufAt rt allocator placed minNewSize)
      (Hands (BuilderHas allocated) failed) := by
  unfold stringBuilderExpandBufAt
  split
  · exact Hands.fault _
  · dsimp only
    split
    · refine Hands.bind (reallocBlock_leaves placed.addr) ?_
      rintro addr left rfl
      exact .pure ⟨rfl, fun _ => nofun⟩
    · exact Hands.bind (freeBlock_leaves placed.addr) fun _ left _ => Hands.fault _

theorem growForAt_leaves (placed : PlacedBuilder) (newLen : Nat) :
    Disposes (blocks placed.addr) (growForAt rt allocator placed newLen)
      (Hands (BuilderHas (placed.addr ≠ none ∨ placed.builder.cap < newLen)) failed) := by
  unfold growForAt
  split
  · exact stringBuilderExpandBufAt_leaves placed newLen
  · rename_i hcap
    exact .pure ⟨rfl, fun hor => hor.resolve_right hcap⟩

theorem writeCells_ne_status {data : List (Option Byte)} {off : Nat} {bytes : Bytes} (err : Int) :
    writeCells data off bytes ≠ .error (.status err) := by
  unfold writeCells
  split <;> nofun

theorem readCells_ne_status (err : Int) (data : List (Option Byte)) (n : Nat) :
    readCells data n ≠ .error (.status err) := by
  fun_induction readCells data n with
  | case1 data => nofun
  | case2 n => nofun
  | case3 cells n => nofun
  | case4 byte cells n ih =>
    intro h
    cases hread : readCells cells n with
    | ok bytes =>
      rw [hread] at h
      contradiction
    | error stop =>
      rw [hread] at h ih
      exact ih (congrArg Except.error (Except.error.inj h))

theorem stringBuilderAppendAt_leaves (placed : PlacedBuilder) (data : Bytes) (len : Nat) :
    Disposes (blocks placed.addr) (stringBuilderAppendAt rt allocator placed data len)
      (Hands (BuilderHas (placed.addr ≠ none ∨
        placed.builder.cap < (placed.builder.len + len) % 2 ^ 64)) failed) := by
  refine Hands.bind (growForAt_leaves placed _) ?_
  rintro bigger left ⟨rfl, hsome⟩
  split
  · exact Hands.fault _
  · refine Hands.bind (Hands.lift writeCells_ne_status) ?_
    rintro cells left rfl
    exact .pure ⟨rfl, hsome⟩

theorem stringBuilderBuildAt_leaves (placed : PlacedBuilder) :
    Disposes 0 (stringBuilderBuildAt rt allocator placed) (Hands StringHas failed) := by
  unfold stringBuilderBuildAt
  dsimp only
  split
  · refine Hands.bind acquire_leaves ?_
    rintro addr left rfl
    split
    · exact Hands.fault _
    · refine Hands.bind (Hands.lift fun err => readCells_ne_status err _ _) ?_
      rintro bytes left rfl
      exact .pure rfl
  · exact Hands.fault _

/-- The string takes the block of the builder over, and there is one even for an empty text. -/
theorem stringBuilderBuildAndDestroyAt_leaves (placed : PlacedBuilder) :
    Disposes (blocks placed.addr) (stringBuilderBuildAndDestroyAt rt allocator placed)
      (Hands (fun out left => StringHas out.1 left ∧ out.1.addr ≠ none ∧ out.2.addr = none)
        failed) := by
  unfold stringBuilderBuildAndDestroyAt
  dsimp only
  split
  · refine Hands.bind (reallocBlock_leaves placed.addr) ?_
    rintro addr left rfl
    split
    · exact Hands.fault _
    · refine Hands.bind (Hands.lift fun err => readCells_ne_status err _ _) ?_
      rintro bytes left rfl
      exact .pure ⟨rfl, nofun, rfl⟩
  · exact Hands.bind (freeBlock_leaves placed.addr) fun _ left _ => Hands.fault _

theorem stringBuilderDestroyAt_leaves (placed : PlacedBuilder) :
    Disposes (blocks placed.addr) (stringBuilderDestroyAt placed)
      (Hands (fun out left => left = 0 ∧ out.addr = none) failed) := by
  refine Hands.bind (freeBlock_leaves placed.addr) ?_
  rintro - left rfl
  exact .pure ⟨rfl, rfl⟩

theorem freeString_leaves (placed : PlacedString) :
    Disposes (blocks placed.addr) (freeString placed) (Hands (fun _ left => left = 0) failed) := by
  obtain ⟨str, addr⟩ := placed
  cases addr with
  | none => exact .pure rfl
  | some addr =>
    unfold freeString
    dsimp only
    split
    · exact Hands.fault _
    · exact release_leaves addr

end Specs

section Agreement

variable {rt : Runtime} {allocator : Allocator Nat}

theorem freeBlock_ok (addr : Option Nat) (past : List (Entry Nat)) :
    ∃ a, (freeBlock addr past).result = .ok a := by
  cases addr <;> exact ⟨(), rfl⟩

theorem reallocBlock_ok (addr : Option Nat) (past : List (Entry Nat)) :
    ∃ new, (reallocBlock allocator addr past).result = .ok new := by
  obtain ⟨a, ha⟩ := freeBlock_ok addr past
  unfold reallocBlock
  rw [Traced.bind_of_ok ha]
  exact ⟨_, rfl⟩

theorem newStringBuilderAt_agrees (cap : Nat) :
    Agrees PlacedBuilder.builder (newStringBuilderAt rt allocator cap)
      (newStringBuilder rt cap) := by
  unfold newStringBuilderAt newStringBuilder
  split
  · exact .pure _ _
  · split
    · exact .skip (fun _ => ⟨_, rfl⟩) fun addr => .pure _ _
    · exact fun _ => rfl

theorem stringBuilderExpandBufAt_agrees (placed : PlacedBuilder) (minNewSize : Nat) :
    Agrees PlacedBuilder.builder (stringBuilderExpandBufAt rt allocator placed minNewSize)
      (stringBuilderExpandBuf rt placed.builder minNewSize) := by
  unfold stringBuilderExpandBufAt stringBuilderExpandBuf
  split
  · exact fun _ => rfl
  · dsimp only
    split
    · exact .skip (reallocBlock_ok placed.addr) fun addr => .pure _ _
    · exact .skip (freeBlock_ok placed.addr) fun _ _ => rfl

theorem growForAt_agrees (placed : PlacedBuilder) (newLen : Nat) :
    Agrees PlacedBuilder.builder (growForAt rt allocator placed newLen)
      (growFor rt placed.builder newLen) := by
  unfold growForAt growFor
  split
  · exact stringBuilderExpandBufAt_agrees placed newLen
  · exact .pure _ _

theorem stringBuilderAppendAt_agrees (placed : PlacedBuilder) (data : Bytes) (len : Nat) :
    Agrees PlacedBuilder.builder (stringBuilderAppendAt rt allocator placed data len)
      (stringBuilderAppend rt placed.builder data len) := by
  refine .bind (growForAt_agrees placed _) fun bigger => ?_
  split
  · exact fun _ => rfl
  · exact .bind (.lift _) fun cells => .pure _ _

theorem stringBuilderBuildAt_agrees (placed : PlacedBuilder) :
    Agrees PlacedString.str (stringBuilderBuildAt rt allocator placed)
      (stringBuilderBuild rt placed.builder) := by
  unfold stringBuilderBuildAt stringBuilderBuild
  dsimp only
  split
  · refine .skip (fun _ => ⟨_, rfl⟩) fun addr => ?_
    split
    · exact fun _ => rfl
    · exact .bind (.lift _) fun bytes => .pure _ _
  · exact fun _ => rfl

theorem stringBuilderBuildAndDestroyAt_agrees (placed : PlacedBuilder) :
    Agrees (fun out => (out.1.str, out.2.builder))
      (stringBuilderBuildAndDestroyAt rt allocator placed)
      (stringBuilderBuildAndDestroy rt placed.builder) := by
  unfold stringBuilderBuildAndDestroyAt stringBuilderBuildAndDestroy
  dsimp only
  split
  · refine .skip (reallocBlock_ok placed.addr) fun addr => ?_
    split
    · exact fun _ => rfl
    · exact .bind (.lift _) fun bytes => .pure _ _
  · exact .skip (freeBlock_ok placed.addr) fun _ _ => rfl

end Agreement

end Net77
