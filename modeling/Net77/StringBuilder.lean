import Net77.Base.Results
import Net77.Memory

/-! `lib/string_builder.c`. A builder's allocation is a list of cells, where a
cell that was allocated but never written is `none`. -/
namespace Net77

open Net77.Base

structure StringBuilder where
  len : Nat
  cap : Nat
  data : List (Option Byte)
  deriving DecidableEq, Repr

def newStringBuilder (rt : Runtime) (cap : Nat) : Except Stop StringBuilder :=
  if cap = 0 then pure ⟨0, 0, []⟩
  else if rt.malloc cap then pure ⟨0, cap, List.replicate cap none⟩
  else .error (.fault .assertFailed)

/-- `__builtin_clz`, whose parameter is an `unsigned int`. -/
def builtinClz (rt : Runtime) (n : Nat) : Int :=
  if n % 2 ^ 32 = 0 then rt.clzZero else 31 - Nat.log2 (n % 2 ^ 32)

/-- `1 << count` on an `int`. The counts of this library exceed the width of an
`int`; the processor takes them modulo 32. -/
def shiftOne (count : Int) : Int := toInt (2 ^ (count % 32).toNat)

/-- The next power of two after `minNewSize`, or 64. -/
def newCapacity (rt : Runtime) (minNewSize : Nat) : Nat :=
  toSize (max 64 (shiftOne (8 * 8 - builtinClz rt (minNewSize - 1))))

/-- The cells of an allocation that is moved to one of `size` bytes. -/
def reallocCells (data : List (Option Byte)) (size : Nat) : List (Option Byte) :=
  data.take size ++ List.replicate (size - data.length) none

def stringBuilderExpandBuf (rt : Runtime) (builder : StringBuilder) (minNewSize : Nat) :
    Except Stop StringBuilder :=
  if minNewSize ≤ builder.cap then .error (.fault .assertFailed)
  else
    let newCap := newCapacity rt minNewSize
    if rt.malloc newCap then
      pure { builder with cap := newCap, data := reallocCells builder.data newCap }
    else .error (.fault .assertFailed)

/-- Bytes stored at an offset of an allocation. -/
def writeCells (data : List (Option Byte)) (off : Nat) (bytes : Bytes) :
    Except Stop (List (Option Byte)) :=
  if off + bytes.length ≤ data.length then
    pure (data.take off ++ bytes.map some ++ data.drop (off + bytes.length))
  else .error (.fault .outOfBounds)

/-- Bytes loaded from the start of an allocation. -/
def readCells : List (Option Byte) → Nat → Except Stop Bytes
  | _, 0 => pure []
  | [], _ + 1 => .error (.fault .outOfBounds)
  | none :: _, _ + 1 => .error (.fault .uninitialised)
  | some byte :: cells, n + 1 => do
    let bytes ← readCells cells n
    pure (byte :: bytes)

/-- `if (builder->cap < new_len) stringBuilderExpandBuf(builder, new_len)`. -/
def growFor (rt : Runtime) (builder : StringBuilder) (newLen : Nat) : Except Stop StringBuilder :=
  if builder.cap < newLen then stringBuilderExpandBuf rt builder newLen else pure builder

def stringBuilderAppend (rt : Runtime) (builder : StringBuilder) (data : Bytes) (len : Nat) :
    Except Stop StringBuilder := do
  let newLen := (builder.len + len) % 2 ^ 64
  let builder ← growFor rt builder newLen
  if data.length < len then .error (.fault .outOfBounds)
  else
    let cells ← writeCells builder.data builder.len (data.take len)
    pure { builder with len := newLen, data := cells }

/-- The result of `malloc` is not checked, so a refusal is a write to NULL. -/
def stringBuilderBuild (rt : Runtime) (builder : StringBuilder) : Except Stop OwnedString :=
  let size := (builder.len + 1) % 2 ^ 64
  if rt.malloc size then
    if size ≤ builder.len then .error (.fault .outOfBounds)
    else do
      let bytes ← readCells builder.data builder.len
      pure ⟨builder.len, bytes ++ [0]⟩
  else .error (.fault .outOfBounds)

/-- The built string and the builder, which is empty afterwards. -/
def stringBuilderBuildAndDestroy (rt : Runtime) (builder : StringBuilder) :
    Except Stop (OwnedString × StringBuilder) :=
  let size := (builder.len + 1) % 2 ^ 64
  if rt.malloc size then
    if size ≤ builder.len then .error (.fault .outOfBounds)
    else do
      let bytes ← readCells (reallocCells builder.data size) builder.len
      pure (⟨builder.len, bytes ++ [0]⟩, ⟨0, 0, []⟩)
  else .error (.fault .assertFailed)

def stringBuilderDestroy (_ : StringBuilder) : StringBuilder := ⟨0, 0, []⟩

/-- The largest request that `newCapacity` serves. -/
def maxCapacity : Nat := 2 ^ 30

private theorem two_pow_bounds {k : Nat} (hk : k ≤ 30) :
    0 < (2 : Int) ^ k ∧ (2 : Int) ^ k ≤ 2 ^ 30 := by
  have hpow : 2 ^ k ≤ 2 ^ 30 := Nat.pow_le_pow_right (by decide) hk
  exact ⟨Int.pow_pos (by decide), by exact_mod_cast hpow⟩

theorem shiftOne_cases (count : Int) : shiftOne count = -2 ^ 31 ∨
    ∃ k ≤ 30, (count % 32).toNat = k ∧ shiftOne count = 2 ^ k := by
  have hlt : (count % 32).toNat < 32 := by omega
  unfold shiftOne
  generalize (count % 32).toNat = k at hlt
  by_cases hk : k = 31
  · subst hk
    exact .inl rfl
  · have hbounds := two_pow_bounds (show k ≤ 30 by omega)
    exact .inr ⟨k, by omega, rfl, toInt_of_bounds (by omega) (by omega)⟩

theorem newCapacity_bounds (rt : Runtime) (n : Nat) :
    64 ≤ newCapacity rt n ∧ newCapacity rt n ≤ maxCapacity := by
  unfold newCapacity
  generalize (8 * 8 - builtinClz rt (n - 1)) = count
  have hmax : max 64 (shiftOne count) ≤ 2 ^ 30 ∧ 64 ≤ max 64 (shiftOne count) := by
    rcases shiftOne_cases count with h | ⟨k, hk, -, h⟩
    · omega
    · have hbounds := two_pow_bounds hk
      omega
  generalize max 64 (shiftOne count) = x at hmax
  unfold toSize maxCapacity
  omega

/-- An expansion gives at least the requested capacity. -/
theorem le_newCapacity (rt : Runtime) {n : Nat} (hmax : n ≤ maxCapacity) :
    n ≤ newCapacity rt n := by
  by_cases hsmall : n ≤ 64
  · exact hsmall.trans (newCapacity_bounds rt n).1
  · unfold maxCapacity at hmax
    have hclz : builtinClz rt (n - 1) = 31 - Nat.log2 (n - 1) := by
      unfold builtinClz
      rw [Nat.mod_eq_of_lt (by omega), if_neg (by omega)]
    have hlog : Nat.log2 (n - 1) < 30 := (Nat.log2_lt (by omega)).mpr (by omega)
    have hlt : n - 1 < 2 ^ (Nat.log2 (n - 1) + 1) := Nat.lt_log2_self
    unfold newCapacity
    rw [hclz]
    rcases shiftOne_cases (8 * 8 - (31 - (Nat.log2 (n - 1) : Int))) with h | ⟨k, hk, hcount, h⟩
    · exfalso
      have hmod : ((8 * 8 - (31 - (Nat.log2 (n - 1) : Int))) % 32).toNat =
          Nat.log2 (n - 1) + 1 := by omega
      have hbounds := two_pow_bounds (show Nat.log2 (n - 1) + 1 ≤ 30 by omega)
      unfold shiftOne at h
      rw [hmod, toInt_of_bounds (by omega) (by omega)] at h
      omega
    · have hk' : k = Nat.log2 (n - 1) + 1 := by omega
      have hbounds := two_pow_bounds hk
      have hcast : ((2 : Int) ^ k) = ((2 ^ k : Nat) : Int) := by simp
      rw [← hk'] at hlt
      rw [h]
      unfold toSize
      omega

@[simp] theorem length_reallocCells (data : List (Option Byte)) (size : Nat) :
    (reallocCells data size).length = size := by
  simp only [reallocCells, List.length_append, List.length_take, List.length_replicate]
  omega

/-- Moving an allocation keeps the cells that fit. -/
theorem take_reallocCells {data : List (Option Byte)} {n size : Nat} (hdata : n ≤ data.length)
    (hsize : n ≤ size) : (reallocCells data size).take n = data.take n := by
  rw [reallocCells, List.take_append_of_le_length (by rw [List.length_take]; omega),
    List.take_take, Nat.min_eq_left hsize]

/-- The builder is a faithful copy of `text`: its allocation has the size it
records, and the first `len` cells are the text. -/
structure StringBuilder.Carries (builder : StringBuilder) (text : Bytes) : Prop where
  size_eq : builder.data.length = builder.cap
  len_eq : builder.len = text.length
  cells_eq : builder.data.take builder.len = text.map some

namespace StringBuilder.Carries

variable {rt : Runtime} {builder : StringBuilder} {text : Bytes}

theorem len_le (h : builder.Carries text) : builder.len ≤ builder.cap := by
  have hlen := congrArg List.length h.cells_eq
  rw [List.length_take, List.length_map, ← h.len_eq, h.size_eq] at hlen
  omega

/-- Bytes stored behind the text extend it. -/
theorem write (h : builder.Carries text) {chunk : Bytes} {cells : List (Option Byte)}
    (hcells : writeCells builder.data builder.len chunk = .ok cells) :
    StringBuilder.Carries ⟨builder.len + chunk.length, builder.cap, cells⟩ (text ++ chunk) := by
  unfold writeCells at hcells
  split at hcells
  · rename_i hfits
    cases Except.ok.inj hcells
    have hsize := h.size_eq
    refine ⟨?_, by rw [h.len_eq, List.length_append], ?_⟩
    · simp only [List.length_append, List.length_take, List.length_map, List.length_drop]
      omega
    · dsimp only
      rw [h.cells_eq, ← List.map_append]
      exact List.take_left' (by rw [List.length_map, List.length_append, h.len_eq])
  · simp at hcells

end StringBuilder.Carries

/-- A copy of `text` in an allocation that no address space exceeds. -/
structure StringBuilder.Holds (builder : StringBuilder) (text : Bytes) : Prop where
  cap_lt : builder.cap < 2 ^ 62
  size_eq : builder.data.length = builder.cap
  len_eq : builder.len = text.length
  cells_eq : builder.data.take builder.len = text.map some

namespace StringBuilder.Holds

variable {rt : Runtime} {builder : StringBuilder} {text : Bytes}

theorem carries (h : builder.Holds text) : builder.Carries text :=
  ⟨h.size_eq, h.len_eq, h.cells_eq⟩

theorem len_le (h : builder.Holds text) : builder.len ≤ builder.cap := h.carries.len_le

theorem empty : (⟨0, 0, []⟩ : StringBuilder).Holds [] := ⟨by decide, rfl, rfl, rfl⟩

/-- Memory obtained with a longer allocation leaves the text as it is. -/
theorem expand (h : builder.Holds text) {n : Nat} (hcap : builder.cap < n) (hmax : n ≤ maxCapacity)
    (halloc : rt.AllocSucceeds) :
    ∃ bigger, stringBuilderExpandBuf rt builder n = .ok bigger ∧ bigger.Holds text ∧
      n ≤ bigger.cap := by
  have hle := le_newCapacity rt hmax
  have hmalloc := halloc (newCapacity rt n)
    (by have := (newCapacity_bounds rt n).2; unfold maxCapacity at this; omega)
  have hlen := h.len_le
  have hsize := h.size_eq
  refine ⟨⟨builder.len, newCapacity rt n, reallocCells builder.data (newCapacity rt n)⟩, ?_,
    ⟨?_, ?_, h.len_eq, ?_⟩, ?_⟩
  · unfold stringBuilderExpandBuf
    rw [if_neg (by omega)]
    dsimp only
    rw [if_pos hmalloc]
    rfl
  · have := (newCapacity_bounds rt n).2
    unfold maxCapacity at this
    dsimp only
    omega
  · dsimp only
    rw [length_reallocCells]
  · dsimp only
    rw [take_reallocCells (by omega) (by omega)]
    exact h.cells_eq
  · dsimp only
    exact hle

theorem grow (h : builder.Holds text) {n : Nat} (hmax : n ≤ maxCapacity)
    (halloc : rt.AllocSucceeds) :
    ∃ room, growFor rt builder n = .ok room ∧ room.Holds text ∧ n ≤ room.cap := by
  unfold growFor
  split
  · rename_i hcap
    obtain ⟨bigger, hexpand, hholds, hle⟩ := h.expand hcap hmax halloc
    exact ⟨bigger, hexpand, hholds, hle⟩
  · exact ⟨builder, rfl, h, by omega⟩

/-- An expansion that returned keeps the text, unless it shrank the allocation below it. -/
theorem expand_spec (h : builder.Holds text) {room : StringBuilder} {n : Nat}
    (hok : stringBuilderExpandBuf rt builder n = .ok room) :
    room.len = text.length ∧ room.data.length = room.cap ∧ room.cap < 2 ^ 62 ∧
      (room.len ≤ room.cap → room.Holds text) := by
  unfold stringBuilderExpandBuf at hok
  split at hok
  · simp at hok
  · dsimp only at hok
    split at hok
    · cases Except.ok.inj hok
      have hbound := (newCapacity_bounds rt n).2
      generalize newCapacity rt n = size at hbound
      have hlt : size < 2 ^ 62 := by unfold maxCapacity at hbound; omega
      refine ⟨h.len_eq, length_reallocCells _ _, hlt, fun hle => ?_⟩
      refine ⟨hlt, length_reallocCells _ _, h.len_eq, ?_⟩
      dsimp only at hle ⊢
      rw [take_reallocCells (by rw [h.size_eq]; exact h.len_le) hle]
      exact h.cells_eq
    · simp at hok

theorem grow_spec (h : builder.Holds text) {room : StringBuilder} {n : Nat}
    (hok : growFor rt builder n = .ok room) :
    room.len = text.length ∧ room.data.length = room.cap ∧ room.cap < 2 ^ 62 ∧
      (room.len ≤ room.cap → room.Holds text) := by
  unfold growFor at hok
  split at hok
  · exact h.expand_spec hok
  · cases Except.ok.inj hok
    exact ⟨h.len_eq, h.size_eq, h.cap_lt, fun _ => h⟩

/-- Growing a builder that holds nothing loses nothing. -/
theorem grow_fresh {room : StringBuilder} {n : Nat} (h : builder.Holds [])
    (hok : growFor rt builder n = .ok room) : room.Holds [] := by
  obtain ⟨hlen, -, -, hholds⟩ := h.grow_spec hok
  apply hholds
  rw [hlen]
  exact Nat.zero_le _

/-- Bytes stored behind the text extend it. -/
theorem write (h : builder.Holds text) {chunk : Bytes} {cells : List (Option Byte)}
    (hcells : writeCells builder.data builder.len chunk = .ok cells) :
    StringBuilder.Holds ⟨builder.len + chunk.length, builder.cap, cells⟩ (text ++ chunk) := by
  have hwrite := h.carries.write hcells
  exact ⟨h.cap_lt, hwrite.size_eq, hwrite.len_eq, hwrite.cells_eq⟩

theorem write_fits (h : builder.Holds text) {chunk : Bytes}
    (hfits : builder.len + chunk.length ≤ builder.cap) :
    ∃ cells, writeCells builder.data builder.len chunk = .ok cells :=
  ⟨_, if_pos (by rw [h.size_eq]; exact hfits)⟩

theorem append (h : builder.Holds text) {ref : StringRef} (hread : ref.Readable)
    (hmax : text.length + ref.len ≤ maxCapacity) (halloc : rt.AllocSucceeds) :
    ∃ longer, stringBuilderAppend rt builder ref.data ref.len = .ok longer ∧
      longer.Holds (text ++ ref.bytes) := by
  obtain ⟨room, hroom, hholds, hle⟩ :=
    h.grow (by rw [h.len_eq]; exact hmax : builder.len + ref.len ≤ maxCapacity) halloc
  have hnewLen : (builder.len + ref.len) % 2 ^ 64 = builder.len + ref.len := by
    rw [h.len_eq]
    unfold maxCapacity at hmax
    exact Nat.mod_eq_of_lt (by omega)
  have hbytes : ref.bytes.length = ref.len := StringRef.length_bytes hread
  have hsame : room.len = builder.len := by rw [hholds.len_eq, h.len_eq]
  obtain ⟨cells, hcells⟩ := hholds.write_fits (by omega : room.len + ref.bytes.length ≤ room.cap)
  have hlonger := hholds.write hcells
  rw [hbytes, hsame] at hlonger
  refine ⟨_, ?_, hlonger⟩
  unfold stringBuilderAppend
  dsimp only
  rw [hnewLen, hroom, ok_bind, if_neg (by unfold StringRef.Readable at hread; omega)]
  rw [show ref.data.take ref.len = ref.bytes from rfl, hcells]
  rfl

theorem readCells_eq {cells : List (Option Byte)} {text : Bytes}
    (h : cells.take text.length = text.map some) : readCells cells text.length = .ok text := by
  induction text generalizing cells with
  | nil => cases cells <;> rfl
  | cons c text ih =>
    cases cells with
    | nil => simp at h
    | cons cell cells =>
      simp only [List.length_cons, List.take_succ_cons, List.map_cons, List.cons.injEq] at h
      rw [h.1, List.length_cons, readCells, ih h.2]
      rfl

theorem build (h : builder.Holds text) (hmax : text.length ≤ maxCapacity)
    (halloc : rt.AllocSucceeds) :
    stringBuilderBuild rt builder = .ok ⟨text.length, text ++ [0]⟩ := by
  unfold maxCapacity at hmax
  have hcells := h.cells_eq
  rw [h.len_eq] at hcells
  unfold stringBuilderBuild
  dsimp only
  rw [h.len_eq, if_pos (halloc _ (by omega)), if_neg (by omega), readCells_eq hcells]
  rfl

theorem buildAndDestroy (h : builder.Holds text) (hmax : text.length ≤ maxCapacity)
    (halloc : rt.AllocSucceeds) :
    stringBuilderBuildAndDestroy rt builder =
      .ok (⟨text.length, text ++ [0]⟩, ⟨0, 0, []⟩) := by
  unfold maxCapacity at hmax
  have hcells := h.cells_eq
  have hlen : text.length ≤ builder.data.length := by
    rw [h.size_eq, ← h.len_eq]
    exact h.len_le
  rw [h.len_eq] at hcells
  have hkept : (reallocCells builder.data (text.length + 1)).take text.length =
      text.map some := by
    rw [take_reallocCells hlen (Nat.le_succ _), hcells]
  unfold stringBuilderBuildAndDestroy
  dsimp only
  rw [h.len_eq, if_pos (halloc _ (by omega)), if_neg (by omega),
    Nat.mod_eq_of_lt (by omega : text.length + 1 < 2 ^ 64), readCells_eq hkept]
  rfl

end StringBuilder.Holds

/-- `op` adds `text` to what a builder holds, as long as there is room. -/
def Appends (op : StringBuilder → Except Stop StringBuilder) (text : Bytes) : Prop :=
  ∀ builder prior, builder.Holds prior → prior.length + text.length ≤ maxCapacity →
    ∃ longer, op builder = .ok longer ∧ longer.Holds (prior ++ text)

namespace Appends

theorem skip : Appends pure [] := by
  intro builder prior h _
  exact ⟨builder, rfl, by simpa using h⟩

theorem ref {rt : Runtime} (halloc : rt.AllocSucceeds) (ref : StringRef) (hread : ref.Readable) :
    Appends (fun builder => stringBuilderAppend rt builder ref.data ref.len) ref.bytes := by
  intro builder prior h hroom
  rw [StringRef.length_bytes hread] at hroom
  exact h.append hread hroom halloc

theorem seq {first second : StringBuilder → Except Stop StringBuilder} {s t : Bytes}
    (hfirst : Appends first s) (hsecond : Appends second t) :
    Appends (fun builder => first builder >>= second) (s ++ t) := by
  intro builder prior h hroom
  rw [List.length_append] at hroom
  obtain ⟨mid, hmid, hholds⟩ := hfirst builder prior h (by omega)
  obtain ⟨longer, hlonger, hholds⟩ := hsecond mid _ hholds (by rw [List.length_append]; omega)
  refine ⟨longer, ?_, by simpa using hholds⟩
  dsimp only
  rw [hmid, ok_bind, hlonger]

theorem foldlM {α : Type} {step : StringBuilder → α → Except Stop StringBuilder}
    {text : α → Bytes} {items : List α}
    (hstep : ∀ item ∈ items, Appends (step · item) (text item)) :
    Appends (fun builder => items.foldlM step builder) (items.flatMap text) := by
  induction items with
  | nil => exact skip
  | cons item items ih =>
    rw [List.forall_mem_cons] at hstep
    simpa only [List.foldlM_cons, List.flatMap_cons] using hstep.1.seq (ih hstep.2)

end Appends

end Net77
