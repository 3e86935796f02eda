import Mathlib.Algebra.Group.Int.Defs
import Mathlib.Algebra.Group.Nat.Defs
import Mathlib.Data.List.Infix
import Mathlib.Tactic.Common

/-! C values shared by every module: bytes, pointers, fixed-width arithmetic
and the two ways in which a call can end without a result. -/
namespace Net77

abbrev Byte := UInt8
abbrev Bytes := List Byte

/-- The bytes of an ASCII literal, without its terminating NUL. -/
def ascii (chars : List Char) : Bytes := chars.map Char.toUInt8

abbrev cr : Byte := 13
abbrev lf : Byte := 10
abbrev space : Byte := 32
abbrev tab : Byte := 9
abbrev colon : Byte := 58
abbrev slash : Byte := 47
abbrev dot : Byte := 46
abbrev crlf : Bytes := [cr, lf]

/-- Numerals of the index types that occur, in the form that `Fin` asks for. -/
instance neZeroOne : @NeZero Nat Zero.ofOfNat0 1 := ⟨by decide⟩
instance neZeroTwo : @NeZero Nat Zero.ofOfNat0 2 := ⟨by decide⟩
instance neZeroFour : @NeZero Nat Zero.ofOfNat0 4 := ⟨by decide⟩

/-- A test of every byte of a text goes through the text, not through all bytes. -/
instance (priority := high) decidableForallMem (text : Bytes) (p : Byte → Prop)
    [DecidablePred p] : Decidable (∀ c ∈ text, p c) :=
  List.decidableBAll p text

/-- An execution without a defined continuation: undefined behaviour or abort. -/
inductive Fault where
  | outOfBounds
  | arrayOverrun
  | uninitialised
  | intOverflow
  | assertFailed
  deriving DecidableEq, Repr

/-- A call ends early with a non-zero `ErrorStatus`, which its callers bubble
up, or with a fault, or it waits for an event that does not come. -/
inductive Stop where
  | status (code : Int)
  | fault (reason : Fault)
  | blocked
  deriving DecidableEq, Repr

/-- Behaviour of the C library and the compiler that the source leaves open. -/
structure Runtime where
  /-- whether `malloc` and `realloc` of so many bytes succeed -/
  malloc : Nat → Bool
  /-- the undefined result of `__builtin_clz(0)` -/
  clzZero : Int

/-- No allocation request of an `int`'s size is refused. -/
def Runtime.AllocSucceeds (rt : Runtime) : Prop :=
  ∀ size < 2 ^ 31, rt.malloc size = true

/-- A C library that never refuses an allocation. -/
def Runtime.unlimited : Runtime := ⟨fun _ => true, 0⟩

theorem Runtime.unlimited_allocSucceeds : Runtime.unlimited.AllocSucceeds := fun _ _ => rfl

def intMax : Nat := 2 ^ 31 - 1

theorem intMax_pos : 0 < intMax := by decide

/-- `--n` on a `size_t`. -/
def decSize (n : Nat) : Nat := if n = 0 then 2 ^ 64 - 1 else n - 1

/-- Conversion to `int`, `ssize_t` and `size_t`. -/
def toInt (x : Int) : Int := x.bmod (2 ^ 32)
def toSsize (x : Int) : Int := x.bmod (2 ^ 64)
def toSize (x : Int) : Nat := (x % 2 ^ 64).toNat

@[simp] theorem decSize_succ (n : Nat) : decSize (n + 1) = n := rfl

theorem toInt_of_bounds {x : Int} (hlow : -2 ^ 31 ≤ x) (hhigh : x < 2 ^ 31) : toInt x = x := by
  unfold toInt
  exact Int.bmod_eq_of_le (by omega) (by omega)

theorem toSsize_of_bounds {x : Int} (hlow : -2 ^ 63 ≤ x) (hhigh : x < 2 ^ 63) :
    toSsize x = x := by
  unfold toSsize
  exact Int.bmod_eq_of_le (by omega) (by omega)

theorem toSize_of_bounds {n : Nat} (h : n < 2 ^ 64) : toSize n = n := by
  unfold toSize
  omega

/-- The pointer is given by the readable bytes from it to the end of the object
it points into. `len` says how many of them the reference is about. -/
structure StringRef where
  len : Nat
  data : Bytes
  deriving DecidableEq, Repr

/-- An owned string: `data` is its allocation, with the NUL behind the text. -/
structure OwnedString where
  len : Nat
  data : Bytes
  deriving DecidableEq, Repr

/-- The reference promises no more bytes than its object has. -/
def StringRef.Readable (str : StringRef) : Prop := str.len ≤ str.data.length

instance (str : StringRef) : Decidable str.Readable :=
  inferInstanceAs (Decidable (str.len ≤ str.data.length))

/-- The object ends where the reference does. -/
def StringRef.Whole (str : StringRef) : Prop := str.data.length = str.len

def StringRef.bytes (str : StringRef) : Bytes := str.data.take str.len

def OwnedString.bytes (str : OwnedString) : Bytes := str.data.take str.len

def OwnedString.ref (str : OwnedString) : StringRef := ⟨str.len, str.data⟩

@[simp] theorem StringRef.bytes_append (text rest : Bytes) :
    StringRef.bytes ⟨text.length, text ++ rest⟩ = text := by
  simp [StringRef.bytes]

theorem StringRef.length_bytes {str : StringRef} (h : str.Readable) :
    str.bytes.length = str.len := by
  rw [StringRef.bytes, List.length_take]
  exact Nat.min_eq_left h

/-- `data[i]`. -/
def readAt (data : Bytes) (i : Nat) : Except Stop Byte :=
  match data[i]? with
  | some byte => .ok byte
  | none => .error (.fault .outOfBounds)

/-- A reader that took `text` off the front of `str` and left `rest`. -/
structure Consumes (str : StringRef) (text : Bytes) (rest : StringRef) : Prop where
  data_eq : str.data = text ++ rest.data
  len_eq : str.len = text.length + rest.len

namespace Consumes

theorem refl (str : StringRef) : Consumes str [] str := ⟨rfl, by simp⟩

theorem trans {a b c : StringRef} {s t : Bytes} (first : Consumes a s b) (second : Consumes b t c) :
    Consumes a (s ++ t) c := by
  constructor
  · rw [first.data_eq, second.data_eq, List.append_assoc]
  · rw [first.len_eq, second.len_eq, List.length_append, Nat.add_assoc]

theorem split {a c : StringRef} {s t : Bytes} (h : Consumes a (s ++ t) c) :
    ∃ b, Consumes a s b ∧ Consumes b t c := by
  refine ⟨⟨t.length + c.len, t ++ c.data⟩, ⟨?_, ?_⟩, ⟨rfl, rfl⟩⟩
  · rw [h.data_eq, List.append_assoc]
  · rw [h.len_eq, List.length_append, Nat.add_assoc]

theorem cancel {a b c : StringRef} {s t : Bytes} (first : Consumes a s b)
    (whole : Consumes a (s ++ t) c) : Consumes b t c := by
  constructor
  · have h := whole.data_eq
    rw [first.data_eq, List.append_assoc] at h
    exact List.append_cancel_left h
  · have h := whole.len_eq
    rw [first.len_eq, List.length_append] at h
    omega

theorem unique {a b c : StringRef} {s : Bytes} (first : Consumes a s b) (second : Consumes a s c) :
    b = c := by
  have h : Consumes b [] c := first.cancel (by simpa using second)
  obtain ⟨len, data⟩ := b
  obtain ⟨len', data'⟩ := c
  have hdata := h.data_eq
  have hlen := h.len_eq
  simp only [List.nil_append, List.length_nil, Nat.zero_add] at hdata hlen
  rw [hdata, hlen]

theorem readable {str rest : StringRef} {text : Bytes} (h : Consumes str text rest) :
    rest.Readable ↔ str.Readable := by
  unfold StringRef.Readable
  rw [h.data_eq, h.len_eq, List.length_append]
  omega

theorem whole {str rest : StringRef} {text : Bytes} (h : Consumes str text rest) :
    rest.Whole ↔ str.Whole := by
  unfold StringRef.Whole
  rw [h.data_eq, h.len_eq, List.length_append]
  omega

theorem len_pos {str rest : StringRef} {b : Byte} {text : Bytes}
    (h : Consumes str (b :: text) rest) : 0 < str.len := by
  rw [h.len_eq, List.length_cons]
  omega

theorem length_le {str rest : StringRef} {text : Bytes} (h : Consumes str text rest) :
    text.length ≤ str.len := h.len_eq.ge.trans' (Nat.le_add_right _ _)

theorem len_le {str rest : StringRef} {text : Bytes} (h : Consumes str text rest) :
    rest.len ≤ str.len := h.len_eq.ge.trans' (Nat.le_add_left _ _)

theorem len_sub {str rest : StringRef} {text : Bytes} (h : Consumes str text rest) :
    str.len - rest.len = text.length := by
  rw [h.len_eq, Nat.add_sub_cancel]

theorem bytes_eq {str rest : StringRef} {text : Bytes} (h : Consumes str text rest) :
    str.bytes = text ++ rest.bytes := by
  unfold StringRef.bytes
  rw [h.data_eq, h.len_eq, List.take_length_add_append]

/-- The reference to what was read, as the parsers return it. -/
theorem taken_bytes {str rest : StringRef} {text : Bytes} (h : Consumes str text rest) :
    StringRef.bytes ⟨text.length, str.data⟩ = text := by
  rw [h.data_eq, StringRef.bytes_append]

theorem taken_readable {str rest : StringRef} {text : Bytes} (h : Consumes str text rest) :
    StringRef.Readable ⟨text.length, str.data⟩ := by
  simp [StringRef.Readable, h.data_eq]

/-- What is read is decided by the bytes the reference is about. -/
theorem of_bytes {str : StringRef} {text tail : Bytes} (hread : str.Readable)
    (h : str.bytes = text ++ tail) :
    ∃ rest, Consumes str text rest ∧ rest.bytes = tail ∧ rest.Readable := by
  have hlen : str.len = text.length + tail.length := by
    rw [← StringRef.length_bytes hread, h, List.length_append]
  have hdata : str.data = text ++ (tail ++ str.data.drop str.len) := by
    rw [← List.append_assoc, ← h, StringRef.bytes, List.take_append_drop]
  refine ⟨⟨tail.length, tail ++ str.data.drop str.len⟩, ⟨hdata, hlen⟩, ?_, ?_⟩
  · simp
  · simp [StringRef.Readable]

end Consumes

end Net77
