import Net77.Base.Calls
import Net77.StringBuilder

/-! Sequences of calls on one `StringBuilder`. They do what they promise exactly
as long as no expansion asks for more than `maxCapacity`. -/
namespace Net77

open Net77.Base

inductive StringBuilderCall where
  | append (ref : StringRef)
  | expandBuf (minNewSize : Nat)
  | build

namespace StringBuilderCall

def run (rt : Runtime) (builder : StringBuilder) :
    StringBuilderCall → Except Stop (StringBuilder × Option OwnedString)
  | .append ref => do
    let builder ← stringBuilderAppend rt builder ref.data ref.len
    pure (builder, none)
  | .expandBuf minNewSize => do
    let builder ← stringBuilderExpandBuf rt builder minNewSize
    pure (builder, none)
  | .build => do
    let str ← stringBuilderBuild rt builder
    pure (builder, some str)

/-- What the call adds to the text. -/
def appended : StringBuilderCall → Bytes
  | .append ref => ref.bytes
  | _ => []

/-- What the call returns if `text` was appended before. -/
def result (text : Bytes) : StringBuilderCall → Option OwnedString
  | .build => some ⟨text.length, text ++ [0]⟩
  | _ => none

/-- The new size that the call asks for, if it has to expand the builder. -/
def request (builder : StringBuilder) : StringBuilderCall → Option Nat
  | .append ref =>
    let newLen := (builder.len + ref.len) % 2 ^ 64
    if builder.cap < newLen then some newLen else none
  | .expandBuf minNewSize => some minNewSize
  | .build => none

/-- What the caller has to see to: readable bytes, and the `assert` of
`stringBuilderExpandBuf`. -/
def Asserted (builder : StringBuilder) : StringBuilderCall → Prop
  | .append ref => ref.Readable
  | .expandBuf minNewSize => builder.cap < minNewSize
  | .build => True

instance (builder : StringBuilder) :
    (call : StringBuilderCall) → Decidable (call.Asserted builder)
  | .append ref => inferInstanceAs (Decidable ref.Readable)
  | .expandBuf minNewSize => inferInstanceAs (Decidable (builder.cap < minNewSize))
  | .build => inferInstanceAs (Decidable True)

/-- No size is beyond what the growth formula and the size of a string with its
NUL are good for. -/
def Fits (builder : StringBuilder) (call : StringBuilderCall) : Prop :=
  (∀ n, call.request builder = some n → n ≤ maxCapacity) ∧
    (call = .build → builder.len + 1 < 2 ^ 64)

end StringBuilderCall

/-- Every call of the run returns, an expansion gives at least the requested
capacity, and the builder has the text that was appended so far. -/
def Behaves (rt : Runtime) : StringBuilder → Bytes → List StringBuilderCall → Prop
  | builder, text, [] => builder.Carries text
  | builder, text, call :: calls => builder.Carries text ∧
      ∃ builder', call.run rt builder = .ok (builder', call.result text) ∧
        (∀ n, call.request builder = some n → n ≤ builder'.cap) ∧
        Behaves rt builder' (text ++ call.appended) calls

/-- The bytes that a sequence of calls appends. -/
def appendedLen (calls : List StringBuilderCall) : Nat :=
  (calls.flatMap StringBuilderCall.appended).length

section Steps

variable {rt : Runtime} {builder : StringBuilder} {text : Bytes}

/-- Growing to a request that fits keeps the text. -/
theorem StringBuilder.Carries.expand (halloc : ∀ size, rt.malloc size = true)
    (h : builder.Carries text) {n : Nat} (hcap : builder.cap < n) (hmax : n ≤ maxCapacity) :
    ∃ bigger, stringBuilderExpandBuf rt builder n = .ok bigger ∧ bigger.Carries text ∧
      n ≤ bigger.cap := by
  have hle := le_newCapacity rt hmax
  have hlen := h.len_le
  refine ⟨⟨builder.len, newCapacity rt n, reallocCells builder.data (newCapacity rt n)⟩, ?_,
    ⟨?_, h.len_eq, ?_⟩, ?_⟩
  · unfold stringBuilderExpandBuf
    rw [if_neg (by omega)]
    dsimp only
    rw [if_pos (halloc _)]
    rfl
  · dsimp only
    rw [length_reallocCells]
  · dsimp only
    rw [take_reallocCells (by rw [h.size_eq]; exact hlen) (by omega)]
    exact h.cells_eq
  · dsimp only
    exact hle

/-- An expansion never gives more than `maxCapacity`. -/
theorem expandBuf_cap_le {bigger : StringBuilder} {n : Nat}
    (h : stringBuilderExpandBuf rt builder n = .ok bigger) : bigger.cap ≤ maxCapacity := by
  unfold stringBuilderExpandBuf at h
  split at h
  · simp at h
  · dsimp only at h
    split at h
    · cases Except.ok.inj h
      dsimp only
      exact (newCapacity_bounds rt n).2
    · simp at h

theorem StringBuilder.Carries.append (halloc : ∀ size, rt.malloc size = true)
    (h : builder.Carries text) {ref : StringRef} (hread : ref.Readable)
    (htotal : text.length + ref.len < 2 ^ 64)
    (hfits : StringBuilderCall.Fits builder (.append ref)) :
    ∃ longer, stringBuilderAppend rt builder ref.data ref.len = .ok longer ∧
      longer.Carries (text ++ ref.bytes) ∧ builder.len + ref.len ≤ longer.cap := by
  have hlen := h.len_eq
  have hnewLen : (builder.len + ref.len) % 2 ^ 64 = builder.len + ref.len :=
    Nat.mod_eq_of_lt (by omega)
  obtain ⟨room, hroom, hcarries, hle⟩ : ∃ room,
      growFor rt builder (builder.len + ref.len) = .ok room ∧ room.Carries text ∧
        builder.len + ref.len ≤ room.cap := by
    unfold growFor
    by_cases hcap : builder.cap < builder.len + ref.len
    · rw [if_pos hcap]
      apply h.expand halloc hcap
      apply hfits.1
      unfold StringBuilderCall.request
      dsimp only
      rw [hnewLen, if_pos hcap]
    · rw [if_neg hcap]
      exact ⟨builder, rfl, h, by omega⟩
  have hbytes : ref.bytes.length = ref.len := StringRef.length_bytes hread
  have hsame : room.len = builder.len := by rw [hcarries.len_eq, h.len_eq]
  have hcells : writeCells room.data room.len ref.bytes =
      .ok (room.data.take room.len ++ ref.bytes.map some ++
        room.data.drop (room.len + ref.bytes.length)) := by
    unfold writeCells
    rw [if_pos (by rw [hcarries.size_eq]; omega)]
    rfl
  have hlonger := hcarries.write hcells
  rw [hbytes, hsame] at hlonger
  refine ⟨_, ?_, hlonger, hle⟩
  unfold stringBuilderAppend
  dsimp only
  rw [hnewLen, hroom, ok_bind, if_neg (by unfold StringRef.Readable at hread; omega)]
  rw [show ref.data.take ref.len = ref.bytes from rfl, hcells, hsame, hbytes]
  rfl

/-- One call that fits does what it promises. -/
theorem StringBuilderCall.Fits.step (halloc : ∀ size, rt.malloc size = true)
    {call : StringBuilderCall} (hfits : call.Fits builder) (h : builder.Carries text)
    (hasserted : call.Asserted builder) (htotal : text.length + call.appended.length < 2 ^ 64) :
    ∃ builder', call.run rt builder = .ok (builder', call.result text) ∧
      (∀ n, call.request builder = some n → n ≤ builder'.cap) ∧
      builder'.Carries (text ++ call.appended) := by
  cases call with
  | append ref =>
    unfold StringBuilderCall.appended at htotal
    rw [StringRef.length_bytes hasserted] at htotal
    obtain ⟨longer, happend, hcarries, hle⟩ := h.append halloc hasserted htotal hfits
    refine ⟨longer, ?_, ?_, hcarries⟩
    · rw [StringBuilderCall.run, happend]
      rfl
    · intro n hn
      unfold StringBuilderCall.request at hn
      dsimp only at hn
      split at hn
      · cases Option.some.inj hn
        exact (Nat.mod_le _ _).trans hle
      · contradiction
  | expandBuf minNewSize =>
    obtain ⟨bigger, hexpand, hcarries, hle⟩ :=
      h.expand halloc hasserted (hfits.1 minNewSize rfl)
    refine ⟨bigger, ?_, ?_, ?_⟩
    · rw [StringBuilderCall.run, hexpand]
      rfl
    · intro n hn
      cases Option.some.inj hn
      exact hle
    · rwa [show (StringBuilderCall.expandBuf minNewSize).appended = [] from rfl, List.append_nil]
  | build =>
    have hlen := hfits.2 rfl
    have hcells := h.cells_eq
    rw [h.len_eq] at hcells hlen
    refine ⟨builder, ?_, fun n hn => by contradiction, ?_⟩
    · unfold StringBuilderCall.run stringBuilderBuild
      dsimp only
      rw [h.len_eq, if_pos (halloc _), Nat.mod_eq_of_lt hlen, if_neg (by omega),
        StringBuilder.Holds.readCells_eq hcells]
      rfl
    · rwa [show StringBuilderCall.build.appended = [] from rfl, List.append_nil]

/-- A call that returns and gives what it was asked for did fit. -/
theorem StringBuilderCall.fits_of_run {call : StringBuilderCall} {builder' : StringBuilder}
    {out : Option OwnedString} (hrun : call.run rt builder = .ok (builder', out))
    (hrequest : ∀ n, call.request builder = some n → n ≤ builder'.cap) : call.Fits builder := by
  cases call with
  | append ref =>
    refine ⟨?_, fun hbuild => by contradiction⟩
    intro n hn
    have hle := hrequest n hn
    obtain ⟨longer, happend, hrest⟩ := bind_eq_ok.mp hrun
    cases Except.ok.inj hrest
    unfold stringBuilderAppend at happend
    dsimp only at happend
    obtain ⟨room, hroom, happend⟩ := bind_eq_ok.mp happend
    unfold StringBuilderCall.request at hn
    dsimp only at hn
    split at hn
    · rename_i hcap
      rw [growFor, if_pos hcap] at hroom
      have hmax := expandBuf_cap_le hroom
      split at happend
      · simp at happend
      · obtain ⟨cells, -, happend⟩ := bind_eq_ok.mp happend
        cases Except.ok.inj happend
        exact hle.trans hmax
    · contradiction
  | expandBuf minNewSize =>
    refine ⟨?_, fun hbuild => by contradiction⟩
    intro n hn
    have hle := hrequest n hn
    obtain ⟨bigger, hexpand, hrest⟩ := bind_eq_ok.mp hrun
    cases Except.ok.inj hrest
    exact hle.trans (expandBuf_cap_le hexpand)
  | build =>
    refine ⟨fun n hn => by contradiction, ?_⟩
    intro _
    obtain ⟨str, hbuild, -⟩ := bind_eq_ok.mp hrun
    unfold stringBuilderBuild at hbuild
    dsimp only at hbuild
    split at hbuild
    · split at hbuild
      · simp at hbuild
      · omega
    · simp at hbuild

theorem behaves_of_fits (halloc : ∀ size, rt.malloc size = true) {calls : List StringBuilderCall}
    (h : builder.Carries text)
    (hasserted : EveryCall (fun builder call => call.run rt builder)
      (fun builder call => call.Asserted builder) builder calls)
    (htotal : text.length + appendedLen calls < 2 ^ 64)
    (hfits : EveryCall (fun builder call => call.run rt builder)
      (fun builder call => call.Fits builder) builder calls) : Behaves rt builder text calls := by
  induction calls generalizing builder text with
  | nil => exact h
  | cons call calls ih =>
    rw [appendedLen, List.flatMap_cons, List.length_append, ← appendedLen] at htotal
    obtain ⟨builder', hrun, hrequest, hcarries⟩ :=
      hfits.1.step halloc h hasserted.1 (by omega)
    refine ⟨h, builder', hrun, hrequest, ?_⟩
    apply ih hcarries (hasserted.2 _ _ hrun)
    · rw [List.length_append]
      omega
    · exact hfits.2 _ _ hrun

theorem fits_of_behaves {calls : List StringBuilderCall} (h : Behaves rt builder text calls) :
    EveryCall (fun builder call => call.run rt builder)
      (fun builder call => call.Fits builder) builder calls := by
  induction calls generalizing builder text with
  | nil => exact trivial
  | cons call calls ih =>
    obtain ⟨-, builder', hrun, hrequest, hbehaves⟩ := h
    refine ⟨call.fits_of_run hrun hrequest, ?_⟩
    intro s' r hrun'
    cases Except.ok.inj (hrun.symm.trans hrun')
    exact ih hbehaves

end Steps

/-- A run of calls on a new builder does what it promises exactly if every
request for an expansion is at most `maxCapacity`. -/
theorem behaves_iff_fits {rt : Runtime} (halloc : ∀ size, rt.malloc size = true) {cap : Nat}
    {builder : StringBuilder} {calls : List StringBuilderCall}
    (hnew : newStringBuilder rt cap = .ok builder)
    (hasserted : EveryCall (fun builder call => call.run rt builder)
      (fun builder call => call.Asserted builder) builder calls)
    (htotal : appendedLen calls < 2 ^ 64) :
    Behaves rt builder [] calls ↔ EveryCall (fun builder call => call.run rt builder)
      (fun builder call => call.Fits builder) builder calls := by
  have hcarries : builder.Carries [] := by
    unfold newStringBuilder at hnew
    split at hnew
    · cases Except.ok.inj hnew
      exact ⟨rfl, rfl, rfl⟩
    · split at hnew
      · cases Except.ok.inj hnew
        exact ⟨List.length_replicate, rfl, rfl⟩
      · simp at hnew
  constructor
  · exact fits_of_behaves
  · apply behaves_of_fits halloc hcarries hasserted
    rwa [List.length_nil, Nat.zero_add]

/-- Some text, a string of it, and an expansion. -/
def shortRun : List StringBuilderCall := [.append ⟨2, [104, 105]⟩, .build, .expandBuf 100]

theorem behaves_iff_fits_shortRun :
    Behaves .unlimited ⟨0, 0, []⟩ [] shortRun ↔
      EveryCall (fun builder call => call.run .unlimited builder)
        (fun builder call => call.Fits builder) ⟨0, 0, []⟩ shortRun := by
  exact behaves_iff_fits (fun _ => rfl) (rfl : newStringBuilder .unlimited 0 = _) (by decide)
    (by decide)

/-- A request of one byte more than 1 GiB gives 64 bytes. -/
theorem bigRequest_misbehaves : ∃ builder, newStringBuilder .unlimited 0 = .ok builder ∧
    builder.cap < maxCapacity + 1 ∧
    ¬ Behaves .unlimited builder [] [.expandBuf (maxCapacity + 1)] := by
  refine ⟨⟨0, 0, []⟩, rfl, by decide, ?_⟩
  rintro ⟨-, builder', hrun, hrequest, -⟩
  have hcap := hrequest (maxCapacity + 1) rfl
  obtain ⟨bigger, hexpand, hrest⟩ := bind_eq_ok.mp hrun
  cases Except.ok.inj hrest
  have hmax := expandBuf_cap_le hexpand
  omega

end Net77
