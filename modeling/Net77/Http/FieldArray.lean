import Net77.Base.Ledger
import Net77.Http.HeaderPasses

/-! The array that `parseHeaderStruct` allocates: whether it has room for the fields that
are written into it. -/
namespace Net77.Http

open Net77.Base

/-- The fields that the fill loop writes if there is room for all of them. -/
def fieldsWritten : Nat → StringRef → Nat
  | 0, _ => 0
  | todo + 1, str =>
    match parseHeaderField str with
    | .ok (_, str) => fieldsWritten todo str + 1
    | .error _ => 0

/-- Neither the count nor the size of the array overflows an `int`, and the array that
the fill loop is given has room for what it writes. -/
structure FieldArrayFits (rt : Runtime) (str : StringRef) : Prop where
  counts : countLines str.data (decSize str.len) 0 0 false true ≠ .error (.fault .intOverflow)
  multiplies : ∀ count, countLines str.data (decSize str.len) 0 0 false true = .ok (.lines count) →
    count * sizeofHttpHeaderField ≤ intMax
  room : ∀ count, countLines str.data (decSize str.len) 0 0 false true = .ok (.lines count) →
    rt.malloc (toSize (headerFieldsSize count)) = true →
    sizeofHttpHeaderField * fieldsWritten count str ≤ toSize (headerFieldsSize count)

theorem fieldsWritten_le (todo : Nat) (str : StringRef) : fieldsWritten todo str ≤ todo := by
  induction todo generalizing str with
  | zero => exact Nat.le_refl 0
  | succ todo ih =>
    unfold fieldsWritten
    split
    · exact Nat.succ_le_succ (ih _)
    · exact Nat.zero_le _

/-- What the counting loop does with an input that is all of its object. -/
theorem countLines_whole {text : Bytes} (hmax : text.length ≤ intMax) :
    countLines text (decSize text.length) 0 0 false true =
      if text = [] then .error (.fault .outOfBounds)
      else .ok (if crlf <+: text then .emptyHeader else .lines (headerLines text).length) := by
  cases text with
  | nil => rfl
  | cons c text =>
    have hcount := countLines_text [] (List.cons_ne_nil c text) hmax
    rw [List.append_nil] at hcount
    rw [if_neg (List.cons_ne_nil c text), ← hcount]
    rfl

theorem headerLines_empty {text : Bytes} (h : crlf <+: text) : headerLines text = [] := by
  obtain ⟨body, rfl⟩ := h
  have nonempty : ∀ line ∈ ([] : List Bytes), line ≠ [] := by simp
  have free : ∀ line ∈ ([] : List Bytes), ¬ crlf <:+: line := by simp
  exact headLines_joinLines cr_ne_lf nonempty free body

theorem fieldArrayFits_of_few {rt : Runtime} {text : Bytes} (hmax : text.length ≤ intMax)
    (hfew : (headerLines text).length < 2 ^ 26) : FieldArrayFits rt ⟨text.length, text⟩ := by
  have hcount := countLines_whole hmax
  have hlines : ∀ count, countLines text (decSize text.length) 0 0 false true = .ok (.lines count) →
      count = (headerLines text).length := by
    intro count hcounted
    rw [hcount] at hcounted
    split at hcounted
    · contradiction
    · have hfound := Except.ok.inj hcounted
      split at hfound
      · contradiction
      · exact (LineCount.lines.inj hfound).symm
  have hsize : sizeofHttpHeaderField * (headerLines text).length < 2 ^ 31 := by
    unfold sizeofHttpHeaderField
    omega
  refine ⟨?_, ?_, ?_⟩
  · rw [hcount]
    split <;> simp
  · intro count hcounted
    rw [hlines count hcounted]
    unfold sizeofHttpHeaderField intMax
    omega
  · intro count hcounted _
    rw [hlines count hcounted, headerFieldsSize_eq hsize]
    exact Nat.mul_le_mul_left sizeofHttpHeaderField (fieldsWritten_le _ _)

/-- The array has room, and no `int` overflows, unless there are too many lines. -/
theorem field_array_fits_iff (rt : Runtime) {text : Bytes} (hmax : text.length ≤ intMax) :
    FieldArrayFits rt ⟨text.length, text⟩ ↔ (headerLines text).length < 2 ^ 26 := by
  refine ⟨?_, fieldArrayFits_of_few hmax⟩
  intro hfits
  by_cases hbegun : crlf <+: text
  · rw [headerLines_empty hbegun]
    decide
  · have hcount := countLines_whole hmax
    rw [if_neg hbegun] at hcount
    by_cases hnil : text = []
    · rw [hnil]
      decide
    · rw [if_neg hnil] at hcount
      have hproduct := hfits.multiplies _ hcount
      unfold sizeofHttpHeaderField intMax at hproduct
      omega

theorem field_array_fits_iff_short :
    FieldArrayFits .unlimited ⟨oneFieldHeader.data.length, oneFieldHeader.data⟩ ↔
      (headerLines oneFieldHeader.data).length < 2 ^ 26 :=
  field_array_fits_iff .unlimited (by decide)

/-- A header of fields without name and value. -/
def emptyFields (count : Nat) : Bytes := linesText (List.replicate count [colon]) ++ (crlf ++ [])

theorem headerLines_emptyFields (count : Nat) :
    headerLines (emptyFields count) = List.replicate count [colon] := by
  apply headLines_joinLines cr_ne_lf
  · intro line hline
    rw [List.eq_of_mem_replicate hline]
    decide
  · intro line hline
    rw [List.eq_of_mem_replicate hline]
    decide

theorem length_emptyFields (count : Nat) : (emptyFields count).length = 3 * count + 2 := by
  have hlines : (linesText (List.replicate count [colon])).length = 3 * count := by
    induction count with
    | zero => rfl
    | succ count ih =>
      rw [List.replicate_succ, linesText, joinLines_cons, List.length_append, List.length_append, ih,
        List.length_singleton, List.length_cons, List.length_singleton]
      omega
  rw [emptyFields, List.length_append, hlines]
  rfl

/-- The first field is written. -/
theorem fieldsWritten_emptyFields (count : Nat) :
    0 < fieldsWritten (count + 1) ⟨(emptyFields (count + 1)).length, emptyFields (count + 1)⟩ := by
  have hline : Consumes ⟨(emptyFields (count + 1)).length, emptyFields (count + 1)⟩
      (FieldLine.text ⟨[], 0, [], by simp, by simp, by decide⟩)
      ⟨(emptyFields count).length, emptyFields count⟩ := by
    constructor
    · rfl
    · rw [length_emptyFields, length_emptyFields]
      show 3 * (count + 1) + 2 = 3 + (3 * count + 2)
      omega
  obtain ⟨field, hfield, -⟩ := parseHeaderField_complete hline
    (by rw [length_emptyFields]; exact Nat.succ_pos _) (Nat.zero_le intMax)
  unfold fieldsWritten
  rw [hfield]
  exact Nat.succ_pos _

theorem countLines_emptyFields {count : Nat} (hmax : (emptyFields (count + 1)).length ≤ intMax) :
    countLines (emptyFields (count + 1)) (decSize (emptyFields (count + 1)).length) 0 0 false true =
      .ok (.lines (count + 1)) := by
  have hnil : emptyFields (count + 1) ≠ [] := List.cons_ne_nil colon _
  have hbegun : ¬ crlf <+: emptyFields (count + 1) := fun hstart =>
    absurd (List.cons_prefix_cons.mp hstart).1 (by decide)
  rw [countLines_whole hmax, if_neg hnil, if_neg hbegun, headerLines_emptyFields,
    List.length_replicate]

/-- The first field is written behind the end of an array without room. -/
theorem emptyFields_overrun {count : Nat} (hmax : (emptyFields (count + 1)).length ≤ intMax)
    (hsize : toSize (headerFieldsSize (count + 1)) = 0) : ¬ FieldArrayFits .unlimited
      ⟨(emptyFields (count + 1)).length, emptyFields (count + 1)⟩ := by
  intro hfits
  have hroom := hfits.room _ (countLines_emptyFields hmax) rfl
  have hwritten := fieldsWritten_emptyFields count
  rw [hsize] at hroom
  unfold sizeofHttpHeaderField at hroom
  omega

/-- With 2^27 fields the size wraps around to zero. -/
theorem crowded_header_overruns :
    (emptyFields (2 ^ 27)).length ≤ intMax ∧
      ¬ FieldArrayFits .unlimited ⟨(emptyFields (2 ^ 27)).length, emptyFields (2 ^ 27)⟩ := by
  have hmax : (emptyFields (2 ^ 27)).length ≤ intMax := by
    rw [length_emptyFields]
    decide
  exact ⟨hmax, emptyFields_overrun hmax (by decide)⟩

end Net77.Http
