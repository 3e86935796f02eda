import Net77.Http.StringMode

/-! How far string mode reads. The reference is about all of its object here, so that
a read at an index from `len` on is a read outside. The scan stops at a line end or not
at all, also when the header block is complete. -/
namespace Net77.Http

/-- `str->len` in front of each `str->len--` of the scan loop. -/
def scanDecrements : Bytes → (len : Nat) → (lastWasNl isBeginning : Bool) → List Nat
  | [], _, _, _ => []
  | [c], len, lastWasNl, isBeginning =>
    if (1 < len ∧ c = cr) ∧ ¬ isBeginning ∧ ¬ lastWasNl then [len, decSize len] else []
  | c :: d :: rest, len, lastWasNl, isBeginning =>
    if (1 < len ∧ c = cr) ∨ d = lf then
      if isBeginning ∨ lastWasNl then []
      else len :: decSize len :: scanDecrements rest (decSize (decSize len)) true true
    else len :: scanDecrements (d :: rest) (decSize len) false true

/-- The same of `while (str->len > 0 && (++str->data)[-1] != '\n') str->len--`. -/
def skipDecrements : Bytes → (len : Nat) → List Nat
  | _, 0 => []
  | [], _ + 1 => []
  | c :: rest, len + 1 => if c = lf then [] else (len + 1) :: skipDecrements rest len

def headerStringDecrements (str : StringRef) : List Nat :=
  scanDecrements str.data str.len false false ++
    match scanHeaderString str.data str.len 0 false false with
    | .ok (.brokeOff _ rest) => skipDecrements rest.data rest.len
    | _ => []

/-- A blank line terminates the header block: there is no field, or one in front of it. -/
def HasBlankLine (text : Bytes) : Prop := crlf <+: text ∨ crlf ++ crlf <:+: text

/-- What the caller of `parseHeaderString` relies on for a text. -/
structure StringModeWell (text : Bytes) : Prop where
  /-- nothing behind the text is read, and the call ends -/
  returns : (∃ result, parseHeaderString ⟨text.length, text⟩ = .ok result) ∨
    ∃ code ≠ 0, parseHeaderString ⟨text.length, text⟩ = .error (.status code)
  /-- the length is never decremented below zero -/
  noWrap : 0 ∉ headerStringDecrements ⟨text.length, text⟩
  rejects : ¬ HasBlankLine text →
    ∃ code ≠ 0, parseHeaderString ⟨text.length, text⟩ = .error (.status code)
  /-- what is consumed and what remains make up the text -/
  stops : ∀ head rest, parseHeaderString ⟨text.length, text⟩ = .ok (head, rest) →
    ∃ consumed, Consumes ⟨text.length, text⟩ consumed rest

/-- The newline test of the scan loop succeeds somewhere in a text. -/
def NewlineSeen (text : Bytes) : Prop := ∃ c d, [c, d] <:+: text ∧ (c = cr ∨ d = lf)

theorem newlineSeen_cons_cons {c d : Byte} {rest : Bytes} :
    NewlineSeen (c :: d :: rest) ↔ (c = cr ∨ d = lf) ∨ NewlineSeen (d :: rest) := by
  constructor
  · rintro ⟨c', d', hin, hnl⟩
    rcases List.infix_cons_iff.mp hin with hstart | hin
    · obtain ⟨rfl, hnext⟩ := List.cons_prefix_cons.mp hstart
      obtain ⟨rfl, -⟩ := List.cons_prefix_cons.mp hnext
      exact .inl hnl
    · exact .inr ⟨c', d', hin, hnl⟩
  · rintro (hnl | ⟨c', d', hin, hnl⟩)
    · exact ⟨c, d, (List.prefix_append [c, d] rest).isInfix, hnl⟩
    · exact ⟨c', d', List.infix_cons hin, hnl⟩

theorem not_newlineSeen_short {text : Bytes} (h : text.length < 2) : ¬ NewlineSeen text := by
  rintro ⟨c, d, hin, -⟩
  have hle := hin.length_le
  rw [List.length_cons, List.length_singleton] at hle
  omega

theorem newlineSeen_of_infix {text block : Bytes} (hseen : NewlineSeen block)
    (h : block <:+: text) : NewlineSeen text := by
  obtain ⟨c, d, hin, hnl⟩ := hseen
  exact ⟨c, d, hin.trans h, hnl⟩

/-- The text in front of which the second step of the scan stands. -/
def afterFirstStep : Bytes → Bytes
  | c :: d :: rest => if c = cr ∨ d = lf then rest else d :: rest
  | _ => []

/-- The newline test, where the reference covers both bytes. -/
theorem newlineTest_iff {c d : Byte} {rest : Bytes} :
    (1 < (c :: d :: rest).length ∧ c = cr) ∨ d = lf ↔ c = cr ∨ d = lf := by
  have hlen : 1 < (c :: d :: rest).length := Nat.succ_lt_succ (Nat.succ_pos rest.length)
  rw [and_iff_right hlen]

/-- With `is_beginning` set the scan returns at the first line end. -/
theorem scanHeaderString_seen (off : Nat) (last : Bool) : ∀ {text : Bytes}, NewlineSeen text →
    ∃ off' consumed rest, scanHeaderString text text.length off last true =
      .ok (.returned off' rest) ∧ Consumes ⟨text.length, text⟩ consumed rest
  | [], hseen => absurd hseen (not_newlineSeen_short (by decide))
  | [c], hseen => absurd hseen (not_newlineSeen_short (Nat.lt_succ_self 1))
  | c :: d :: rest, hseen => by
    unfold scanHeaderString
    by_cases hnl : c = cr ∨ d = lf
    · rw [if_pos (newlineTest_iff.mpr hnl), if_pos rfl]
      exact ⟨off, [], _, rfl, Consumes.refl _⟩
    · rw [if_neg (mt newlineTest_iff.mp hnl)]
      obtain ⟨off', consumed, after, hscan, hafter⟩ := scanHeaderString_seen (off + 1) false
        ((newlineSeen_cons_cons.mp hseen).resolve_left hnl)
      have hstep : Consumes ⟨(c :: d :: rest).length, c :: d :: rest⟩ [c]
          ⟨(d :: rest).length, d :: rest⟩ := ⟨rfl, Nat.add_comm _ 1⟩
      exact ⟨off', [c] ++ consumed, after, hscan, hstep.trans hafter⟩

/-- Without one it runs out of the text. -/
theorem scanHeaderString_unseen (off : Nat) (last : Bool) : ∀ {text : Bytes}, ¬ NewlineSeen text →
    scanHeaderString text text.length off last true = .error (.fault .outOfBounds)
  | [], _ => rfl
  | [c], _ => by
    unfold scanHeaderString
    rw [if_neg fun h => absurd h.1 (Nat.lt_irrefl 1)]
  | c :: d :: rest, hseen => by
    rw [newlineSeen_cons_cons, not_or] at hseen
    unfold scanHeaderString
    rw [if_neg (mt newlineTest_iff.mp hseen.1)]
    exact scanHeaderString_unseen (off + 1) false hseen.2

/-- The first step takes a line end in front of the text for that of a line. -/
theorem scanHeaderString_step {text : Bytes} (h : 2 ≤ text.length) :
    ∃ off last consumed, scanHeaderString text text.length 0 false false =
        scanHeaderString (afterFirstStep text) (afterFirstStep text).length off last true ∧
      Consumes ⟨text.length, text⟩ consumed ⟨(afterFirstStep text).length, afterFirstStep text⟩ := by
  match text, h with
  | c :: d :: rest, _ =>
    by_cases hnl : c = cr ∨ d = lf
    · have hafter : afterFirstStep (c :: d :: rest) = rest := if_pos hnl
      have hscan : scanHeaderString (c :: d :: rest) (c :: d :: rest).length 0 false false =
          scanHeaderString rest rest.length 2 true true := by
        rw [scanHeaderString, if_pos (newlineTest_iff.mpr hnl)]
        rfl
      rw [hafter]
      exact ⟨2, true, [c, d], hscan, rfl, Nat.add_comm rest.length 2⟩
    · have hafter : afterFirstStep (c :: d :: rest) = d :: rest := if_neg hnl
      have hscan : scanHeaderString (c :: d :: rest) (c :: d :: rest).length 0 false false =
          scanHeaderString (d :: rest) (d :: rest).length 1 false true := by
        rw [scanHeaderString, if_neg (mt newlineTest_iff.mp hnl)]
        rfl
      rw [hafter]
      exact ⟨1, false, [c], hscan, rfl, Nat.add_comm (d :: rest).length 1⟩

theorem two_le_of_seen {text : Bytes} (hseen : NewlineSeen (afterFirstStep text)) :
    2 ≤ text.length := by
  match text with
  | [] => exact absurd hseen (not_newlineSeen_short Nat.two_pos)
  | [_] => exact absurd hseen (not_newlineSeen_short Nat.two_pos)
  | _ :: _ :: rest => exact Nat.le_add_left 2 rest.length

theorem scanHeaderString_runsOut {text : Bytes} (hseen : ¬ NewlineSeen (afterFirstStep text)) :
    scanHeaderString text text.length 0 false false = .error (.fault .outOfBounds) := by
  by_cases hlong : 2 ≤ text.length
  · obtain ⟨off, last, -, hfirst, -⟩ := scanHeaderString_step hlong
    rw [hfirst, scanHeaderString_unseen off last hseen]
  · match text with
    | [] => rfl
    | [c] =>
      unfold scanHeaderString
      rw [if_neg fun h => absurd h.1 (Nat.lt_irrefl 1)]
    | _ :: _ :: rest => exact absurd (Nat.le_add_left 2 rest.length) hlong

theorem parseHeaderString_seen {text : Bytes} (hseen : NewlineSeen (afterFirstStep text)) :
    ∃ head rest consumed, parseHeaderString ⟨text.length, text⟩ = .ok (head, rest) ∧
      Consumes ⟨text.length, text⟩ consumed rest := by
  obtain ⟨off, last, front, hfirst, hfront⟩ := scanHeaderString_step (two_le_of_seen hseen)
  obtain ⟨off', consumed, rest, hscan, hrest⟩ := scanHeaderString_seen off last hseen
  refine ⟨⟨0, text⟩, rest, front ++ consumed, ?_, hfront.trans hrest⟩
  unfold parseHeaderString
  rw [hfirst, hscan]
  rfl

theorem parseHeaderString_unseen {text : Bytes} (hseen : ¬ NewlineSeen (afterFirstStep text)) :
    parseHeaderString ⟨text.length, text⟩ = .error (.fault .outOfBounds) := by
  unfold parseHeaderString
  rw [scanHeaderString_runsOut hseen]
  rfl

/-- The scan leaves the text in front of a decrement of zero. -/
theorem scanDecrements_pos (last beginning : Bool) :
    ∀ {text : Bytes}, 0 ∉ scanDecrements text text.length last beginning
  | [] => List.not_mem_nil
  | [c] => by
    unfold scanDecrements
    rw [if_neg fun h => absurd h.1.1 (Nat.lt_irrefl 1)]
    exact List.not_mem_nil
  | c :: d :: rest => by
    unfold scanDecrements
    split_ifs
    · exact List.not_mem_nil
    · refine List.not_mem_cons_of_ne_of_not_mem (Nat.succ_ne_zero _).symm ?_
      refine List.not_mem_cons_of_ne_of_not_mem (Nat.succ_ne_zero rest.length).symm ?_
      exact scanDecrements_pos true true
    · refine List.not_mem_cons_of_ne_of_not_mem (Nat.succ_ne_zero _).symm ?_
      exact scanDecrements_pos false true

/-- The second loop is not reached. -/
theorem headerStringDecrements_pos (text : Bytes) :
    0 ∉ headerStringDecrements ⟨text.length, text⟩ := by
  have hscan : headerStringDecrements ⟨text.length, text⟩ =
      scanDecrements text text.length false false := by
    by_cases hseen : NewlineSeen (afterFirstStep text)
    · obtain ⟨off, last, -, hfirst, -⟩ := scanHeaderString_step (two_le_of_seen hseen)
      obtain ⟨off', -, rest, hscan, -⟩ := scanHeaderString_seen off last hseen
      rw [headerStringDecrements, hfirst, hscan, List.append_nil]
    · rw [headerStringDecrements, scanHeaderString_runsOut hseen, List.append_nil]
  rw [hscan]
  exact scanDecrements_pos false false

theorem infix_afterFirstStep {block rest : Bytes} (c d : Byte) (h : block <:+: rest) :
    block <:+: afterFirstStep (c :: d :: rest) := by
  show block <:+: if c = cr ∨ d = lf then rest else d :: rest
  split_ifs
  · exact h
  · exact List.infix_cons h

/-- With a blank line behind the fields the second step has a line end in front of it. -/
theorem newlineSeen_of_blank {text : Bytes} (h : crlf ++ crlf <:+: text) :
    NewlineSeen (afterFirstStep text) := by
  have hnewline : NewlineSeen crlf := ⟨cr, lf, List.infix_rfl, .inl rfl⟩
  obtain ⟨front, back, rfl⟩ := h
  apply newlineSeen_of_infix hnewline
  match front with
  | [] => exact infix_afterFirstStep cr lf (List.prefix_append crlf back).isInfix
  | [c] => exact infix_afterFirstStep c cr (List.infix_cons (List.prefix_append crlf back).isInfix)
  | c :: d :: front =>
    have hrest : crlf <:+: front ++ (crlf ++ crlf) ++ back := ⟨front, crlf ++ back, by simp⟩
    exact infix_afterFirstStep c d hrest

theorem StringModeWell.seen {text : Bytes} (h : StringModeWell text) :
    NewlineSeen (afterFirstStep text) := by
  by_contra hseen
  have hfault := parseHeaderString_unseen hseen
  rcases h.returns with ⟨result, hok⟩ | ⟨code, -, hstatus⟩
  · cases hfault.symm.trans hok
  · cases hfault.symm.trans hstatus

theorem StringModeWell.blank {text : Bytes} (h : StringModeWell text) : HasBlankLine text := by
  by_contra hblank
  obtain ⟨code, -, hstatus⟩ := h.rejects hblank
  obtain ⟨head, rest, -, hok, -⟩ := parseHeaderString_seen h.seen
  cases hok.symm.trans hstatus

/-- String mode does what its caller relies on if and only if a blank line ends the block,
and where the block has no field only if a line end is seen behind that line. -/
theorem string_mode_well_iff (text : Bytes) : StringModeWell text ↔
    crlf ++ crlf <:+: text ∨ crlf <+: text ∧ NewlineSeen (text.drop 2) := by
  constructor
  · intro h
    rcases h.blank with ⟨back, rfl⟩ | hblank
    · exact .inr ⟨List.prefix_append crlf back, h.seen⟩
    · exact .inl hblank
  · intro h
    have hseen : NewlineSeen (afterFirstStep text) := by
      rcases h with hblank | ⟨⟨back, rfl⟩, hseen⟩
      · exact newlineSeen_of_blank hblank
      · exact hseen
    have hblank : HasBlankLine text := h.symm.imp_left And.left
    obtain ⟨head, rest, consumed, hok, hrest⟩ := parseHeaderString_seen hseen
    refine ⟨.inl ⟨(head, rest), hok⟩, headerStringDecrements_pos text, ?_, ?_⟩
    · intro hnone
      exact absurd hblank hnone
    · intro head' rest' hok'
      cases hok.symm.trans hok'
      exact ⟨consumed, hrest⟩

/-- The header block of a request that has neither fields nor a body. -/
theorem emptyHeader_not_well : ¬ StringModeWell crlf := by
  intro h
  have hfault : parseHeaderString ⟨2, crlf⟩ = .error (.fault .outOfBounds) := rfl
  rcases h.returns with ⟨result, hok⟩ | ⟨code, -, hstatus⟩
  · cases hfault.symm.trans hok
  · cases hfault.symm.trans hstatus

end Net77.Http
