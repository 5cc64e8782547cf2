import EntitySdl.Toml.Printer

/-! # TOML strings that are written are read back

Whatever style a text is written in, what stands between the quotation marks spells the
text: it is made of characters that stand for themselves, of escapes, and between triple
marks of up to two marks in a row.  The readers of strings read everything that is
spelled so.  A string is taken here with the end of the line behind it, since a further
mark there would change it.
-/
namespace EntitySdl
namespace Toml

open Text

variable {quote c : Char} {escapes lines : Bool} {marks fuel : Nat} {cs rest : List Char}

/-! ## Escapes -/

/-- The digits of a control character in an escape. -/
def codeDigits (code : Nat) : List Char :=
  let digits := (hexDigits code).map Char.toUpper
  List.replicate (4 - digits.length) '0' ++ digits

theorem codeDigits_spec : ∀ code < 0x80, (codeDigits code).length = 4 ∧
    (codeDigits code).all isAsciiHexDigit ∧ digitsValue 16 (codeDigits code) = code := by
  decide

theorem readCode_codeDigits {code : Nat} (h : code < 0x80) (rest : List Char) :
    readCode 4 (codeDigits code ++ rest) = some (Char.ofNat code, rest) := by
  obtain ⟨hlength, hdigits, hvalue⟩ := codeDigits_spec code h
  have hvalid : code.isValidChar := .inl (by omega)
  have htake : (codeDigits code ++ rest).take 4 = codeDigits code :=
    List.take_left' hlength
  have hdrop : (codeDigits code ++ rest).drop 4 = rest := List.drop_left' hlength
  simp only [readCode, htake, hdrop, hlength, hdigits, hvalue, hvalid, decide_true, Bool.and_self,
    if_true]

/-- What stands behind the backslash of an escape for a character. -/
structure IsEscape (c : Char) (escape : List Char) : Prop where
  /-- It is read as the character. -/
  read : ∀ rest, readEscape (escape ++ rest) = some (c, rest)
  /-- It does not continue the line. -/
  stays : ∀ rest, dropContinuation? (escape ++ rest) = none

theorem isEscape_codeDigits (h : c.toNat < 0x80) : IsEscape c ('u' :: codeDigits c.toNat) where
  read rest := by
    have hcode := readCode_codeDigits h rest
    rw [Char.ofNat_toNat] at hcode
    exact hcode
  stays _ := rfl

theorem toNat_lt_of_not_isPlain (h : isPlain c = false) : c.toNat < 0x80 := by
  simp only [isPlain, Bool.or_eq_false_iff, Bool.and_eq_false_iff, decide_eq_false_iff_not,
    bne_eq_false_iff_eq] at h
  omega

/-- A character is written as itself or as an escape. -/
theorem escapeChar_cases (lines : Bool) (c : Char) :
    escapeChar lines c = [c] ∧ c ≠ '\\' ∧ (isPlain c = true ∨ lines = true ∧ c = '\n') ∨
      ∃ escape, escapeChar lines c = '\\' :: escape ∧ IsEscape c escape := by
  unfold escapeChar
  split
  case h_6 =>
    cases lines with
    | true => exact .inl ⟨rfl, by decide, .inr ⟨rfl, rfl⟩⟩
    | false => exact .inr ⟨['n'], rfl, fun _ => rfl, fun _ => rfl⟩
  case h_7 hslash _ =>
    cases hplain : isPlain c with
    | true => exact .inl ⟨rfl, hslash, .inl rfl⟩
    | false => exact .inr ⟨_, rfl, isEscape_codeDigits (toNat_lt_of_not_isPlain hplain)⟩
  all_goals exact .inr ⟨_, rfl, fun _ => rfl, fun _ => rfl⟩

/-! ## Spellings -/

/-- What is written between quotation marks for a text, after some marks in a row. -/
inductive Spells (quote : Char) (escapes lines : Bool) : Nat → List Char → List Char → Prop where
  /-- Nothing is written for no text. -/
  | nil {marks : Nat} (hmarks : marks ≤ 2) : Spells quote escapes lines marks [] []
  /-- Between triple marks a mark may stand for itself. -/
  | mark {marks : Nat} {written text : List Char} (hlines : lines = true)
      (h : Spells quote escapes lines (marks + 1) written text) :
      Spells quote escapes lines marks (quote :: written) (quote :: text)
  /-- A character stands for itself. -/
  | char {marks : Nat} {c : Char} {written text : List Char} (hmarks : marks ≤ 2) (hc : c ≠ quote)
      (hplain : isPlain c = true ∨ lines = true ∧ c = '\n') (hslash : escapes = true → c ≠ '\\')
      (h : Spells quote escapes lines 0 written text) :
      Spells quote escapes lines marks (c :: written) (c :: text)
  /-- A character is written as an escape. -/
  | escape {marks : Nat} {c : Char} {escape written text : List Char} (hmarks : marks ≤ 2)
      (hescapes : escapes = true) (hescape : IsEscape c escape)
      (h : Spells quote escapes lines 0 written text) :
      Spells quote escapes lines marks ('\\' :: (escape ++ written)) (c :: text)

/-- Strings with escapes spell their text. -/
theorem spells_escapeFrom (lines : Bool) (hmarks : marks ≤ if lines then 2 else 0)
    (cs : List Char) : Spells '"' true lines marks (escapeFrom lines marks cs) cs := by
  have htwo : ∀ {marks : Nat}, (marks ≤ if lines then 2 else 0) → marks ≤ 2 := fun h =>
    Nat.le_trans h (by cases lines <;> decide)
  induction cs generalizing marks with
  | nil => exact .nil (htwo hmarks)
  | cons c cs ih =>
    rw [escapeFrom]
    split
    · rename_i hquote
      subst hquote
      by_cases hless : marks < if lines then 2 else 0
      · rw [if_pos hless]
        have hlines : lines = true := by
          cases lines with
          | true => rfl
          | false => exact absurd hless (Nat.not_lt_zero marks)
        exact .mark hlines (ih hless)
      · rw [if_neg hless]
        have hescape : IsEscape '"' ['"'] := ⟨fun _ => rfl, fun _ => rfl⟩
        exact .escape (htwo hmarks) rfl hescape (ih (Nat.zero_le _))
    · rename_i hquote
      rcases escapeChar_cases lines c with ⟨hself, hslash, hplain⟩ | ⟨escape, hescape, his⟩
      · rw [hself]
        exact .char (htwo hmarks) hquote hplain (fun _ => hslash) (ih (Nat.zero_le _))
      · rw [hescape]
        exact .escape (htwo hmarks) rfl his (ih (Nat.zero_le _))

/-- A text without the mark spells itself on one line. -/
theorem spells_line (h : ∀ c ∈ cs, c ≠ quote ∧ isPlain c = true) :
    Spells quote false false 0 cs cs := by
  induction cs with
  | nil => exact .nil (Nat.zero_le 2)
  | cons c cs ih =>
    obtain ⟨⟨hquote, hplain⟩, hcs⟩ := List.forall_mem_cons.mp h
    exact .char (Nat.zero_le 2) hquote (.inl hplain) nofun (ih hcs)

theorem hasTriple_append_cons (hc : c ≠ quote) (hmarks : marks ≤ 2) (cs : List Char) :
    hasTriple quote (List.replicate marks quote ++ c :: cs) = hasTriple quote cs := by
  have hcons : hasTriple quote (c :: cs) = hasTriple quote cs := by
    rcases cs with _ | ⟨d, _ | ⟨e, cs⟩⟩
    · rfl
    · rfl
    · simp [hasTriple, hc]
  rcases marks with _ | _ | marks
  · exact hcons
  · rw [← hcons]
    cases cs with
    | nil => rfl
    | cons d cs => simp [hasTriple, hc]
  · obtain rfl : marks = 0 := by omega
    rw [← hcons]
    cases cs with
    | nil => simp [hasTriple, List.replicate_succ, hc]
    | cons d cs => simp [hasTriple, List.replicate_succ, beq_eq_false_iff_ne.mpr hc]

theorem le_two_of_hasTriple (h : hasTriple quote (List.replicate marks quote ++ cs) = false) :
    marks ≤ 2 := by
  rcases marks with _ | _ | _ | marks
  · omega
  · omega
  · omega
  · simp [hasTriple, List.replicate_succ] at h

/-- A text without three marks in a row spells itself between triple marks. -/
theorem spells_lines (h : ∀ c ∈ cs, isPlain c = true ∨ c = '\n')
    (htriple : hasTriple quote (List.replicate marks quote ++ cs) = false) :
    Spells quote false true marks cs cs := by
  have hmarks := le_two_of_hasTriple htriple
  induction cs generalizing marks with
  | nil => exact .nil hmarks
  | cons c cs ih =>
    obtain ⟨hc, hcs⟩ := List.forall_mem_cons.mp h
    by_cases hquote : c = quote
    · subst hquote
      have hmore : hasTriple c (List.replicate (marks + 1) c ++ cs) = false := by
        rwa [List.replicate_succ', List.append_assoc, List.singleton_append]
      exact .mark rfl (ih hcs hmore (le_two_of_hasTriple hmore))
    · rw [hasTriple_append_cons hquote hmarks] at htriple
      exact .char hmarks hquote (hc.imp_right fun hfeed => ⟨rfl, hfeed⟩) nofun
        (ih hcs htriple (Nat.zero_le 2))

/-! ## Strings on one line -/

theorem readBasicFrom_spells {written text : List Char} (h : Spells '"' true false marks written text)
    (hfuel : written.length < fuel) (rest : List Char) :
    readBasicFrom fuel (written ++ '"' :: rest) = some (text, rest) := by
  obtain ⟨fuel, rfl⟩ := Nat.exists_eq_add_one_of_ne_zero (show fuel ≠ 0 by omega)
  induction h generalizing fuel with
  | nil => rfl
  | mark hlines => cases hlines
  | @char _ c written text _ hc hplain hslash _ ih =>
    have hplain : isPlain c = true := hplain.elim id fun h => absurd h.1 Bool.false_ne_true
    rw [List.length_cons] at hfuel
    obtain ⟨fuel, rfl⟩ := Nat.exists_eq_add_one_of_ne_zero (show fuel ≠ 0 by omega)
    rw [List.cons_append, readBasicFrom, if_pos hplain, ih fuel (by omega)]
    · rfl
    · exact hc
    · exact hslash rfl
  | @escape _ c escape written text _ _ hescape _ ih =>
    rw [List.length_cons, List.length_append] at hfuel
    obtain ⟨fuel, rfl⟩ := Nat.exists_eq_add_one_of_ne_zero (show fuel ≠ 0 by omega)
    rw [List.cons_append, List.append_assoc, readBasicFrom, hescape.read]
    simp only [Option.bind_eq_bind, Option.bind_some, ih fuel (by omega)]
    rfl

theorem readLiteral_spells {written text : List Char}
    (h : Spells '\'' false false marks written text) (rest : List Char) :
    readLiteral (written ++ '\'' :: rest) = some (text, rest) := by
  induction h with
  | nil => rfl
  | mark hlines => cases hlines
  | @char _ c written text _ hc hplain _ _ ih =>
    have hplain : isPlain c = true := hplain.elim id fun h => absurd h.1 Bool.false_ne_true
    rw [List.cons_append, readLiteral, if_pos hplain, ih]
    · rfl
    · exact hc
  | escape _ hescapes => cases hescapes

/-! ## Strings between triple marks -/

theorem span_marks (count : Nat) (hcs : cs.head? ≠ some quote) :
    (List.replicate count quote ++ cs).takeWhile (· == quote) = List.replicate count quote ∧
      (List.replicate count quote ++ cs).dropWhile (· == quote) = cs := by
  induction count with
  | zero =>
    cases cs with
    | nil => exact ⟨rfl, rfl⟩
    | cons c cs =>
      have hc : ¬ (c == quote) = true := by simpa using hcs
      exact ⟨List.takeWhile_cons_of_neg hc, List.dropWhile_cons_of_neg hc⟩
  | succ count ih =>
    rw [List.replicate_succ, List.cons_append, List.takeWhile_cons_of_pos (by simp),
      List.dropWhile_cons_of_pos (by simp), ih.1]
    exact ⟨rfl, ih.2⟩

/-- Marks in a row are read at once: they stand for themselves, or the last three close
the string. -/
theorem readLinesFrom_marks (count : Nat) (hcs : cs.head? ≠ some quote) :
    readLinesFrom quote escapes (fuel + 1) (List.replicate (count + 1) quote ++ cs) =
      if count + 1 < 3 then do
        let (more, rest) ← readLinesFrom quote escapes fuel cs
        return (List.replicate (count + 1) quote ++ more, rest)
      else if count + 1 ≤ 5 then some (List.replicate (count - 2) quote, cs)
      else none := by
  obtain ⟨htake, hdrop⟩ := span_marks (count + 1) hcs
  have hlength : (quote :: List.replicate count quote).length = count + 1 := by simp
  have hclosed : (quote :: List.replicate count quote).drop 3 = List.replicate (count - 2) quote := by
    rw [← List.replicate_succ, List.drop_replicate]
    congr 1
  rw [List.replicate_succ, List.cons_append] at htake hdrop ⊢
  rw [readLinesFrom, if_pos rfl, htake, hdrop]
  simp only [hlength, hclosed]

/-- The closing marks are read together with up to two that stand before them. -/
theorem readLinesFrom_close (hmarks : marks ≤ 2) (hrest : rest.head? ≠ some quote)
    (hfuel : 0 < fuel) :
    readLinesFrom quote escapes fuel (List.replicate marks quote ++ (List.replicate 3 quote ++ rest)) =
      some (List.replicate marks quote, rest) := by
  obtain ⟨fuel, rfl⟩ := Nat.exists_eq_add_one_of_ne_zero (show fuel ≠ 0 by omega)
  rw [← List.append_assoc, List.replicate_append_replicate, readLinesFrom_marks (marks + 2) hrest,
    if_neg (by omega), if_pos (by omega)]
  rfl

/-- Marks before a text that is read are read as themselves. -/
theorem readLinesFrom_before {text : List Char} {bound : Nat} (hmarks : marks ≤ 2)
    (hcs : cs.head? ≠ some quote)
    (h : ∀ fuel, bound < fuel → readLinesFrom quote escapes fuel cs = some (text, rest))
    (hfuel : marks + bound < fuel) :
    readLinesFrom quote escapes fuel (List.replicate marks quote ++ cs) =
      some (List.replicate marks quote ++ text, rest) := by
  cases marks with
  | zero => exact h fuel (by omega)
  | succ marks =>
    obtain ⟨fuel, rfl⟩ := Nat.exists_eq_add_one_of_ne_zero (show fuel ≠ 0 by omega)
    rw [readLinesFrom_marks marks hcs, if_pos (by omega), h fuel (by omega)]
    rfl

theorem dropLineBreak?_of_isPlain (h : isPlain c = true) (cs : List Char) :
    dropLineBreak? (c :: cs) = none := by
  unfold dropLineBreak?
  split
  · rename_i heq
    cases heq
    cases h
  · rename_i heq
    cases heq
    cases h
  · rfl

/-- A character that is no mark and begins no escape is read as itself. -/
theorem readLinesFrom_char (hc : c ≠ quote) (hplain : isPlain c = true ∨ c = '\n')
    (hslash : escapes = true → c ≠ '\\') (cs : List Char) :
    readLinesFrom quote escapes (fuel + 1) (c :: cs) = (do
      let (text, rest) ← readLinesFrom quote escapes fuel cs
      return (c :: text, rest)) := by
  have hescape : ¬ (decide (c = '\\') && escapes) = true := by
    rw [Bool.and_eq_true, decide_eq_true_eq]
    exact fun h => hslash h.2 h.1
  rw [readLinesFrom, if_neg hc, if_neg hescape]
  rcases hplain with hplain | rfl
  · rw [dropLineBreak?_of_isPlain hplain]
    exact if_pos hplain
  · rfl

/-- An escape is read as its character. -/
theorem readLinesFrom_escape {escape : List Char} (hquote : quote ≠ '\\')
    (hescapes : escapes = true) (h : IsEscape c escape) (cs : List Char) :
    readLinesFrom quote escapes (fuel + 1) ('\\' :: (escape ++ cs)) = (do
      let (text, rest) ← readLinesFrom quote escapes fuel cs
      return (c :: text, rest)) := by
  rw [readLinesFrom, if_neg hquote.symm, hescapes, h.stays, h.read]
  rfl

theorem readLinesFrom_spells {written text : List Char}
    (h : Spells quote escapes true marks written text) (hquote : quote ≠ '\\')
    (hrest : rest.head? ≠ some quote) (hfuel : marks + written.length < fuel) :
    readLinesFrom quote escapes fuel
        (List.replicate marks quote ++ (written ++ (List.replicate 3 quote ++ rest))) =
      some (List.replicate marks quote ++ text, rest) := by
  induction h generalizing fuel with
  | nil hmarks =>
    rw [List.append_nil]
    exact readLinesFrom_close hmarks hrest (by omega)
  | @mark marks written text _ _ ih =>
    rw [List.length_cons] at hfuel
    have hmore := ih (show marks + 1 + written.length < fuel by omega)
    rw [List.replicate_succ', List.append_assoc, List.append_assoc] at hmore
    exact hmore
  | @char marks c written text hmarks hc hplain hslash _ ih =>
    refine readLinesFrom_before hmarks (by simpa using hc) (fun fuel hfuel => ?_)
      (show marks + (c :: written).length < fuel from hfuel)
    rw [List.length_cons] at hfuel
    obtain ⟨fuel, rfl⟩ := Nat.exists_eq_add_one_of_ne_zero (show fuel ≠ 0 by omega)
    have hmore := ih (show 0 + written.length < fuel by omega)
    rw [List.replicate_zero, List.nil_append, List.nil_append] at hmore
    rw [List.cons_append, readLinesFrom_char hc (hplain.imp_right And.right) hslash, hmore]
    rfl
  | @escape marks c escape written text hmarks hescapes hescape _ ih =>
    refine readLinesFrom_before hmarks (by simpa using hquote.symm) (fun fuel hfuel => ?_)
      (show marks + ('\\' :: (escape ++ written)).length < fuel from hfuel)
    rw [List.length_cons, List.length_append] at hfuel
    obtain ⟨fuel, rfl⟩ := Nat.exists_eq_add_one_of_ne_zero (show fuel ≠ 0 by omega)
    have hmore := ih (show 0 + written.length < fuel by omega)
    rw [List.replicate_zero, List.nil_append, List.nil_append] at hmore
    rw [List.cons_append, List.append_assoc, readLinesFrom_escape hquote hescapes hescape, hmore]
    rfl

/-- Behind the opening marks a line break does not count, and a text that has none begins
with none. -/
theorem readLines_spells {written text : List Char} (h : Spells quote escapes true 0 written text)
    (hquote : quote ≠ '\\' ∧ isPlain quote = true) (hrest : rest.head? ≠ some quote) :
    readLines quote escapes ((if text.contains '\n' then ['\n'] else []) ++
      (written ++ (List.replicate 3 quote ++ rest))) = some (text, rest) := by
  have hdrop : (dropLineBreak? ((if text.contains '\n' then ['\n'] else []) ++
      (written ++ (List.replicate 3 quote ++ rest)))).getD ((if text.contains '\n' then ['\n'] else
      []) ++ (written ++ (List.replicate 3 quote ++ rest))) =
        written ++ (List.replicate 3 quote ++ rest) := by
    split
    · rfl
    · rename_i hbroken
      have hnone : dropLineBreak? (written ++ (List.replicate 3 quote ++ rest)) = none := by
        cases h with
        | nil => exact dropLineBreak?_of_isPlain hquote.2 _
        | mark => exact dropLineBreak?_of_isPlain hquote.2 _
        | @char _ c _ _ _ _ hplain =>
          refine dropLineBreak?_of_isPlain (hplain.elim id fun hfeed => ?_) _
          rw [hfeed.2] at hbroken
          exact absurd (by simp) hbroken
        | escape => exact dropLineBreak?_of_isPlain rfl _
      rw [List.nil_append, hnone]
      rfl
  have hread := readLinesFrom_spells h hquote.1 hrest
    (show 0 + written.length < (written ++ (List.replicate 3 quote ++ rest)).length + 1 by
      rw [List.length_append]
      omega)
  simp only [readLines, hdrop]
  exact hread

/-! ## Strings of any style -/

theorem holds_ofText (cs : List Char) : (StringStyle.ofText cs).holds cs = true := by
  unfold StringStyle.ofText
  cases hfind : [StringStyle.plain, .literal, .plainLines, .literalLines].find?
      (StringStyle.holds cs) with
  | none => rfl
  | some style => exact List.find?_some hfind

theorem readString_basic (h : ∀ more, cs ≠ '"' :: '"' :: more) :
    readString ('"' :: cs) = (readBasicFrom (cs.length + 1) cs).map fun (text, rest) =>
      (String.ofList text, rest) := by
  unfold readString
  split
  · rename_i heq
    cases heq
    exact absurd rfl (h _)
  · rename_i heq
    cases heq
  · rename_i heq
    cases heq
    cases readBasicFrom (cs.length + 1) cs <;> rfl
  · rename_i heq
    cases heq
  · rename_i hbasic _
    exact absurd rfl (hbasic _)

theorem readString_literal (h : ∀ more, cs ≠ '\'' :: '\'' :: more) :
    readString ('\'' :: cs) = (readLiteral cs).map fun (text, rest) =>
      (String.ofList text, rest) := by
  unfold readString
  split
  · rename_i heq
    cases heq
  · rename_i heq
    cases heq
    exact absurd rfl (h _)
  · rename_i heq
    cases heq
  · rename_i heq
    cases heq
    cases readLiteral cs <;> rfl
  · rename_i hliteral
    exact absurd rfl (hliteral _)

/-- What is written on one line does not begin with a mark. -/
theorem Spells.ne_marks {written text : List Char} (h : Spells quote escapes false 0 written text)
    (hquote : quote ≠ '\\') (hrest : rest.head? ≠ some quote) (more : List Char) :
    written ++ quote :: rest ≠ quote :: quote :: more := by
  cases h with
  | nil =>
    intro heq
    cases heq
    exact hrest rfl
  | mark hlines => cases hlines
  | char _ hc => exact fun heq => hc (List.cons.inj heq).1
  | escape => exact fun heq => hquote (List.cons.inj heq).1.symm

section Delimited

variable {text written : List Char}

theorem readString_basic_line (h : Spells '"' true false 0 written text)
    (hrest : rest.head? ≠ some '"') (startsLine : Bool) : readString (delimit '"' false startsLine written ++ rest) =
      some (String.ofList text, rest) := by
  have hdelimit : delimit '"' false startsLine written ++ rest =
      '"' :: (written ++ '"' :: rest) := by simp [delimit]
  have hlength : written.length < (written ++ '"' :: rest).length + 1 := by
    rw [List.length_append]
    omega
  rw [hdelimit, readString_basic (h.ne_marks (by decide) hrest),
    readBasicFrom_spells h hlength rest]
  rfl

theorem readString_literal_line (h : Spells '\'' false false 0 written text)
    (hrest : rest.head? ≠ some '\'') (startsLine : Bool) : readString (delimit '\'' false startsLine written ++ rest) =
      some (String.ofList text, rest) := by
  have hdelimit : delimit '\'' false startsLine written ++ rest =
      '\'' :: (written ++ '\'' :: rest) := by simp [delimit]
  rw [hdelimit, readString_literal (h.ne_marks (by decide) hrest), readLiteral_spells h rest]
  rfl

theorem delimit_lines (quote : Char) (written : List Char) :
    delimit quote true (text.contains '\n') written ++ rest =
      quote :: quote :: quote :: ((if text.contains '\n' then ['\n'] else []) ++
        (written ++ (List.replicate 3 quote ++ rest))) := by
  simp [delimit, List.replicate_succ]

theorem readString_basic_lines (h : Spells '"' true true 0 written text)
    (hrest : rest.head? ≠ some '"') :
    readString (delimit '"' true (text.contains '\n') written ++ rest) =
      some (String.ofList text, rest) := by
  rw [delimit_lines, readString, readLines_spells h ⟨by decide, rfl⟩ hrest]
  rfl

theorem readString_literal_lines (h : Spells '\'' false true 0 written text)
    (hrest : rest.head? ≠ some '\'') :
    readString (delimit '\'' true (text.contains '\n') written ++ rest) =
      some (String.ofList text, rest) := by
  rw [delimit_lines, readString, readLines_spells h ⟨by decide, rfl⟩ hrest]
  rfl

end Delimited

theorem isPlain_of_hasControl (h : hasControl cs = false) :
    ∀ c ∈ cs, isPlain c = true ∨ c = '\n' := by
  intro c hc
  have hplain := List.any_eq_false.mp h c hc
  by_cases hfeed : c = '\n'
  · exact .inr hfeed
  · exact .inl (by simpa [hfeed] using hplain)

theorem forall_of_holds_literal (h : StringStyle.holds cs .literal = true) :
    ∀ c ∈ cs, c ≠ '\'' ∧ isPlain c = true := by
  simp only [StringStyle.holds, Bool.not_eq_true', Bool.or_eq_false_iff] at h
  intro c hc
  refine ⟨fun hquote => ?_, (isPlain_of_hasControl h.1.1 c hc).resolve_right fun hfeed => ?_⟩
  · rw [hquote] at hc
    exact absurd (List.contains_iff_mem.mpr hc) (by rw [h.1.2]; decide)
  · rw [hfeed] at hc
    exact absurd (List.contains_iff_mem.mpr hc) (by rw [h.2]; decide)

/-- **Strings.**  A text is read from the string that it has been written as, at the end of a
line. -/
theorem readString_printString (text : String) (rest : List Char) :
    readString (printString text ++ '\n' :: rest) = some (text, '\n' :: rest) := by
  have hfeed : ∀ quote : Char, quote ≠ '\n' → ('\n' :: rest).head? ≠ some quote := fun quote h => by
    simpa using h.symm
  have hline := readString_basic_line (spells_escapeFrom false (Nat.zero_le 0) text.toList)
    (hfeed '"' (by decide))
  have hlines := readString_basic_lines (spells_escapeFrom true (Nat.zero_le 2) text.toList)
    (hfeed '"' (by decide))
  have hholds := holds_ofText text.toList
  rw [String.ofList_toList] at hline hlines
  cases hstyle : StringStyle.ofText text.toList with
  | plain =>
    simp only [printString, hstyle]
    exact hline _
  | literal =>
    rw [hstyle] at hholds
    have hread := readString_literal_line (spells_line (forall_of_holds_literal hholds))
      (hfeed '\'' (by decide)) (text.toList.contains '\n')
    simp only [printString, hstyle, hread, String.ofList_toList]
  | plainLines =>
    simp only [printString, hstyle]
    exact hlines
  | literalLines =>
    rw [hstyle] at hholds
    simp only [StringStyle.holds, Bool.not_eq_true', Bool.or_eq_false_iff] at hholds
    have hspells : Spells '\'' false true 0 text.toList text.toList :=
      spells_lines (isPlain_of_hasControl hholds.1) hholds.2
    have hread := readString_literal_lines hspells (hfeed '\'' (by decide))
    simp only [printString, hstyle, hread, String.ofList_toList]
  | escaped =>
    simp only [printString, hstyle]
    cases hbroken : text.toList.contains '\n' with
    | false => exact hline _
    | true =>
      rw [hbroken] at hlines
      exact hlines

end Toml
end EntitySdl
