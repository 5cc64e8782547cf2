import EntitySdl.Json.Printer
import EntitySdl.Json.Reader
import EntitySdl.Proofs.Success

/-! # JSON that is written is read back

The reader takes off the front of a text what the printer has written there, and
leaves what stands behind.  Numbers are an exception, since they end only where
the text behind them says so; the data here hold none.
-/
namespace EntitySdl

/-- A datum without numbers, in which lists and records are nested up to a depth. -/
inductive Datum.Fits : Nat → Datum → Prop
  | null (depth : Nat) : Fits depth .null
  | boolean (depth : Nat) (value : Bool) : Fits depth (.boolean value)
  | text (depth : Nat) (value : String) : Fits depth (.text value)
  | list {depth : Nat} {items : List Datum} (h : ∀ item ∈ items, Fits depth item) :
    Fits (depth + 1) (.list items)
  | record {depth : Nat} {entries : List (String × Datum)}
    (h : ∀ entry ∈ entries, Fits depth entry.2) : Fits (depth + 1) (.record entries)

theorem Datum.Fits.mono {depth deeper : Nat} {datum : Datum} (h : datum.Fits depth)
    (hle : depth ≤ deeper) : datum.Fits deeper := by
  induction h generalizing deeper with
  | null => exact .null _
  | boolean _ value => exact .boolean _ value
  | text _ value => exact .text _ value
  | list _ ih =>
    obtain ⟨deeper, rfl⟩ := Nat.exists_eq_add_one_of_ne_zero (show deeper ≠ 0 by omega)
    exact .list fun item hitem => ih item hitem (by omega)
  | record _ ih =>
    obtain ⟨deeper, rfl⟩ := Nat.exists_eq_add_one_of_ne_zero (show deeper ≠ 0 by omega)
    exact .record fun entry hentry => ih entry hentry (by omega)

namespace Json

open Text

/-! ## Strings -/

/-- The digits of a control character in an escape. -/
def paddedDigits (code : Nat) : List Char :=
  List.replicate (4 - (hexDigits code).length) '0' ++ hexDigits code

theorem paddedDigits_spec : ∀ code < 0x20, (paddedDigits code).length = 4 ∧
    (paddedDigits code).all isAsciiHexDigit ∧ digitsValue 16 (paddedDigits code) = code := by
  decide

theorem readHex_paddedDigits {code : Nat} (h : code < 0x20) (rest : List Char) :
    readHex (paddedDigits code ++ rest) = .ok (code, rest) := by
  obtain ⟨hlength, hdigits, hvalue⟩ := paddedDigits_spec code h
  obtain ⟨a, b, c, d, hpadded⟩ : ∃ a b c d, paddedDigits code = [a, b, c, d] :=
    List.length_eq_four.mp hlength
  rw [hpadded] at hdigits hvalue ⊢
  simp only [List.cons_append, List.nil_append, readHex, hdigits, if_true, hvalue]

theorem readEscape_control {code : Nat} (h : code < 0x20) (rest : List Char) :
    readEscape ('u' :: paddedDigits code ++ rest) = .ok (Char.ofNat code, rest) := by
  have hlow : ¬ (0xDC00 ≤ code ∧ code ≤ 0xDFFF) := by omega
  have hhigh : ¬ (0xD800 ≤ code ∧ code ≤ 0xDBFF) := by omega
  change (readHex (paddedDigits code ++ rest) >>= _) = _
  rw [readHex_paddedDigits h]
  simp only [bind, Except.bind, hlow, hhigh, if_false]
  rfl

/-- A character is read as it has been written. -/
theorem readStringFrom_escapeChar (c : Char) (fuel : Nat) (rest : List Char) :
    readStringFrom (fuel + 1) (escapeChar c ++ rest) = (do
      let (text, rest) ← readStringFrom fuel rest
      return (c :: text, rest)) := by
  unfold escapeChar
  split
  -- all cases but the last are characters with an escape of their own
  case h_8 hquote hbackslash _ _ _ _ _ =>
    split
    · rename_i hcontrol
      have hescape := readEscape_control hcontrol rest
      rw [Char.ofNat_toNat] at hescape
      have htext : ['\\', 'u'] ++ List.replicate (4 - (hexDigits c.toNat).length) '0' ++
          hexDigits c.toNat ++ rest = '\\' :: ('u' :: paddedDigits c.toNat ++ rest) := by
        simp only [paddedDigits, List.cons_append, List.nil_append, List.append_assoc]
      change readStringFrom (fuel + 1) (['\\', 'u'] ++ _ ++ hexDigits c.toNat ++ rest) = _
      rw [htext, readStringFrom, if_neg (by decide), if_pos rfl, hescape]
      rfl
    · rename_i hplain
      rw [List.singleton_append, readStringFrom, if_neg hquote, if_neg hbackslash, if_neg hplain]
  all_goals rfl

theorem readStringFrom_text (text rest : List Char) {fuel : Nat} (hfuel : text.length < fuel) :
    readStringFrom fuel (text.flatMap escapeChar ++ '"' :: rest) = .ok (text, rest) := by
  induction text generalizing fuel with
  | nil =>
    obtain ⟨fuel, rfl⟩ := Nat.exists_eq_add_one_of_ne_zero (show fuel ≠ 0 by omega)
    rfl
  | cons c text ih =>
    obtain ⟨fuel, rfl⟩ := Nat.exists_eq_add_one_of_ne_zero (show fuel ≠ 0 by omega)
    rw [List.length_cons] at hfuel
    rw [List.flatMap_cons, List.append_assoc, readStringFrom_escapeChar, ih (by omega)]
    rfl

theorem length_le_flatMap_escapeChar (text : List Char) :
    text.length ≤ (text.flatMap escapeChar).length := by
  induction text with
  | nil => exact Nat.le_refl 0
  | cons c text ih =>
    have hpos : 0 < (escapeChar c).length := by
      unfold escapeChar
      split
      case h_8 => split <;> simp
      all_goals decide
    rw [List.flatMap_cons, List.length_append, List.length_cons]
    omega

/-- A string is read as it has been written. -/
theorem readString_text (text : String) (rest : List Char) :
    readString (text.toList.flatMap escapeChar ++ '"' :: rest) = .ok (text, rest) := by
  have hlength := length_le_flatMap_escapeChar text.toList
  unfold readString
  rw [readStringFrom_text text.toList rest (by
    simp only [List.length_append, List.length_cons]
    omega)]
  change Except.ok (String.ofList text.toList, rest) = _
  rw [String.ofList_toList]

theorem printString_append (text : String) (rest : List Char) :
    printString text ++ rest = '"' :: (text.toList.flatMap escapeChar ++ '"' :: rest) := by
  simp only [printString, List.cons_append, List.append_assoc, List.nil_append]

theorem readKey_printString (text : String) (rest : List Char) :
    readKey (printString text ++ rest) = .ok (text, rest) := by
  rw [printString_append]
  exact readString_text text rest

/-! ## Lists and records -/

theorem skipSpace_cons {c : Char} (h : isSpace c = false) (cs : List Char) :
    skipSpace (c :: cs) = c :: cs :=
  List.dropWhile_cons_of_neg (by simp [h])

theorem skipSpace_lineBreak (depth : Nat) (cs : List Char) :
    skipSpace (lineBreak depth ++ cs) = skipSpace cs := by
  refine List.dropWhile_append_of_pos ?_
  intro c hc
  rcases List.mem_cons.mp hc with rfl | hc
  · rfl
  · rw [List.eq_of_mem_replicate hc]
    rfl

/-- What stands in brackets behind the first element. -/
def moreMembers (closing : Char) (depth : Nat) : List (List Char) → List Char
  | [] => lineBreak depth ++ [closing]
  | element :: elements =>
    ',' :: (lineBreak (depth + 1) ++ (element ++ moreMembers closing depth elements))

theorem bracket_cons (opening closing : Char) (depth : Nat) (element : List Char)
    (elements : List (List Char)) : bracket opening closing depth (element :: elements) =
      opening :: (lineBreak (depth + 1) ++ (element ++ moreMembers closing depth elements)) := by
  have hlines : [','].intercalate
      ((element :: elements).map fun element => lineBreak (depth + 1) ++ element) ++
        (lineBreak depth ++ [closing]) =
          lineBreak (depth + 1) ++ (element ++ moreMembers closing depth elements) := by
    induction elements generalizing element with
    | nil => simp only [List.map_cons, List.map_nil, List.intercalate_singleton, moreMembers,
        List.append_assoc]
    | cons next elements ih =>
      rw [List.map_cons, List.map_cons, List.intercalate_cons_cons, ← List.map_cons,
        List.append_assoc, ih]
      simp only [moreMembers, List.append_assoc, List.singleton_append]
  rw [← hlines]
  simp only [bracket, List.cons_append, List.append_assoc]

theorem exists_bracket (opening closing : Char) (depth : Nat) (elements : List (List Char)) :
    ∃ more, bracket opening closing depth elements = opening :: more := by
  cases elements with
  | nil => exact ⟨_, rfl⟩
  | cons element elements => exact ⟨_, bracket_cons opening closing depth element elements⟩

/-- What the first character of an element must be like. -/
def StartsMember (close : Char) (text : List Char) : Prop :=
  ∃ c more, text = c :: more ∧ isSpace c = false ∧ c ≠ close

/-- What stands behind an element. -/
def EndsMember (rest : List Char) : Prop := ∃ c more, rest = c :: more ∧ (c = ',' ∨ c = '\n')

theorem endsMember_moreMembers (closing : Char) (depth : Nat) (elements : List (List Char))
    (rest : List Char) : EndsMember (moreMembers closing depth elements ++ rest) := by
  cases elements with
  | nil => exact ⟨'\n', _, rfl, .inr rfl⟩
  | cons => exact ⟨',', _, rfl, .inl rfl⟩

theorem length_le_moreMembers (closing : Char) (depth : Nat) (elements : List (List Char)) :
    elements.length ≤ (moreMembers closing depth elements).length := by
  induction elements with
  | nil => exact Nat.zero_le _
  | cons element elements ih =>
    simp only [moreMembers, List.length_cons, List.length_append]
    omega

/-- The elements of a list or a record are read one after the other, from one state to
the next. -/
inductive Steps {σ : Type} (close : Char) (member : σ → Reader σ) :
    σ → List (List Char) → σ → Prop
  | nil (s : σ) : Steps close member s [] s
  | cons {s s' t : σ} {text : List Char} {texts : List (List Char)}
    (hstart : StartsMember close text)
    (hread : ∀ rest, EndsMember rest → member s (text ++ rest) = .ok (s', rest))
    (h : Steps close member s' texts t) : Steps close member s (text :: texts) t

variable {σ : Type} {close : Char} {member : σ → Reader σ} {s t : σ} {texts : List (List Char)}

theorem readMembersFrom_moreMembers (h : Steps close member s texts t)
    (hclose : isSpace close = false) (hcomma : ',' ≠ close) (depth : Nat) (rest : List Char)
    {fuel : Nat} (hfuel : texts.length < fuel) :
    readMembersFrom close member fuel false s (moreMembers close depth texts ++ rest) =
      .ok (t, rest) := by
  induction h generalizing fuel with
  | nil s =>
    obtain ⟨fuel, rfl⟩ := Nat.exists_eq_add_one_of_ne_zero (show fuel ≠ 0 by omega)
    rw [moreMembers, List.append_assoc, readMembersFrom, skipSpace_lineBreak, List.singleton_append,
      skipSpace_cons hclose]
    exact if_pos rfl
  | @cons s s' t text texts hstart hread h ih =>
    obtain ⟨fuel, rfl⟩ := Nat.exists_eq_add_one_of_ne_zero (show fuel ≠ 0 by omega)
    obtain ⟨c, more, rfl, hspace, hne⟩ := hstart
    rw [List.length_cons] at hfuel
    have hmember := hread _ (endsMember_moreMembers close depth texts rest)
    have hrest := ih (by omega : texts.length < fuel)
    have hskip : skipSpace (lineBreak (depth + 1) ++ (c :: more ++
        moreMembers close depth texts) ++ rest) =
          c :: (more ++ (moreMembers close depth texts ++ rest)) := by
      rw [List.append_assoc, skipSpace_lineBreak, List.append_assoc, List.cons_append,
        skipSpace_cons hspace]
    rw [moreMembers, List.cons_append, readMembersFrom, skipSpace_cons (by decide)]
    simp only [hcomma, hskip, hne, if_true, if_false, Bool.false_eq_true]
    rw [← List.cons_append, hmember]
    exact hrest

/-- The elements between brackets are read. -/
theorem readMembers_bracket (h : Steps close member s texts t) (hclose : isSpace close = false)
    (hcomma : ',' ≠ close) (opening : Char) (depth : Nat) (rest : List Char) :
    ∃ cs, bracket opening close depth texts ++ rest = opening :: cs ∧
      readMembers close member s cs = .ok (t, rest) := by
  cases h with
  | nil =>
    refine ⟨close :: rest, rfl, ?_⟩
    rw [readMembers, readMembersFrom, skipSpace_cons hclose]
    exact if_pos rfl
  | @cons _ s' _ text texts hstart hread h =>
    obtain ⟨c, more, rfl, hspace, hne⟩ := hstart
    refine ⟨lineBreak (depth + 1) ++ (c :: (more ++ (moreMembers close depth texts ++ rest))),
      ?_, ?_⟩
    · simp only [bracket_cons, List.cons_append, List.append_assoc]
    · have hlength := length_le_moreMembers close depth texts
      rw [readMembers, readMembersFrom, skipSpace_lineBreak, skipSpace_cons hspace]
      simp only [hne, if_true, if_false]
      rw [← List.cons_append, hread _ (endsMember_moreMembers close depth texts rest)]
      refine readMembersFrom_moreMembers h hclose hcomma depth rest ?_
      simp only [List.length_append, List.length_cons]
      omega

/-- Elements that are added to a list are all in it afterwards. -/
theorem steps_append {α : Type} {close : Char} {member : List α → Reader (List α)}
    {text : α → List Char} {elements : List α}
    (hstart : ∀ x ∈ elements, StartsMember close (text x))
    (hread : ∀ x ∈ elements, ∀ before rest,
      member before (text x ++ rest) = .ok (before ++ [x], rest)) (before : List α) :
    Steps close member before (elements.map text) (before ++ elements) := by
  induction elements generalizing before with
  | nil =>
    rw [List.append_nil]
    exact .nil before
  | cons x elements ih =>
    rw [List.forall_mem_cons] at hstart hread
    rw [← List.singleton_append, ← List.append_assoc]
    exact .cons hstart.1 (fun rest _ => hread.1 before rest) (ih hstart.2 hread.2 (before ++ [x]))

/-- The elements between brackets are collected by any reader that adds them one by one. -/
theorem readMembers_append {α : Type} {close : Char} {text : α → List Char} {elements : List α}
    (hstart : ∀ x ∈ elements, StartsMember close (text x)) (hclose : isSpace close = false)
    (hcomma : ',' ≠ close) (opening : Char) (depth : Nat) (rest : List Char) :
    ∃ cs, bracket opening close depth (elements.map text) ++ rest = opening :: cs ∧
      ∀ member : List α → Reader (List α), (∀ x ∈ elements, ∀ before rest,
        member before (text x ++ rest) = .ok (before ++ [x], rest)) →
          readMembers close member [] cs = .ok (elements, rest) := by
  obtain ⟨more, hmore⟩ := exists_bracket opening close depth (elements.map text)
  refine ⟨more ++ rest, by rw [hmore, List.cons_append], fun member hread => ?_⟩
  obtain ⟨cs, hcs, hmembers⟩ :=
    readMembers_bracket (steps_append hstart hread []) hclose hcomma opening depth rest
  rw [hmore, List.cons_append, List.cons_inj_right] at hcs
  rw [hcs]
  exact hmembers

/-! ## Data -/

theorem printItems_eq (depth : Nat) (items : List Datum) :
    printItems depth items = items.map (printAt (depth + 1)) := by
  induction items with
  | nil => rfl
  | cons item items ih => rw [printItems, ih, List.map_cons]

/-- An entry of a record at a depth. -/
def printEntry (depth : Nat) (entry : String × Datum) : List Char :=
  printString entry.1 ++ [':', ' '] ++ printAt depth entry.2

theorem printEntries_eq (depth : Nat) (entries : List (String × Datum)) :
    printEntries depth entries = entries.map (printEntry (depth + 1)) := by
  induction entries with
  | nil => rfl
  | cons entry entries ih => rw [printEntries, ih, List.map_cons, printEntry]

/-- Data without numbers begin with none of the characters that stand around them. -/
theorem exists_printAt {fits : Nat} {datum : Datum} (h : datum.Fits fits) (depth : Nat) :
    ∃ c more, printAt depth datum = c :: more ∧ c ∈ ['n', 't', 'f', '"', '[', '\x7b'] := by
  cases h with
  | null => exact ⟨'n', _, rfl, by decide⟩
  | boolean _ value =>
    cases value
    · exact ⟨'f', _, rfl, by decide⟩
    · exact ⟨'t', _, rfl, by decide⟩
  | text _ value => exact ⟨'"', _, rfl, by decide⟩
  | list =>
    obtain ⟨more, hmore⟩ := exists_bracket '[' ']' depth (printItems depth _)
    exact ⟨'[', more, hmore, by decide⟩
  | record =>
    obtain ⟨more, hmore⟩ := exists_bracket '\x7b' '\x7d' depth (printEntries depth _)
    exact ⟨'\x7b', more, hmore, by decide⟩

theorem startsMember_printAt {fits : Nat} {datum : Datum} (h : datum.Fits fits) (depth : Nat) :
    StartsMember ']' (printAt depth datum) := by
  obtain ⟨c, more, heq, hc⟩ := exists_printAt h depth
  have hstarts : ∀ c ∈ ['n', 't', 'f', '"', '[', '\x7b'], isSpace c = false ∧ c ≠ ']' := by decide
  exact ⟨c, more, heq, hstarts c hc⟩

theorem startsMember_printEntry (depth : Nat) (entry : String × Datum) :
    StartsMember '\x7d' (printEntry depth entry) :=
  ⟨'"', _, rfl, by decide⟩

/-- The colon and the space behind a key are passed over. -/
theorem readColon_printAt {fits : Nat} {datum : Datum} (h : datum.Fits fits) (depth : Nat)
    (rest : List Char) : readColon ([':', ' '] ++ printAt depth datum ++ rest) =
      .ok ((), printAt depth datum ++ rest) := by
  obtain ⟨c, more, heq, hc⟩ := exists_printAt h depth
  have hspace : ∀ c ∈ ['n', 't', 'f', '"', '[', '\x7b'], isSpace c = false := by decide
  rw [heq]
  have hskip : skipSpace (' ' :: c :: (more ++ rest)) = c :: (more ++ rest) := by
    rw [skipSpace, List.dropWhile_cons_of_pos (by decide)]
    exact skipSpace_cons (hspace c hc) (more ++ rest)
  rw [List.append_assoc, List.cons_append, List.cons_append, List.nil_append, List.cons_append,
    readColon, skipSpace_cons (by decide)]
  simp only [hskip]

/-- **JSON that is written is read back.**  What is left to read is what stands behind. -/
theorem readValue_printAt {fits : Nat} {datum : Datum} (h : datum.Fits fits) (depth : Nat)
    (rest : List Char) : readValue fits (printAt depth datum ++ rest) = .ok (datum, rest) := by
  induction h generalizing depth rest with
  | null fits => cases fits <;> rfl
  | boolean fits value => cases fits <;> cases value <;> rfl
  | text fits value =>
    have hread : readScalar (printString value ++ rest) = .ok (.text value, rest) := by
      rw [printString_append]
      change (readString (value.toList.flatMap escapeChar ++ '"' :: rest) >>= _) = _
      rw [readString_text]
      rfl
    rw [← hread]
    cases fits <;> rfl
  | @list fits items h ih =>
    obtain ⟨cs, hcs, hread⟩ := readMembers_append
      (fun item hitem => startsMember_printAt (h item hitem) (depth + 1)) (by decide) (by decide)
      '[' depth rest
    rw [printAt, printItems_eq, hcs, readValue.eq_1 _ _ cs (skipSpace_cons (by decide) cs), hread]
    · rfl
    · intro item hitem before rest
      rw [ih item hitem]
      rfl
  | @record fits entries h ih =>
    obtain ⟨cs, hcs, hread⟩ := readMembers_append
      (fun entry _ => startsMember_printEntry (depth + 1) entry) (by decide) (by decide)
      '\x7b' depth rest
    rw [printAt, printEntries_eq, hcs, readValue.eq_2 _ _ cs (skipSpace_cons (by decide) cs), hread]
    · rfl
    · intro entry hentry before rest
      have hvalue := ih entry hentry (depth + 1) rest
      have hcolon := readColon_printAt (h entry hentry) (depth + 1) rest
      have hkey := readKey_printString entry.1
        ([':', ' '] ++ printAt (depth + 1) entry.2 ++ rest)
      rw [printEntry, List.append_assoc, List.append_assoc, ← List.append_assoc [':', ' ']]
      rw [hkey]
      simp only [bind, Except.bind, hcolon, hvalue]
      rfl

end Json
end EntitySdl
