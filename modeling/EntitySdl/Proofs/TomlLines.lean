import EntitySdl.Toml.Reader
import EntitySdl.Proofs.TomlStrings

/-! # TOML lines that are written are read back

A document is a sequence of lines, and each line takes the draft of the document one
step further.  What a line does depends on nothing behind it, so that the lines of a text
may be read in one go or in parts.
-/
namespace EntitySdl
namespace Toml

open Text

variable {key : String} {path : List String} {datum : Datum} {cs rest : List Char} {c : Char}
  {fuel : Nat} {draft next last : Draft}

theorem skipSpace_cons (h : isSpace c = false) (cs : List Char) : skipSpace (c :: cs) = c :: cs :=
  List.dropWhile_cons_of_neg (by simp [h])

/-! ## Values -/

/-- A datum is read from the value that it has been written as, at the end of a line. -/
structure IsReadable (datum : Datum) : Prop where
  /-- The value is the datum. -/
  read : ∀ rest, readValue maxDepth (printValue datum ++ '\n' :: rest) = some (datum, '\n' :: rest)
  /-- No blank stands before it. -/
  starts : ∀ rest, skipSpace (printValue datum ++ rest) = printValue datum ++ rest

theorem printString_cases (text : String) :
    (∃ more, printString text = '"' :: more) ∨ ∃ more, printString text = '\'' :: more := by
  have hdelimit : ∀ quote lines startsLine written,
      ∃ more, delimit quote lines startsLine written = quote :: more := by
    intro quote lines startsLine written
    cases lines with
    | false => exact ⟨_, rfl⟩
    | true => exact ⟨_, rfl⟩
  cases hstyle : StringStyle.ofText text.toList <;> simp only [printString, hstyle]
  case literal | literalLines => exact .inr (hdelimit _ _ _ _)
  all_goals exact .inl (hdelimit _ _ _ _)

theorem isReadable_text (text : String) : IsReadable (.text text) where
  read rest := by
    have hread := readString_printString text rest
    rw [printValue]
    rcases printString_cases text with ⟨more, hmore⟩ | ⟨more, hmore⟩
    · rw [hmore, List.cons_append] at hread ⊢
      exact congrArg (Option.map fun read => (Datum.text read.1, read.2)) hread
    · rw [hmore, List.cons_append] at hread ⊢
      exact congrArg (Option.map fun read => (Datum.text read.1, read.2)) hread
  starts rest := by
    rw [printValue]
    rcases printString_cases text with ⟨more, hmore⟩ | ⟨more, hmore⟩
    · rw [hmore]
      exact skipSpace_cons rfl _
    · rw [hmore]
      exact skipSpace_cons rfl _

theorem isReadable_boolean (value : Bool) : IsReadable (.boolean value) := by
  cases value with
  | false => exact ⟨fun _ => rfl, fun _ => rfl⟩
  | true => exact ⟨fun _ => rfl, fun _ => rfl⟩

/-- A digit at the end of a line is no field of a date or a time. -/
theorem readField_one {count low high : Nat} (hcount : 2 ≤ count) (rest : List Char) :
    readField count low high ('1' :: '\n' :: rest) = none := by
  obtain ⟨count, rfl⟩ := Nat.exists_eq_add_of_le' hcount
  have hdigits : (('1' :: '\n' :: rest).take (count + 2)).all isAsciiDigit = false := rfl
  simp only [readField, hdigits, Bool.and_false, Bool.false_and, Bool.false_eq_true, if_false]

theorem readNumber_one (rest : List Char) :
    readNumber ('1' :: '\n' :: rest) = some (.integer 1, '\n' :: rest) := by
  have hmoment : readMoment ('1' :: '\n' :: rest) = none := by
    rw [readMoment, readDate, readTime, readField_one (by decide), readField_one (by decide)]
    rfl
  rw [readNumber, hmoment]
  rfl

theorem isReadable_one : IsReadable (.integer 1) where
  read := readNumber_one
  starts _ := rfl

theorem isReadable_empty : IsReadable (.list []) := ⟨fun _ => rfl, fun _ => rfl⟩

/-! ## Keys -/

/-- A key that needs no quotation marks. -/
def IsBareKey (key : String) : Prop := key.isEmpty = false ∧ key.toList.all isBare = true

/-- Whether a key needs quotation marks is decided by its characters. -/
instance (key : String) : Decidable (IsBareKey key) := inferInstanceAs (Decidable (_ ∧ _))

theorem IsBareKey.printKey (h : IsBareKey key) : printKey key = key.toList := by
  rw [Toml.printKey, h.1, h.2]
  rfl

theorem IsBareKey.exists_cons (h : IsBareKey key) :
    ∃ c more, key.toList = c :: more ∧ isBare c = true := by
  cases hkey : key.toList with
  | nil =>
    have hempty := h.1
    rw [String.toList_eq_nil_iff.mp hkey] at hempty
    cases hempty
  | cons c more => exact ⟨c, more, rfl, List.all_eq_true.mp h.2 c (by rw [hkey]; simp)⟩

theorem ne_of_isBare {d : Char} (h : isBare c = true) (hd : isBare d = false) : c ≠ d := by
  rintro rfl
  rw [h] at hd
  cases hd

theorem isSpace_of_isBare (h : isBare c = true) : isSpace c = false := by
  rw [isSpace, beq_eq_false_iff_ne.mpr (ne_of_isBare h (by decide)),
    beq_eq_false_iff_ne.mpr (ne_of_isBare h (by decide))]
  rfl

theorem readSimpleKey_bare (h : IsBareKey key) (hcs : ∀ c ∈ cs.head?, isBare c = false) :
    readSimpleKey (key.toList ++ cs) = some (key, cs) := by
  have hspan : (key.toList ++ cs).takeWhile isBare = key.toList ∧
      (key.toList ++ cs).dropWhile isBare = cs := by
    rw [List.takeWhile_append_of_pos (List.all_eq_true.mp h.2),
      List.dropWhile_append_of_pos (List.all_eq_true.mp h.2)]
    cases cs with
    | nil => simp
    | cons c cs =>
      have hc : ¬ isBare c = true := by simpa using hcs
      simp [hc]
  obtain ⟨c, more, hkey, hbare⟩ := h.exists_cons
  have hne : key.toList.isEmpty = false := by rw [hkey]; rfl
  have hquote := ne_of_isBare hbare (show isBare '"' = false by decide)
  have hmark := ne_of_isBare hbare (show isBare '\'' = false by decide)
  unfold readSimpleKey
  split
  · rename_i heq
    rw [hkey] at heq
    exact absurd (List.cons.inj heq).1 hquote
  · rename_i heq
    rw [hkey] at heq
    exact absurd (List.cons.inj heq).1 hmark
  · simp only [hspan.1, hspan.2, hne, Bool.false_eq_true, if_false, String.ofList_toList]

/-- A key with dots is read up to what cannot belong to it. -/
theorem readKeyFrom_path (hne : path ≠ []) (hbare : ∀ key ∈ path, IsBareKey key)
    (hfuel : path.length ≤ fuel) (hcs : ∀ c ∈ cs.head?, isBare c = false)
    (hdot : ∀ more, skipSpace cs ≠ '.' :: more) :
    readKeyFrom fuel (['.'].intercalate (path.map printKey) ++ cs) = some (path, skipSpace cs) := by
  induction path generalizing fuel with
  | nil => exact absurd rfl hne
  | cons key path ih =>
    obtain ⟨hkey, hpath⟩ := List.forall_mem_cons.mp hbare
    rw [List.length_cons] at hfuel
    obtain ⟨fuel, rfl⟩ := Nat.exists_eq_add_one_of_ne_zero (show fuel ≠ 0 by omega)
    have hspace : ∀ cs, skipSpace (key.toList ++ cs) = key.toList ++ cs := fun cs => by
      obtain ⟨c, more, hcons, hc⟩ := hkey.exists_cons
      rw [hcons]
      exact skipSpace_cons (isSpace_of_isBare hc) _
    cases path with
    | nil =>
      rw [List.map_singleton, List.intercalate_singleton, hkey.printKey, readKeyFrom, hspace,
        readSimpleKey_bare hkey hcs]
      -- what follows is no dot, so that the key ends here
      simp only [Option.bind_eq_bind, Option.bind_some]
      rfl
    | cons key' path =>
      have hrest := ih (List.cons_ne_nil _ _) hpath (show (key' :: path).length ≤ fuel by omega)
      rw [List.map_cons, List.map_cons, List.intercalate_cons_cons, ← List.map_cons,
        hkey.printKey, List.append_assoc, List.append_assoc, List.singleton_append, readKeyFrom,
        hspace, readSimpleKey_bare hkey (by simp; decide)]
      have hdot : ∀ cs, skipSpace ('.' :: cs) = '.' :: cs := fun _ => rfl
      simp only [Option.bind_eq_bind, Option.bind_some, hdot, hrest]
      rfl

/-! ## Lines -/

theorem readLineEnd_feed (rest : List Char) : readLineEnd ('\n' :: rest) = some rest := rfl

/-- A key as a path of a header. -/
structure IsHeaderPath (path : List String) : Prop where
  /-- It has a key. -/
  nonempty : path ≠ []
  /-- Its keys need no quotation marks. -/
  bare : ∀ key ∈ path, IsBareKey key
  /-- They are not too many. -/
  length : path.length ≤ maxDepth

theorem IsHeaderPath.readKey (h : IsHeaderPath path) (rest : List Char) :
    readKey (['.'].intercalate (path.map printKey) ++ ']' :: rest) = some (path, ']' :: rest) :=
  readKeyFrom_path h.nonempty h.bare h.length (by simp; decide) (fun _ heq => by cases heq)

theorem IsHeaderPath.exists_cons (h : IsHeaderPath path) :
    ∃ c more, ['.'].intercalate (path.map printKey) = c :: more ∧ isBare c = true := by
  obtain ⟨key, path, rfl⟩ := List.exists_cons_of_ne_nil h.nonempty
  have hkey := h.bare key List.mem_cons_self
  obtain ⟨c, more, hcons, hbare⟩ := hkey.exists_cons
  cases path with
  | nil =>
    rw [List.map_singleton, List.intercalate_singleton, hkey.printKey]
    exact ⟨c, more, hcons, hbare⟩
  | cons key' path =>
    rw [List.map_cons, List.map_cons, List.intercalate_cons_cons, hkey.printKey, hcons]
    exact ⟨c, _, rfl, hbare⟩

theorem readLine_header (h : IsHeaderPath path) (draft : Draft) (rest : List Char) :
    readLine draft (headerLine 1 path ++ rest) = (draft.header path).map (·, rest) := by
  obtain ⟨c, more, hcons, hbare⟩ := h.exists_cons
  have hkey := h.readKey ('\n' :: rest)
  have htext : headerLine 1 path ++ rest =
      '[' :: (['.'].intercalate (path.map printKey) ++ ']' :: '\n' :: rest) := by
    simp [headerLine]
  have hbracket : c ≠ '[' := ne_of_isBare hbare (by decide)
  rw [htext]
  rw [hcons, List.cons_append] at hkey ⊢
  rw [readLine, hkey]
  · simp only [Option.bind_eq_bind, Option.bind_some, expect, if_true, readLineEnd_feed]
    cases draft.header path <;> rfl
  · exact fun cs heq => hbracket (List.cons.inj heq).1

theorem readLine_element (h : IsHeaderPath path) (draft : Draft) (rest : List Char) :
    readLine draft (headerLine 2 path ++ rest) = (draft.element path).map (·, rest) := by
  have hkey := h.readKey (']' :: '\n' :: rest)
  have htext : headerLine 2 path ++ rest =
      '[' :: '[' :: (['.'].intercalate (path.map printKey) ++ ']' :: ']' :: '\n' :: rest) := by
    simp [headerLine, List.replicate_succ]
  rw [htext, readLine, hkey]
  simp only [Option.bind_eq_bind, Option.bind_some, expect, if_true, readLineEnd_feed]
  cases draft.element path <;> rfl

/-- The line of a value under a key. -/
def pairLine (key : String) (datum : Datum) : List Char :=
  printKey key ++ [' ', '=', ' '] ++ printValue datum ++ ['\n']

theorem readLine_pair (hkey : IsBareKey key) (hdatum : IsReadable datum) (draft : Draft)
    (rest : List Char) :
    readLine draft (pairLine key datum ++ rest) = (draft.pair [key] datum).map (·, rest) := by
  obtain ⟨c, more, hcons, hbare⟩ := hkey.exists_cons
  have htext : pairLine key datum ++ rest =
      key.toList ++ ' ' :: '=' :: ' ' :: (printValue datum ++ '\n' :: rest) := by
    simp [pairLine, hkey.printKey]
  have hread : readKey (key.toList ++ ' ' :: '=' :: ' ' :: (printValue datum ++ '\n' :: rest)) =
      some ([key], '=' :: ' ' :: (printValue datum ++ '\n' :: rest)) := by
    have hpath := readKeyFrom_path (List.cons_ne_nil key []) (by simpa using hkey)
      (Nat.le_of_ble_eq_true rfl : [key].length ≤ maxDepth)
      (show ∀ c ∈ (' ' :: '=' :: ' ' :: (printValue datum ++ '\n' :: rest)).head?,
        isBare c = false by simp; decide) (fun _ heq => by cases heq)
    rw [List.map_singleton, List.intercalate_singleton, hkey.printKey] at hpath
    exact hpath
  have hspace : skipSpace (' ' :: (printValue datum ++ '\n' :: rest)) =
      printValue datum ++ '\n' :: rest := hdatum.starts _
  have hpair : readPair (readValue maxDepth)
      (key.toList ++ ' ' :: '=' :: ' ' :: (printValue datum ++ '\n' :: rest)) =
        some (([key], datum), '\n' :: rest) := by
    rw [readPair, hread]
    simp only [Option.bind_eq_bind, Option.bind_some, expect, if_true, hspace, hdatum.read]
    rfl
  rw [htext]
  rw [hcons, List.cons_append] at hpair ⊢
  rw [readLine, hpair]
  · simp only [Option.bind_eq_bind, Option.bind_some, readLineEnd_feed]
    cases draft.pair [key] datum <;> rfl
  all_goals exact fun cs heq => ne_of_isBare hbare (by decide) (List.cons.inj heq).1

/-! ## Steps -/

/-- The lines of a text take a draft to another, whatever stands behind them. -/
def Takes (draft : Draft) (cs : List Char) (next : Draft) : Prop :=
  ∀ rest fuel, (cs ++ rest).length < fuel → ∃ less, rest.length < less ∧
    readDraft fuel draft (cs ++ rest) = readDraft less next rest

theorem Takes.nil (draft : Draft) : Takes draft [] draft := fun _ fuel hfuel => ⟨fuel, hfuel, rfl⟩

theorem Takes.append {more : List Char} (h : Takes draft cs next) (hmore : Takes next more last) :
    Takes draft (cs ++ more) last := by
  intro rest fuel hfuel
  rw [List.append_assoc] at hfuel ⊢
  obtain ⟨less, hless, hread⟩ := h (more ++ rest) fuel hfuel
  obtain ⟨least, hleast, hlast⟩ := hmore rest less hless
  exact ⟨least, hleast, hread.trans hlast⟩

/-- An empty line changes nothing. -/
theorem Takes.blank (draft : Draft) : Takes draft ['\n'] draft := by
  intro rest fuel hfuel
  obtain ⟨fuel, rfl⟩ := Nat.exists_eq_add_one_of_ne_zero (show fuel ≠ 0 by omega)
  have hshort : rest.length < fuel := by
    rw [List.singleton_append, List.length_cons] at hfuel
    omega
  exact ⟨fuel, hshort, rfl⟩

/-- A line that is neither empty nor a comment. -/
theorem Takes.line (hstart : ∃ more, cs = c :: more) (hc : c = '[' ∨ isBare c = true)
    (h : ∀ rest, readLine draft (cs ++ rest) = some (next, rest)) : Takes draft cs next := by
  intro rest fuel hfuel
  obtain ⟨fuel, rfl⟩ := Nat.exists_eq_add_one_of_ne_zero (show fuel ≠ 0 by omega)
  obtain ⟨more, rfl⟩ := hstart
  have hshort : rest.length < fuel := by
    rw [List.length_append, List.length_cons] at hfuel
    omega
  have hother : ∀ d, isBare d = false → d ≠ '[' → c ≠ d := by
    rintro d hd hbracket rfl
    rcases hc with rfl | hbare
    · exact hbracket rfl
    · rw [hbare] at hd
      cases hd
  have hspace : skipSpace (c :: more ++ rest) = c :: more ++ rest := by
    refine skipSpace_cons ?_ _
    rcases hc with rfl | hbare
    · rfl
    · exact isSpace_of_isBare hbare
  have hbreak : dropLineBreak? (c :: more ++ rest) = none := by
    unfold dropLineBreak?
    split
    · rename_i heq
      exact absurd (List.cons.inj heq).1 (hother _ (by decide) (by decide))
    · rename_i heq
      exact absurd (List.cons.inj heq).1 (hother _ (by decide) (by decide))
    · rfl
  have hread := h rest
  refine ⟨fuel, hshort, ?_⟩
  rw [readDraft, hspace]
  split
  · rename_i heq
    cases heq
  · rename_i heq
    exact absurd (List.cons.inj heq).1 (hother _ (by decide) (by decide))
  · simp only [hbreak, hread, Option.bind_eq_bind, Option.bind_some]

theorem Takes.header (h : IsHeaderPath path) (hnext : draft.header path = some next) :
    Takes draft (headerLine 1 path) next :=
  .line ⟨_, rfl⟩ (.inl rfl) fun rest => by
    rw [readLine_header h, hnext]
    rfl

theorem Takes.element (h : IsHeaderPath path) (hnext : draft.element path = some next) :
    Takes draft (headerLine 2 path) next :=
  .line ⟨_, rfl⟩ (.inl rfl) fun rest => by
    rw [readLine_element h, hnext]
    rfl

theorem Takes.pair (hkey : IsBareKey key) (hdatum : IsReadable datum)
    (hnext : draft.pair [key] datum = some next) : Takes draft (pairLine key datum) next := by
  obtain ⟨c, more, hcons, hbare⟩ := hkey.exists_cons
  have hstart : pairLine key datum = c :: (more ++ [' ', '=', ' '] ++ printValue datum ++ ['\n']) := by
    rw [pairLine, hkey.printKey, hcons]
    rfl
  refine .line ⟨_, hstart⟩ (.inr hbare) fun rest => ?_
  rw [readLine_pair hkey hdatum, hnext]
  rfl

/-- A text whose lines take an empty draft to one that can be finished is a document. -/
theorem parse_of_takes {table : Table} (h : Takes {} cs draft) (hfinish : draft.finish = some table)
    (hmark : ∀ more, cs ≠ '\uFEFF' :: more) :
    parse (String.ofList cs) = .ok (entriesToData table.entries) := by
  obtain ⟨less, hless, hread⟩ := h [] (cs.length + 1) (by simp)
  obtain ⟨less, rfl⟩ := Nat.exists_eq_add_one_of_ne_zero (show less ≠ 0 by omega)
  have hend : readDraft (less + 1) draft [] = some draft := rfl
  rw [List.append_nil, hend] at hread
  -- without a mark at its start the whole text counts
  simp only [parse, String.toList_ofList, hread, Option.bind_some, hfinish]

end Toml
end EntitySdl
