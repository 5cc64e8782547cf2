import EntitySdl.Proofs.LetterCase

/-! # Names with one Pascal case

Pascal case gives a capital to each word of a name and small letters to the rest, so that
it keeps the letters and digits of the name and shows where words begin.  Where they
begin follows from what stands before a character and behind it: the first one behind an
underscore begins a word, and so does a capital behind a small letter, or behind a capital
and before a small letter.  Two names have one Pascal case exactly when they agree in
these letters, digits and beginnings.
-/
namespace EntitySdl
namespace Name

open Text

/-- What stands before a character, since the last underscore. -/
inductive Lead where
  /-- Nothing. -/
  | nothing
  /-- Digits, and no letter. -/
  | digits
  /-- The last letter is small. -/
  | small
  /-- The last letter is a capital. -/
  | capital
  deriving DecidableEq

/-- What stands before the next character. -/
def Lead.behind (lead : Lead) (c : Char) : Lead :=
  if isLowercase c then .small
  else if isUppercase c then .capital
  else match lead with
    | .nothing => .digits
    | shown => shown

/-- Whether a word begins at a character, by what stands before it and behind it. -/
def Lead.beginsWord (lead : Lead) (c : Char) (cs : List Char) : Bool :=
  match lead with
  | .nothing => true
  | .digits => false
  | .small => isUppercase c
  | .capital => isUppercase c && cs.head?.any isLowercase

/-- The letters and digits of a name in small letters, each with whether it is a letter at
which a word begins. -/
def spelling (lead : Lead) : List Char → List (Char × Bool)
  | [] => []
  | c :: cs =>
    if isAlphanumeric c then
      (c.toLower, isAsciiLetter c && lead.beginsWord c cs) :: spelling (lead.behind c) cs
    else spelling .nothing cs

/-- Two names have the same letters and digits, up to case, and words that begin at the same
letters. -/
def SameWords (left right : String) : Prop :=
  spelling .nothing left.toList = spelling .nothing right.toList

/-- Words are compared by their spelling. -/
instance (left right : String) : Decidable (SameWords left right) :=
  inferInstanceAs (Decidable (_ = _))

/-- A small letter or a digit as it is written, with a capital at the beginning of a word. -/
def writeMark (mark : Char × Bool) : Char := if mark.2 then mark.1.toUpper else mark.1

/-- What is read from a letter or digit in Pascal case. -/
def readMark (c : Char) : Char × Bool := (c.toLower, isUppercase c)

/-! ## Letters -/

section Letters

variable {c : Char}

theorem not_isLowercase_of_isUppercase (h : isNamePart c) (hc : isUppercase c) :
    isLowercase c = false := by
  have := @Sdl.forall_isNamePart (fun c => !(isUppercase c && isLowercase c)) (by decide) c h
  simpa [hc] using this

theorem isAlphanumeric_of_isLowercase (h : isNamePart c) (hc : isLowercase c) :
    isAlphanumeric c := by
  have := @Sdl.forall_isNamePart (fun c => !isLowercase c || isAlphanumeric c) (by decide) c h
  simpa [hc] using this

/-- A capital stands for the small letter at the beginning of a word; digits have none. -/
theorem writeMark_begin (h : isNamePart c) :
    writeMark (c.toLower, isAsciiLetter c && true) = c.toUpper :=
  beq_iff_eq.mp (@Sdl.forall_isNamePart
    (fun c => writeMark (c.toLower, isAsciiLetter c && true) == c.toUpper) (by decide) c h)

theorem readMark_writeMark (h : isNamePart c) (begins : Bool) :
    readMark (writeMark (c.toLower, isAsciiLetter c && begins)) =
      (c.toLower, isAsciiLetter c && begins) := by
  have hall := @Sdl.forall_isNamePart (fun c => [true, false].all fun begins =>
    readMark (writeMark (c.toLower, isAsciiLetter c && begins)) ==
      (c.toLower, isAsciiLetter c && begins)) (by decide) c h
  rw [List.all_eq_true] at hall
  exact beq_iff_eq.mp (hall begins (by cases begins <;> decide))

end Letters

/-! ## Pieces between underscores -/

/-- What stands before the next character of a piece of which a word is under way. -/
def CaseMode.lead (mode : CaseMode) (word : List Char) : Lead :=
  match mode with
  | .boundary => if word = [] then .nothing else .digits
  | .lowercase => .small
  | .uppercase => .capital

section Pieces

variable {mode : CaseMode} {word cs : List Char} {c d : Char}

theorem lead_after (mode : CaseMode) (word : List Char) (c : Char) :
    (mode.after c).lead (c :: word) = (mode.lead word).behind c := by
  unfold CaseMode.after Lead.behind
  by_cases hsmall : isLowercase c
  · rw [if_pos hsmall, if_pos hsmall]
    rfl
  · rw [if_neg hsmall, if_neg hsmall]
    by_cases hcapital : isUppercase c
    · rw [if_pos hcapital, if_pos hcapital]
      rfl
    · rw [if_neg hcapital, if_neg hcapital]
      cases mode with
      | boundary => cases word <;> rfl
      | lowercase => rfl
      | uppercase => rfl

theorem capitalize_singleton (h : isNamePart c) : capitalize [c] = [c.toUpper] := by
  show upper c ++ [] = [c.toUpper]
  rw [List.append_nil, upper_of_ascii (toNat_lt_of_isNamePart h)]

theorem capitalize_append (hne : word ≠ []) (h : ∀ c ∈ cs, isNamePart c)
    (hword : ∀ c ∈ word, isNamePart c) :
    capitalize (word ++ cs) = capitalize word ++ cs.map Char.toLower := by
  obtain ⟨first, rest, rfl⟩ := List.exists_cons_of_ne_nil hne
  obtain ⟨-, hrest⟩ := List.forall_mem_cons.mp hword
  have hall : ∀ c ∈ rest ++ cs, isNamePart c := List.forall_mem_append.mpr ⟨hrest, h⟩
  rw [List.cons_append, capitalize, capitalize, lowerWord_of_isNamePart hall,
    lowerWord_of_isNamePart hrest, List.map_append, List.append_assoc]

/-- A character is written behind the word that it belongs to, if it is not cut off from
it. -/
theorem capitalize_reverse_cons (cs : List Char) (hparts : ∀ x ∈ word, isNamePart x)
    (hc : isNamePart c) (hword : mode ≠ .boundary → word ≠ [])
    (hsmall : mode = .lowercase → isUppercase c = false)
    (hcapital : mode = .uppercase → (isUppercase c && cs.head?.any isLowercase) = false) :
    capitalize (c :: word).reverse = capitalize word.reverse ++
      [writeMark (c.toLower, isAsciiLetter c && (mode.lead word).beginsWord c cs)] := by
  by_cases hne : word = []
  · have hmode : mode = .boundary := by
      by_contra hmode
      exact hword hmode hne
    subst hne hmode
    have hlead : CaseMode.boundary.lead [] = .nothing := rfl
    rw [hlead, Lead.beginsWord, writeMark_begin hc]
    exact capitalize_singleton hc
  · have hbegins : (mode.lead word).beginsWord c cs = false := by
      cases mode with
      | boundary =>
        rw [CaseMode.lead, if_neg hne]
        rfl
      | lowercase => exact hsmall rfl
      | uppercase => exact hcapital rfl
    rw [hbegins, Bool.and_false, List.reverse_cons,
      capitalize_append (by simpa using hne) (by simpa using hc) (by simpa using hparts)]
    rfl

/-- A capital behind a small letter is spelled as the first one of a piece. -/
theorem spelling_small (hd : isNamePart d) (h : isUppercase d) :
    spelling .small (d :: cs) = spelling .nothing (d :: cs) := by
  have hsmall := not_isLowercase_of_isUppercase hd h
  simp only [spelling, Lead.beginsWord, Lead.behind, h, hsmall, if_true]

/-- A small letter behind a capital is spelled as one behind digits. -/
theorem spelling_capital (hd : isNamePart d) (h : isLowercase d) :
    spelling .capital (d :: cs) = spelling .digits (d :: cs) := by
  have hcapital : isUppercase d = false := by
    by_contra hnot
    rw [Bool.not_eq_false] at hnot
    rw [not_isLowercase_of_isUppercase hd hnot] at h
    cases h
  simp only [spelling, Lead.beginsWord, Lead.behind, h, hcapital, if_true, Bool.false_and]

theorem spelling_cons (hc : isAlphanumeric c) (lead : Lead) (cs : List Char) :
    spelling lead (c :: cs) = (c.toLower, isAsciiLetter c && lead.beginsWord c cs) ::
      spelling (lead.behind c) cs := if_pos hc

/-- **A piece in Pascal case.**  Its words, behind the one that is under way, are written
as the piece is spelled. -/
theorem flatMap_capitalize_wordsOfPiece (hparts : ∀ x ∈ word, isNamePart x)
    (hcs : ∀ x ∈ cs, isNamePart x ∧ isAlphanumeric x) (hne : cs ≠ [])
    (hword : mode ≠ .boundary → word ≠ [])
    (hsmall : mode = .lowercase → ∀ x, cs.head? = some x → isUppercase x = false) :
    (wordsOfPiece mode word cs).flatMap capitalize =
      capitalize word.reverse ++ (spelling (mode.lead word) cs).map writeMark := by
  fun_induction wordsOfPiece mode word cs with
  | case1 => exact absurd rfl hne
  | case2 mode word c =>
    obtain ⟨hc, halpha⟩ := hcs c List.mem_cons_self
    have hwritten := capitalize_reverse_cons [] hparts hc hword (fun h => hsmall h c rfl)
      fun _ => Bool.and_false _
    rw [List.flatMap_singleton, hwritten, spelling_cons halpha]
    rfl
  | case3 mode word c d cs hcut ih =>
    -- a capital behind a small letter begins the next word
    obtain ⟨hafter, hd⟩ := hcut
    obtain ⟨⟨hc, halpha⟩, hrest⟩ := List.forall_mem_cons.mp hcs
    have hdpart := (hrest d List.mem_cons_self).1
    have hlow := not_isLowercase_of_isUppercase hdpart hd
    have hwritten := capitalize_reverse_cons (d :: cs) hparts hc hword (fun h => hsmall h c rfl)
      fun _ => by simp [hlow]
    have hlead : (mode.lead word).behind c = .small := by
      rw [← lead_after, hafter]
      rfl
    have hnext := ih (by simp) hrest (by simp) (by simp) (by simp)
    rw [List.flatMap_cons, hnext, hwritten, spelling_cons halpha, hlead, spelling_small hdpart hd]
    simp [capitalize, CaseMode.lead]
  | case4 mode word c d cs hfirst hcut ih =>
    -- the last capital of a row begins a word with the small letter behind it
    obtain ⟨rfl, hupper, hd⟩ := hcut
    obtain ⟨⟨hc, halpha⟩, hrest⟩ := List.forall_mem_cons.mp hcs
    have hdpart := (hrest d List.mem_cons_self).1
    have hlow := not_isLowercase_of_isUppercase hc hupper
    have hshown : CaseMode.uppercase.lead word = .capital := rfl
    have hbegun : CaseMode.boundary.lead [c] = .digits := rfl
    have hlead : Lead.capital.behind c = .capital := by
      simp only [Lead.behind, hupper, hlow, if_true, Bool.false_eq_true, if_false]
    have hbegins : Lead.capital.beginsWord c (d :: cs) = true := by
      simp [Lead.beginsWord, hupper, hd]
    have hnext := ih (by simpa using hc) hrest (by simp) (by simp) (by simp)
    rw [List.flatMap_cons, hnext, hbegun, hshown, spelling_cons halpha, hbegins, hlead,
      spelling_capital hdpart hd, List.map_cons, writeMark_begin hc, List.reverse_singleton,
      capitalize_singleton hc, List.singleton_append]
  | case5 mode word c d cs hfirst hsecond ih =>
    obtain ⟨⟨hc, halpha⟩, hrest⟩ := List.forall_mem_cons.mp hcs
    have hwritten := capitalize_reverse_cons (d :: cs) hparts hc hword (fun h => hsmall h c rfl)
      fun hmode => by
        by_contra hnot
        simp only [List.head?_cons, Option.any_some, Bool.not_eq_false, Bool.and_eq_true] at hnot
        exact hsecond ⟨hmode, hnot⟩
    have hnext := ih (List.forall_mem_cons.mpr ⟨hc, hparts⟩) hrest (by simp) (by simp)
      fun hafter x hx => by
        cases hx
        by_contra hnot
        rw [Bool.not_eq_false] at hnot
        exact hfirst ⟨hafter, hnot⟩
    rw [hnext, hwritten, spelling_cons halpha, lead_after, List.append_assoc]
    rfl

end Pieces

/-! ## Names -/

section Names

/-- A name is spelled piece by piece. -/
theorem exists_spelling_splitAt {cs : List Char} (h : ∀ c ∈ cs, isNamePart c) (lead : Lead) :
    ∃ piece pieces, splitAt (!isAlphanumeric ·) cs = piece :: pieces ∧
      piece.head?.any isLowercase = cs.head?.any isLowercase ∧
        spelling lead cs = spelling lead piece ++ pieces.flatMap (spelling .nothing) := by
  induction cs generalizing lead with
  | nil => exact ⟨[], [], rfl, rfl, rfl⟩
  | cons c cs ih =>
    obtain ⟨hc, hcs⟩ := List.forall_mem_cons.mp h
    by_cases halpha : isAlphanumeric c
    · obtain ⟨piece, pieces, hsplit, hhead, hspelling⟩ := ih hcs (lead.behind c)
      refine ⟨c :: piece, pieces, ?_, rfl, ?_⟩
      · rw [splitAt, if_neg (by simpa using halpha), hsplit]
      · have hbegins : lead.beginsWord c piece = lead.beginsWord c cs := by
          cases lead <;> simp only [Lead.beginsWord, hhead]
        rw [spelling_cons halpha, spelling_cons halpha, hspelling, hbegins, List.cons_append]
    · obtain ⟨piece, pieces, hsplit, -, hspelling⟩ := ih hcs .nothing
      refine ⟨[], piece :: pieces, ?_, ?_, ?_⟩
      · rw [splitAt, if_pos (by simpa using halpha), hsplit]
      · have hlow : isLowercase c = false := by
          by_contra hnot
          rw [Bool.not_eq_false] at hnot
          exact halpha (isAlphanumeric_of_isLowercase hc hnot)
        simp [hlow]
      · rw [List.flatMap_cons, ← hspelling]
        exact if_neg halpha

variable {name left right : String}

/-- **Pascal case writes the spelling of a name.** -/
theorem pascal_toList (h : ∀ c ∈ name.toList, isNamePart c) :
    (pascal name).toList = (spelling .nothing name.toList).map writeMark := by
  have hpiece : ∀ piece : List Char, (∀ x ∈ piece, isNamePart x ∧ isAlphanumeric x) →
      (wordsOfPiece .boundary [] piece).flatMap capitalize =
        (spelling .nothing piece).map writeMark := by
    intro piece hall
    cases piece with
    | nil => rfl
    | cons c cs =>
      exact flatMap_capitalize_wordsOfPiece (by simp) hall (by simp) (by simp) (by simp)
  obtain ⟨piece, pieces, hsplit, -, hspelling⟩ := exists_spelling_splitAt h .nothing
  have hpieces : spelling .nothing name.toList =
      (splitAt (!isAlphanumeric ·) name.toList).flatMap (spelling .nothing) := by
    rw [hspelling, hsplit, List.flatMap_cons]
  rw [pascal, String.toList_ofList, wordsOf, hpieces, List.flatMap_assoc, List.map_flatMap]
  refine List.flatMap_congr fun part hpart => hpiece part fun x hx => ?_
  have hmem : x ∈ (splitAt (!isAlphanumeric ·) name.toList).flatten :=
    List.mem_flatten_of_mem hpart hx
  rw [flatten_splitAt, List.mem_filter, Bool.not_not] at hmem
  exact ⟨h x hmem.1, hmem.2⟩

/-- The spelling of a name is read from its Pascal case. -/
theorem map_readMark_pascal (h : ∀ c ∈ name.toList, isNamePart c) :
    (pascal name).toList.map readMark = spelling .nothing name.toList := by
  have hmarks : ∀ (cs : List Char) (lead : Lead), (∀ c ∈ cs, isNamePart c) →
      (spelling lead cs).map (readMark ∘ writeMark) = spelling lead cs := by
    intro cs
    induction cs with
    | nil => exact fun _ _ => rfl
    | cons c cs ih =>
      intro lead hall
      obtain ⟨hc, hcs⟩ := List.forall_mem_cons.mp hall
      unfold spelling
      split
      · rw [List.map_cons, ih _ hcs, Function.comp_apply, readMark_writeMark hc]
      · exact ih _ hcs
  rw [pascal_toList h, List.map_map, hmarks _ _ h]

/-- **Names with one Pascal case** have the same letters and digits, up to case, and words
that begin at the same letters. -/
theorem pascal_eq_iff (hleft : ∀ c ∈ left.toList, isNamePart c)
    (hright : ∀ c ∈ right.toList, isNamePart c) :
    pascal left = pascal right ↔ SameWords left right := by
  constructor
  · intro h
    rw [SameWords, ← map_readMark_pascal hleft, h, map_readMark_pascal hright]
  · intro h
    rw [← String.toList_inj, pascal_toList hleft, pascal_toList hright, h]

theorem ne_nil_of_mem_wordsOfPiece {mode : CaseMode} {word cs : List Char}
    (hword : mode = .uppercase → word ≠ []) : ∀ w ∈ wordsOfPiece mode word cs, w ≠ [] := by
  fun_induction wordsOfPiece mode word cs with
  | case1 => simp
  | case2 => simp
  | case3 mode word c d cs hcut ih =>
    exact List.forall_mem_cons.mpr ⟨by simp, ih (by simp)⟩
  | case4 mode word c d cs hfirst hcut ih =>
    exact List.forall_mem_cons.mpr ⟨by simpa using hword hcut.1, ih (by simp)⟩
  | case5 mode word c d cs hfirst hsecond ih => exact ih (by simp)

/-- A text with its first letter made small. -/
def smallFirst : List Char → List Char
  | [] => []
  | c :: cs => c.toLower :: cs

/-- Camel case is Pascal case but for the first letter. -/
theorem camel_toList (h : ∀ c ∈ name.toList, isNamePart c) :
    (camel name).toList = smallFirst (pascal name).toList := by
  have hparts := wordsOf_isNamePart h
  have hne : ∀ word ∈ wordsOf name.toList, word ≠ [] := by
    intro word hword
    obtain ⟨piece, -, hmem⟩ := List.mem_flatMap.mp hword
    exact ne_nil_of_mem_wordsOfPiece (by simp) word hmem
  rw [camel, pascal, String.toList_ofList, String.toList_ofList]
  cases hwords : wordsOf name.toList with
  | nil => rfl
  | cons word words =>
    rw [hwords] at hparts hne
    obtain ⟨c, cs, rfl⟩ := List.exists_cons_of_ne_nil (hne word List.mem_cons_self)
    have hpart : ∀ x ∈ c :: cs, isNamePart x := fun x hx => (hparts _ List.mem_cons_self x hx).1
    obtain ⟨hc, hcs⟩ := List.forall_mem_cons.mp hpart
    have hupper : c.toUpper.toLower = c.toLower := IsCasing.toLower_eq (.inr (.inr rfl)) hc
    simp only [List.flatMap_cons, capitalize, lowerWord_of_isNamePart hpart,
      upper_of_ascii (toNat_lt_of_isNamePart hc), lowerWord_of_isNamePart hcs, List.map_cons,
      List.cons_append, List.nil_append, smallFirst, hupper]

/-- Names in camel case are told apart by their Pascal case. -/
theorem eq_of_sameWords (hleft : ∀ c ∈ left.toList, isNamePart c)
    (hright : ∀ c ∈ right.toList, isNamePart c) (hcamel : camel left = left)
    (hcamel' : camel right = right) (h : SameWords left right) : left = right := by
  rw [← String.toList_inj, ← hcamel, ← hcamel', camel_toList hleft, camel_toList hright,
    (pascal_eq_iff hleft hright).mpr h]

/-- Underscores, capitals behind capitals and the case of the first letter do not tell names
apart; digits do not tell whether a word ends before them. -/
example : SameWords "user_id" "userId" ∧ SameWords "UserID" "user_id" ∧
    SameWords "user_1" "User1" ∧ ¬ SameWords "user_id" "userid" ∧
      ¬ SameWords "aBCd" "abCd" := by
  decide +kernel

end Names

end Name
end EntitySdl
