import EntitySdl.Name.Inflection
import EntitySdl.Name.Words
import EntitySdl.Proofs.TypeRefs

/-! # The case of names

A name is put into another case letter by letter.  Beside the case of its letters,
camel case and Pascal case change nothing but the underscores, which they drop; what
is left in small letters is the skeleton of a name.
-/
namespace EntitySdl
namespace Name

open Text

/-! ## Letters -/

theorem toNat_lt_of_isNamePart {c : Char} (h : isNamePart c) : c.toNat < 0x80 := by
  simpa using @Sdl.forall_isNamePart (fun c => decide (c.toNat < 0x80)) (by decide) c h

theorem isNamePart_toLower {c : Char} (h : isNamePart c) : isNamePart c.toLower :=
  @Sdl.forall_isNamePart (fun c => isNamePart c.toLower) (by decide) c h

theorem toLower_toLower_of_isNamePart {c : Char} (h : isNamePart c) :
    c.toLower.toLower = c.toLower :=
  beq_iff_eq.mp
    (@Sdl.forall_isNamePart (fun c => c.toLower.toLower == c.toLower) (by decide) c h)

theorem isAlphanumeric_of_isNamePart {c : Char} (h : isNamePart c) :
    isAlphanumeric c = (c != '_') := by
  simpa using @Sdl.forall_isNamePart (fun c => isAlphanumeric c == (c != '_')) (by decide) c h

theorem isAlphanumeric_toLower {c : Char} (h : isNamePart c) :
    isAlphanumeric c.toLower = isAlphanumeric c := by
  simpa using @Sdl.forall_isNamePart
    (fun c => isAlphanumeric c.toLower == isAlphanumeric c) (by decide) c h

/-- A change of case of a whole text: to small letters, to capitals or none. -/
def IsCasing (f : Char → Char) : Prop := f = id ∨ f = Char.toLower ∨ f = Char.toUpper

namespace IsCasing

variable {f : Char → Char}

theorem isNamePart (hf : IsCasing f) {c : Char} (h : isNamePart c) : Name.isNamePart (f c) := by
  rcases hf with rfl | rfl | rfl
  · exact h
  · exact isNamePart_toLower h
  · exact @Sdl.forall_isNamePart (fun c => Name.isNamePart c.toUpper) (by decide) c h

theorem isAlphanumeric_eq (hf : IsCasing f) {c : Char} (h : Name.isNamePart c) :
    isAlphanumeric (f c) = isAlphanumeric c := by
  rcases hf with rfl | rfl | rfl
  · rfl
  · exact isAlphanumeric_toLower h
  · simpa using @Sdl.forall_isNamePart
      (fun c => isAlphanumeric c.toUpper == isAlphanumeric c) (by decide) c h

theorem toLower_eq (hf : IsCasing f) {c : Char} (h : Name.isNamePart c) :
    (f c).toLower = c.toLower := by
  rcases hf with rfl | rfl | rfl
  · rfl
  · exact toLower_toLower_of_isNamePart h
  · exact beq_iff_eq.mp
      (@Sdl.forall_isNamePart (fun c => c.toUpper.toLower == c.toLower) (by decide) c h)

theorem dollar (hf : IsCasing f) : f '$' = '$' := by
  rcases hf with rfl | rfl | rfl <;> rfl

theorem digit (hf : IsCasing f) {c : Char} (h : isAsciiDigit c) : f c = c := by
  have hpart : Name.isNamePart c := by rw [Name.isNamePart, h, Bool.or_true]
  rcases hf with rfl | rfl | rfl
  · rfl
  · simpa [h] using @Sdl.forall_isNamePart
      (fun c => !isAsciiDigit c || c.toLower == c) (by decide) c hpart
  · simpa [h] using @Sdl.forall_isNamePart
      (fun c => !isAsciiDigit c || c.toUpper == c) (by decide) c hpart

end IsCasing

/-! ## Texts -/

theorem lower_of_ascii {c : Char} (h : c.toNat < 0x80) : lower c = [c.toLower] := if_pos h

theorem upper_of_ascii {c : Char} (h : c.toNat < 0x80) : upper c = [c.toUpper] := if_pos h

theorem ne_capitalSigma_of_ascii {c : Char} (h : c.toNat < 0x80) : c ≠ capitalSigma := by
  rintro rfl
  exact absurd h (by decide)

theorem lowerAfter_of_ascii {before cs : List Char} (h : ∀ c ∈ cs, c.toNat < 0x80) :
    lowerAfter before cs = cs.map Char.toLower := by
  induction cs generalizing before with
  | nil => rfl
  | cons c cs ih =>
    obtain ⟨hc, hcs⟩ := List.forall_mem_cons.mp h
    rw [lowerAfter, if_neg (ne_capitalSigma_of_ascii hc), lower_of_ascii hc, ih hcs]
    rfl

theorem lowerText_toList {text : String} (h : ∀ c ∈ text.toList, c.toNat < 0x80) :
    (lowerText text).toList = text.toList.map Char.toLower := by
  rw [lowerText, lowerAfter_of_ascii h, String.toList_ofList]

theorem upperText_toList {text : String} (h : ∀ c ∈ text.toList, c.toNat < 0x80) :
    (upperText text).toList = text.toList.map Char.toUpper := by
  rw [upperText, String.toList_ofList, List.map_eq_flatMap]
  exact List.flatMap_congr fun c hc => upper_of_ascii (h c hc)

/-- The case of a word is restored letter by letter. -/
theorem restoreCase_toList {word text : String} (h : ∀ c ∈ text.toList, c.toNat < 0x80) :
    ∃ f, IsCasing f ∧ (restoreCase word text).toList = text.toList.map f := by
  have hsame : text.toList = text.toList.map id := (List.map_id _).symm
  unfold restoreCase
  split
  · exact ⟨id, .inl rfl, hsame⟩
  · split
    · exact ⟨Char.toLower, .inr (.inl rfl), lowerText_toList h⟩
    · split
      · exact ⟨Char.toUpper, .inr (.inr rfl), upperText_toList h⟩
      · split
        · exact ⟨id, .inl rfl, hsame⟩
        · exact ⟨Char.toLower, .inr (.inl rfl), lowerText_toList h⟩

/-! ## Skeletons -/

/-- The letters and digits of a text, in small letters. -/
def skeleton (cs : List Char) : List Char := (cs.filter isAlphanumeric).map Char.toLower

theorem flatten_splitAt (separates : Char → Bool) (cs : List Char) :
    (splitAt separates cs).flatten = cs.filter fun c => !separates c := by
  induction cs with
  | nil => rfl
  | cons c cs ih =>
    unfold splitAt
    split
    · rename_i hc
      simp [hc, ih]
    · rename_i hc
      cases hpieces : splitAt separates cs with
      | nil => exact absurd hpieces (splitAt_ne_nil _ _)
      | cons piece pieces =>
        rw [hpieces] at ih
        simp [hc, ← ih]

theorem flatten_wordsOfPiece {mode : CaseMode} {word cs : List Char} (h : cs ≠ []) :
    (wordsOfPiece mode word cs).flatten = word.reverse ++ cs := by
  fun_induction wordsOfPiece mode word cs with
  | case1 => exact absurd rfl h
  | case2 => simp
  | case3 mode word c d cs hsplit ih => simp [ih]
  | case4 mode word c d cs hsame hsplit ih => simp [ih]
  | case5 mode word c d cs hsame hsame' ih => simp [ih]

/-- The words of a name are made of its letters and digits. -/
theorem flatten_wordsOf (name : List Char) :
    (wordsOf name).flatten = name.filter isAlphanumeric := by
  have hpiece : ∀ piece : List Char, (wordsOfPiece .boundary [] piece).flatten = piece := by
    intro piece
    cases piece with
    | nil => rfl
    | cons c cs => exact flatten_wordsOfPiece (List.cons_ne_nil c cs)
  have hpieces : ∀ pieces : List (List Char),
      (pieces.flatMap (wordsOfPiece .boundary [])).flatten = pieces.flatten := by
    intro pieces
    induction pieces with
    | nil => rfl
    | cons piece pieces ih =>
      rw [List.flatMap_cons, List.flatten_append, hpiece, ih, List.flatten_cons]
  rw [wordsOf, hpieces, flatten_splitAt]
  simp only [Bool.not_not]

section NameParts

variable {word : List Char}

theorem lowerWord_of_isNamePart (h : ∀ c ∈ word, isNamePart c) :
    lowerWord word = word.map Char.toLower := by
  fun_induction lowerWord word with
  | case1 => rfl
  | case2 =>
    exact absurd rfl (ne_capitalSigma_of_ascii
      (toNat_lt_of_isNamePart (h _ List.mem_cons_self)))
  | case3 c hc => exact lower_of_ascii (toNat_lt_of_isNamePart (h c List.mem_cons_self))
  | case4 c d cs ih =>
    obtain ⟨hc, hcs⟩ := List.forall_mem_cons.mp h
    rw [ih hcs, lower_of_ascii (toNat_lt_of_isNamePart hc)]
    rfl

theorem lowerWord_isAlphanumeric (h : ∀ c ∈ word, isNamePart c ∧ isAlphanumeric c) :
    ∀ c ∈ lowerWord word, isNamePart c ∧ isAlphanumeric c := by
  rw [lowerWord_of_isNamePart fun c hc => (h c hc).1, List.forall_mem_map]
  exact fun c hc =>
    ⟨isNamePart_toLower (h c hc).1, (isAlphanumeric_toLower (h c hc).1).trans (h c hc).2⟩

theorem capitalize_isAlphanumeric (h : ∀ c ∈ word, isNamePart c ∧ isAlphanumeric c) :
    ∀ c ∈ capitalize word, isNamePart c ∧ isAlphanumeric c := by
  cases word with
  | nil => simp [capitalize]
  | cons c cs =>
    obtain ⟨hc, hcs⟩ := List.forall_mem_cons.mp h
    have hupper : IsCasing Char.toUpper := .inr (.inr rfl)
    rw [capitalize, upper_of_ascii (toNat_lt_of_isNamePart hc.1), List.singleton_append]
    exact List.forall_mem_cons.mpr
      ⟨⟨hupper.isNamePart hc.1, (hupper.isAlphanumeric_eq hc.1).trans hc.2⟩,
        lowerWord_isAlphanumeric hcs⟩

theorem small_lowerWord (h : ∀ c ∈ word, isNamePart c) :
    (lowerWord word).map Char.toLower = word.map Char.toLower := by
  rw [lowerWord_of_isNamePart h, List.map_map]
  exact List.map_congr_left fun c hc => toLower_toLower_of_isNamePart (h c hc)

theorem small_capitalize (h : ∀ c ∈ word, isNamePart c) :
    (capitalize word).map Char.toLower = word.map Char.toLower := by
  cases word with
  | nil => rfl
  | cons c cs =>
    obtain ⟨hc, hcs⟩ := List.forall_mem_cons.mp h
    have hupper : (Char.toUpper c).toLower = c.toLower := IsCasing.toLower_eq (.inr (.inr rfl)) hc
    rw [capitalize, upper_of_ascii (toNat_lt_of_isNamePart hc), List.singleton_append,
      List.map_cons, small_lowerWord hcs, hupper]
    rfl

theorem small_flatMap_capitalize {words : List (List Char)}
    (h : ∀ word ∈ words, ∀ c ∈ word, isNamePart c) :
    (words.flatMap capitalize).map Char.toLower = words.flatten.map Char.toLower := by
  rw [List.map_flatMap, List.map_flatten]
  exact List.flatMap_congr fun word hword => small_capitalize (h word hword)

end NameParts

section Names

variable {name : String}

theorem wordsOf_isNamePart (h : ∀ c ∈ name.toList, isNamePart c) :
    ∀ word ∈ wordsOf name.toList, ∀ c ∈ word, isNamePart c ∧ isAlphanumeric c := by
  intro word hword c hc
  have hmem : c ∈ (wordsOf name.toList).flatten := List.mem_flatten_of_mem hword hc
  rw [flatten_wordsOf, List.mem_filter] at hmem
  exact ⟨h c hmem.1, hmem.2⟩

/-- Camel case keeps the skeleton of a name. -/
theorem small_camel (h : ∀ c ∈ name.toList, isNamePart c) :
    (camel name).toList.map Char.toLower = skeleton name.toList := by
  have hparts := wordsOf_isNamePart h
  rw [camel, String.toList_ofList, skeleton, ← flatten_wordsOf]
  cases hwords : wordsOf name.toList with
  | nil => rfl
  | cons word words =>
    rw [hwords] at hparts
    obtain ⟨hword, hrest⟩ := List.forall_mem_cons.mp hparts
    rw [List.map_append, small_lowerWord fun c hc => (hword c hc).1,
      small_flatMap_capitalize fun w hw c hc => (hrest w hw c hc).1, List.flatten_cons,
      List.map_append]

/-- Pascal case keeps the skeleton of a name. -/
theorem small_pascal (h : ∀ c ∈ name.toList, isNamePart c) :
    (pascal name).toList.map Char.toLower = skeleton name.toList := by
  rw [pascal, String.toList_ofList, skeleton, ← flatten_wordsOf]
  exact small_flatMap_capitalize fun word hword c hc => (wordsOf_isNamePart h word hword c hc).1

theorem pascal_isAlphanumeric (h : ∀ c ∈ name.toList, isNamePart c) :
    ∀ c ∈ (pascal name).toList, isNamePart c ∧ isAlphanumeric c := by
  intro c hc
  rw [pascal, String.toList_ofList] at hc
  obtain ⟨word, hword, hc⟩ := List.mem_flatMap.mp hc
  exact capitalize_isAlphanumeric (wordsOf_isNamePart h word hword) c hc

theorem camel_isAlphanumeric (h : ∀ c ∈ name.toList, isNamePart c) :
    ∀ c ∈ (camel name).toList, isNamePart c ∧ isAlphanumeric c := by
  intro c hc
  have hparts := wordsOf_isNamePart h
  rw [camel, String.toList_ofList] at hc
  cases hwords : wordsOf name.toList with
  | nil =>
    rw [hwords] at hc
    cases hc
  | cons first rest =>
    rw [hwords] at hc hparts
    rcases List.mem_append.mp hc with hc | hc
    · exact lowerWord_isAlphanumeric (hparts first List.mem_cons_self) c hc
    · obtain ⟨word, hword, hc⟩ := List.mem_flatMap.mp hc
      exact capitalize_isAlphanumeric (hparts word (List.mem_cons_of_mem _ hword)) c hc

end Names

end Name
end EntitySdl
