import EntitySdl.Generate.Naming
import EntitySdl.Name.Identifier

/-! # The characters of names in camel case

A name in camel case is made of letters and digits and of their images under
changes of case, none of which is a mark that ends the name of a field.
-/
namespace EntitySdl

open Text

/-- Whether a character may stand in the name before the arguments and the type
of a field. -/
def isHeadCharacter (c : Char) : Bool := c != '(' && c != ':'

theorem isHeadCharacter_iff {c : Char} : isHeadCharacter c ↔ c ≠ '(' ∧ c ≠ ':' := by
  simp [isHeadCharacter]

/-- A test that the two marks fail holds of characters of a name only. -/
theorem isHeadCharacter_of {test : Char → Bool} (hopen : test '(' = false)
    (hcolon : test ':' = false) {c : Char} (h : test c) : isHeadCharacter c := by
  refine isHeadCharacter_iff.mpr ⟨?_, ?_⟩
  · rintro rfl
    rw [hopen] at h
    cases h
  · rintro rfl
    rw [hcolon] at h
    cases h

theorem isHeadCharacter_ofNat {n : Nat} (h : 0x3A < n) : isHeadCharacter (Char.ofNat n) := by
  by_cases hn : n.isValidChar
  · refine @isHeadCharacter_of (fun c => decide (0x3A < c.toNat)) rfl rfl _ ?_
    rw [Char.ofNat, dif_pos hn]
    exact decide_eq_true h
  · rw [Char.ofNat, dif_neg hn]
    rfl

theorem isHeadCharacter_of_isIdentifier {name : String} (h : Name.isIdentifier name) :
    ∀ c ∈ name.toList, isHeadCharacter c := by
  intro c hc
  refine @isHeadCharacter_of Name.isNamePart rfl rfl _ ?_
  exact Name.isNamePart_of_mem h c hc

namespace Text

namespace CaseMap

/-- Whether all images of a case mapping lie above the punctuation of ASCII. -/
def imagesAbove (m : CaseMap) : Bool :=
  m.runs.all (fun run => decide (0x3A < run.2.2)) &&
    m.alternating.all (fun run => decide (0x3A < run.2.2)) &&
      m.expanding.all fun entry => entry.2.all fun n => decide (0x3A < n)

theorem image?_above {m : CaseMap} (h : m.imagesAbove) {n image : Nat}
    (himage : m.image? n = some image) : 0x3A < image := by
  simp only [imagesAbove, Bool.and_eq_true, List.all_eq_true, decide_eq_true_eq] at h
  obtain ⟨⟨hruns, halternating⟩, -⟩ := h
  unfold image? at himage
  rcases Option.or_eq_some_iff.mp himage with h' | ⟨-, h'⟩ <;>
    obtain ⟨run, hrun, h'⟩ := List.exists_of_findSome?_eq_some h' <;>
    simp only [Option.ite_none_right_eq_some, Option.some.injEq] at h'
  · have := hruns run hrun
    omega
  · have := halternating run hrun
    omega

theorem apply_isHeadCharacter {m : CaseMap} (h : m.imagesAbove) {c : Char}
    (hc : isHeadCharacter c) : ∀ d ∈ m.apply c, isHeadCharacter d := by
  intro d hd
  unfold apply at hd
  split at hd
  · rename_i image hfind
    obtain ⟨n, hn, rfl⟩ := List.mem_map.mp hd
    simp only [imagesAbove, Bool.and_eq_true, List.all_eq_true, decide_eq_true_eq] at h
    exact isHeadCharacter_ofNat (h.2 _ (List.mem_of_find?_eq_some hfind) n hn)
  · split at hd
    · rename_i himage
      cases List.mem_singleton.mp hd
      exact isHeadCharacter_ofNat (image?_above h himage)
    · cases List.mem_singleton.mp hd
      exact hc

end CaseMap

theorem ascii_isHeadCharacter {f : Char → Char}
    (h : ∀ n < 0x80, isHeadCharacter (Char.ofNat n) → isHeadCharacter (f (Char.ofNat n)))
    {c : Char} (hascii : c.toNat < 0x80) (hc : isHeadCharacter c) : isHeadCharacter (f c) := by
  have := h c.toNat hascii
  rw [Char.ofNat_toNat] at this
  exact this hc

theorem lower_isHeadCharacter {c : Char} (hc : isHeadCharacter c) :
    ∀ d ∈ lower c, isHeadCharacter d := by
  unfold lower
  split
  · rename_i hascii
    simpa using ascii_isHeadCharacter (by decide) hascii hc
  · exact CaseMap.apply_isHeadCharacter (by decide) hc

theorem upper_isHeadCharacter {c : Char} (hc : isHeadCharacter c) :
    ∀ d ∈ upper c, isHeadCharacter d := by
  unfold upper
  split
  · rename_i hascii
    simpa using ascii_isHeadCharacter (by decide) hascii hc
  · exact CaseMap.apply_isHeadCharacter (by decide) hc

end Text

namespace Name

theorem mem_of_mem_wordsOfPiece {mode : CaseMode} {word cs w : List Char}
    (hw : w ∈ wordsOfPiece mode word cs) : ∀ c ∈ w, c ∈ word ∨ c ∈ cs := by
  fun_induction wordsOfPiece mode word cs with
  | case1 => simp at hw
  | case2 mode word c =>
    cases List.mem_singleton.mp hw
    simp [or_comm]
  | case3 mode word c d cs h ih =>
    rcases List.mem_cons.mp hw with rfl | hw
    · intro e he
      rcases List.mem_cons.mp (List.mem_reverse.mp he) with rfl | he
      · exact .inr List.mem_cons_self
      · exact .inl he
    · intro e he
      exact .inr (List.mem_cons_of_mem _ ((ih hw e he).resolve_left (by simp)))
  | case4 mode word c d cs h h' ih =>
    rcases List.mem_cons.mp hw with rfl | hw
    · intro e he
      exact .inl (List.mem_reverse.mp he)
    · intro e he
      rcases ih hw e he with he | he
      · exact .inr (List.mem_cons.mpr (.inl (List.mem_singleton.mp he)))
      · exact .inr (List.mem_cons_of_mem _ he)
  | case5 mode word c d cs h h' ih =>
    intro e he
    rcases ih hw e he with he | he
    · rcases List.mem_cons.mp he with rfl | he
      · exact .inr List.mem_cons_self
      · exact .inl he
    · exact .inr (List.mem_cons_of_mem _ he)

theorem wordsOf_isHeadCharacter {name word : List Char} (hword : word ∈ wordsOf name) :
    ∀ c ∈ word, isHeadCharacter c := by
  intro c hc
  obtain ⟨piece, hpiece, hword⟩ := List.mem_flatMap.mp hword
  have hmem : c ∈ piece := (mem_of_mem_wordsOfPiece hword c hc).resolve_left (by simp)
  have halnum := splitAt_separates hpiece c hmem
  exact @isHeadCharacter_of isAlphanumeric rfl rfl _ (by simpa using halnum)

theorem lowerWord_isHeadCharacter {word : List Char} (h : ∀ c ∈ word, isHeadCharacter c) :
    ∀ c ∈ lowerWord word, isHeadCharacter c := by
  fun_induction lowerWord word with
  | case1 => simp
  | case2 => simp [isHeadCharacter, finalSigma]
  | case3 c hc => exact lower_isHeadCharacter (h c List.mem_cons_self)
  | case4 c d cs ih =>
    intro e he
    rcases List.mem_append.mp he with he | he
    · exact lower_isHeadCharacter (h c List.mem_cons_self) e he
    · exact ih (fun f hf => h f (List.mem_cons_of_mem _ hf)) e he

theorem capitalize_isHeadCharacter {word : List Char} (h : ∀ c ∈ word, isHeadCharacter c) :
    ∀ c ∈ capitalize word, isHeadCharacter c := by
  cases word with
  | nil => simp [capitalize]
  | cons c cs =>
    intro d hd
    rcases List.mem_append.mp hd with hd | hd
    · exact upper_isHeadCharacter (h c List.mem_cons_self) d hd
    · exact lowerWord_isHeadCharacter (fun f hf => h f (List.mem_cons_of_mem _ hf)) d hd

theorem pascal_isHeadCharacter (name : String) : ∀ c ∈ (pascal name).toList, isHeadCharacter c := by
  intro c hc
  rw [pascal, String.toList_ofList] at hc
  obtain ⟨word, hword, hc⟩ := List.mem_flatMap.mp hc
  exact capitalize_isHeadCharacter (wordsOf_isHeadCharacter hword) c hc

theorem camel_isHeadCharacter (name : String) : ∀ c ∈ (camel name).toList, isHeadCharacter c := by
  intro c hc
  rw [camel, String.toList_ofList] at hc
  split at hc
  · cases hc
  · rename_i first rest hwords
    rcases List.mem_append.mp hc with hc | hc
    · refine lowerWord_isHeadCharacter (@wordsOf_isHeadCharacter name.toList _ ?_) c hc
      rw [hwords]
      exact List.mem_cons_self
    · obtain ⟨word, hword, hc⟩ := List.mem_flatMap.mp hc
      refine capitalize_isHeadCharacter (@wordsOf_isHeadCharacter name.toList _ ?_) c hc
      rw [hwords]
      exact List.mem_cons_of_mem _ hword

end Name
end EntitySdl
