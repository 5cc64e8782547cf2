import EntitySdl.Proofs.Endings
import EntitySdl.Proofs.Success

/-! # Plurals and singulars

The plural and the singular of a name are both the name itself, or the two sides of an
irregular pair, or each what the first ending that fits makes of it.
-/
namespace EntitySdl
namespace Name

open Text

/-! ## The first ending that fits -/

/-- The endings that a list of rules may choose, each with those that must not fit for
that: the ones of earlier rules.  The last choice is to leave the word. -/
def branches (excluded : List Ending) : List (List Ending) → List (Ending × List Ending)
  | [] =>
    if excluded.any fun e => e.slots.isEmpty && !e.whole then []
    else [(.unchanged, excluded)]
  | endings :: rest => endings.map (·, excluded) ++ branches (endings ++ excluded) rest

/-- A word is turned into another by one of the choices. -/
def Chooses (choices : List (Ending × List Ending)) (word result : String) : Prop :=
  ∃ choice ∈ choices, choice.1.Turns word result ∧
    ∀ e ∈ choice.2, ¬ e.Fits (backwards word.toList)

theorem Ending.fits_of_slots_eq_nil {e : Ending} (hslots : e.slots = []) (hwhole : e.whole = false)
    (word : List Char) : e.Fits word :=
  ⟨[], word, rfl, hslots ▸ .nil, fun h => by rw [hwhole] at h; cases h⟩

namespace Ending

/-- Only letters are dropped. -/
def dropsLetters (e : Ending) : Bool :=
  (e.slots.take e.dropped).all fun slot => slot.all isAsciiLetter

theorem isAsciiLetter_of_dropsLetters {e : Ending} {cut : List Char} (he : e.dropsLetters)
    (hcut : List.Forall₂ (fun slot c => c ∈ slot) (e.slots.take e.dropped) cut) :
    ∀ c ∈ cut, isAsciiLetter c := by
  intro c hc
  obtain ⟨slot, hslot, hmem⟩ := exists_mem_of_forall₂ hcut.flip hc
  exact List.all_eq_true.mp (List.all_eq_true.mp he slot hslot) c hmem

end Ending

section Names

variable {word result : String}

/-- The first rule that applies makes one of the choices. -/
theorem chooses_findSome? (hword : ∀ c ∈ word.toList, isNamePart c) {rules : List Rule}
    (hrules : ∀ rule ∈ rules, rule.isPlain) {excluded : List Ending}
    (hexcluded : ∀ e ∈ excluded, ¬ e.Fits (backwards word.toList)) :
    Chooses (branches excluded (rules.map Rule.endings)) word
      ((rules.findSome? (·.inflect? word)).getD word) := by
  induction rules generalizing excluded with
  | nil =>
    have hnone : excluded.any (fun e => e.slots.isEmpty && !e.whole) = false := by
      rw [List.any_eq_false]
      intro e he hfits
      rw [Bool.and_eq_true, List.isEmpty_iff, Bool.not_eq_true'] at hfits
      exact hexcluded e he (Ending.fits_of_slots_eq_nil hfits.1 hfits.2 _)
    refine ⟨(.unchanged, excluded), ?_, Ending.unchanged_turns_iff.mpr rfl, hexcluded⟩
    rw [List.map_nil, branches, hnone]
    exact List.mem_singleton_self _
  | cons rule rules ih =>
    obtain ⟨hrule, hrules⟩ := List.forall_mem_cons.mp hrules
    rw [List.findSome?_cons, List.map_cons, branches]
    cases h : rule.inflect? word with
    | some result =>
      obtain ⟨e, he, hturns⟩ := Rule.exists_turns hrule hword h
      exact ⟨(e, excluded), List.mem_append_left _ (List.mem_map_of_mem he), hturns, hexcluded⟩
    | none =>
      have hfits := Rule.not_fits hrule hword h
      obtain ⟨choice, hchoice, hturns⟩ :=
        ih hrules (List.forall_mem_append.mpr ⟨hfits, hexcluded⟩)
      exact ⟨choice, List.mem_append_right _ hchoice, hturns⟩

theorem Chooses.isNamePart {choices : List (Ending × List Ending)}
    (hword : ∀ c ∈ word.toList, isNamePart c) (h : Chooses choices word result) :
    ∀ c ∈ result.toList, isNamePart c := by
  obtain ⟨choice, -, hturns, -⟩ := h
  exact hturns.isNamePart hword

end Names

/-- The endings of words without a plural. -/
def uncountableEndings : List Ending := uncountableRules.reverse.flatMap Rule.endings

/-- The choices for a plural of a word that has one. -/
def pluralChoices : List (Ending × List Ending) :=
  branches uncountableEndings (pluralRules.reverse.map Rule.endings)

/-- The choices for its singular. -/
def singularChoices : List (Ending × List Ending) :=
  branches [] (singularRules.reverse.map Rule.endings)

/-! ## Irregular words -/

theorem mem_of_lastUnder {pairs : List (String × String)} {key value : String}
    (h : lastUnder pairs key = some value) : (key, value) ∈ pairs := by
  obtain ⟨pair, hfind, rfl⟩ := Option.map_eq_some_iff.mp h
  have hmem := List.mem_of_find?_eq_some hfind
  have hkey := List.find?_some hfind
  rw [beq_iff_eq] at hkey
  rw [← hkey]
  simpa using hmem

theorem lastUnder_ne_none {pairs : List (String × String)} {key value : String}
    (h : (key, value) ∈ pairs) : lastUnder pairs key ≠ none := by
  intro hnone
  have hkey := List.find?_eq_none.mp (Option.map_eq_none_iff.mp hnone) _ (List.mem_reverse.mpr h)
  exact hkey (beq_self_eq_true key)

theorem irregularPairs_isNamePart : ∀ pair ∈ irregularPairs,
    (∀ c ∈ pair.1.toList, isNamePart c) ∧ ∀ c ∈ pair.2.toList, isNamePart c := by
  decide +kernel

/-- A word has the letters and digits of another, up to case. -/
structure Recases (text word : String) : Prop where
  /-- The characters of names are kept. -/
  isNamePart : ∀ c ∈ text.toList, isNamePart c
  /-- They are the same in small letters. -/
  backwards_eq : backwards text.toList = backwards word.toList

section Names

variable {word text : String}

theorem recases_restoreCase (h : ∀ c ∈ text.toList, isNamePart c) :
    Recases (restoreCase word text) text := by
  obtain ⟨f, hf, hrestored⟩ :=
    @restoreCase_toList word text fun c hc => toNat_lt_of_isNamePart (h c hc)
  refine ⟨?_, by rw [hrestored, backwards_map hf h]⟩
  rw [hrestored, List.forall_mem_map]
  exact fun c hc => hf.isNamePart (h c hc)

theorem recases_lowerText (h : ∀ c ∈ word.toList, isNamePart c) : Recases (lowerText word) word := by
  have hlower := lowerText_toList fun c hc => toNat_lt_of_isNamePart (h c hc)
  have hcasing : IsCasing Char.toLower := .inr (.inl rfl)
  refine ⟨?_, by rw [hlower, backwards_map hcasing h]⟩
  rw [hlower, List.forall_mem_map]
  exact fun c hc => isNamePart_toLower (h c hc)

theorem Recases.trans {other : String} (h : Recases text word) (h' : Recases word other) :
    Recases text other := ⟨h.isNamePart, h.backwards_eq.trans h'.backwards_eq⟩

/-- A word that has one form for both numbers: it is listed, or it has such an ending. -/
def HasOneForm (word : String) : Prop :=
  (∃ listed ∈ uncountableWords ++ irregularPairs.map Prod.fst, Recases word listed) ∨
    ∃ e ∈ uncountableEndings, e.Fits (backwards word.toList)

/-- A word with the ending of words without a plural is left as it is but for case. -/
theorem recases_of_uncountable (hword : ∀ c ∈ word.toList, isNamePart c)
    (h : uncountableRules.reverse.findSome? (·.inflect? word) = some text) :
    Recases text word ∧ HasOneForm word := by
  obtain ⟨rule, hrule, hinflect⟩ := List.exists_of_findSome?_eq_some h
  have hrule := List.mem_reverse.mp hrule
  obtain ⟨e, he, hturns⟩ := Rule.exists_turns
    (Rule.isPlain_of_mem rule (List.mem_append_right _ hrule)) hword hinflect
  have hkeeps : ∀ rule ∈ uncountableRules, ∀ e ∈ rule.endings, e.dropped = 0 ∧ e.added = [] := by
    decide +kernel
  obtain ⟨hdropped, hadded⟩ := hkeeps rule hrule e he
  refine ⟨⟨hturns.isNamePart hword, ?_⟩, .inr ⟨e, ?_, hturns.fits⟩⟩
  · rw [hturns.backwards_eq hword, hdropped, hadded, List.drop_zero, List.nil_append]
  · exact List.mem_flatMap.mpr ⟨rule, List.mem_reverse.mpr hrule, he⟩

/-! ## Both numbers -/

/-- The plural and the singular of a word, and how they come about. -/
inductive Numbers (word : String) : String → String → Prop
  /-- The word has one form. -/
  | alike {text : String} (h : Recases text word) (hone : HasOneForm word) :
    Numbers word text text
  /-- The word is one side of an irregular pair. -/
  | irregular {pair : String × String} {many one : String} (hpair : pair ∈ irregularPairs)
      (hne : pair.1 ≠ pair.2) (hmany : Recases many pair.2) (hone : Recases one pair.1)
      (hword : Recases word pair.1 ∨ Recases word pair.2) : Numbers word many one
  /-- Both are made by the rules. -/
  | regular {many one : String} (hmany : Chooses pluralChoices word many)
      (hone : Chooses singularChoices word one) : Numbers word many one

theorem Numbers.isNamePart {many one : String} (hword : ∀ c ∈ word.toList, isNamePart c)
    (h : Numbers word many one) :
    (∀ c ∈ many.toList, isNamePart c) ∧ ∀ c ∈ one.toList, isNamePart c := by
  cases h with
  | alike h => exact ⟨h.isNamePart, h.isNamePart⟩
  | irregular _ _ hmany hone => exact ⟨hmany.isNamePart, hone.isNamePart⟩
  | regular hmany hone => exact ⟨hmany.isNamePart hword, hone.isNamePart hword⟩

/-- Where neither number is irregular and no rule for words without a plural applies, the
rules for the wanted number do. -/
theorem findSome?_append_reverse {rules : List Rule}
    (h : uncountableRules.reverse.findSome? (·.inflect? word) = none) :
    (rules ++ uncountableRules).reverse.findSome? (·.inflect? word) =
      rules.reverse.findSome? (·.inflect? word) := by
  rw [List.reverse_append, List.findSome?_append, h, Option.none_or]

theorem chooses_plural (hword : ∀ c ∈ word.toList, isNamePart c)
    (h : uncountableRules.reverse.findSome? (·.inflect? word) = none) :
    Chooses pluralChoices word
      ((pluralRules.reverse.findSome? (·.inflect? word)).getD word) := by
  refine chooses_findSome? hword (fun rule hrule => ?_) fun e he => ?_
  · exact Rule.isPlain_of_mem rule (by simp [List.mem_reverse.mp hrule])
  · obtain ⟨rule, hrule, he⟩ := List.mem_flatMap.mp he
    have hplain := Rule.isPlain_of_mem rule (by simp [List.mem_reverse.mp hrule])
    exact Rule.not_fits hplain hword (List.findSome?_eq_none_iff.mp h rule hrule) e he

theorem chooses_singular (hword : ∀ c ∈ word.toList, isNamePart c) :
    Chooses singularChoices word
      ((singularRules.reverse.findSome? (·.inflect? word)).getD word) := by
  refine chooses_findSome? hword (fun rule hrule => ?_) (by simp)
  exact Rule.isPlain_of_mem rule (by simp [List.mem_reverse.mp hrule])

theorem swap_swap_irregularPairs :
    (irregularPairs.map Prod.swap).map Prod.swap = irregularPairs := by
  simp

/-- The two forms of an irregular word take over its case. -/
theorem irregular_of_mem {pair : String × String} (hpair : pair ∈ irregularPairs)
    (hne : pair.1 ≠ pair.2) (hside : Recases word pair.1 ∨ Recases word pair.2) :
    Numbers word (restoreCase word pair.2) (restoreCase word pair.1) :=
  have hparts := irregularPairs_isNamePart pair hpair
  .irregular hpair hne (recases_restoreCase hparts.2) (recases_restoreCase hparts.1) hside

/-- The numbers of a word on no side of an irregular pair are made by the rules. -/
theorem numbers_of_rules (h : isIdentifier word)
    (hone : lastUnder irregularPairs (lowerText word) = none)
    (hmany : lastUnder (irregularPairs.map Prod.swap) (lowerText word) = none) :
    Numbers word (plural word) (singular word) := by
  have hword := isNamePart_of_mem h
  have hback : Recases word (lowerText word) :=
    ⟨hword, (recases_lowerText hword).backwards_eq.symm⟩
  simp only [plural, singular, inflect, swap_swap_irregularPairs, hone, hmany,
    Option.isSome_none, Bool.false_eq_true, if_false]
  split
  · rename_i hlisted
    refine .alike ⟨hword, rfl⟩ (.inl ⟨_, List.mem_append_left _ ?_, hback⟩)
    refine List.contains_iff_mem.mp (hlisted.resolve_left fun hempty => ?_)
    -- a name is not empty
    have hnil := hback.backwards_eq
    rw [String.isEmpty_iff.mp hempty, String.toList_empty] at hnil
    rw [isIdentifier, backwards_eq_nil_iff.mp hnil] at h
    cases h
  · -- the rules for words without a plural stand behind all others and so come first
    cases huncountable : uncountableRules.reverse.findSome? (·.inflect? word) with
    | some text =>
      simp only [List.reverse_append, List.findSome?_append, huncountable, Option.some_or,
        Option.getD_some]
      exact .alike (recases_of_uncountable hword huncountable).1
        (recases_of_uncountable hword huncountable).2
    | none =>
      rw [findSome?_append_reverse huncountable, findSome?_append_reverse huncountable]
      exact .regular (chooses_plural hword huncountable) (chooses_singular hword)

/-- **The numbers of a name.**  How the plural and the singular of a name come about. -/
theorem numbers (h : isIdentifier word) : Numbers word (plural word) (singular word) := by
  have hword := isNamePart_of_mem h
  have hlower := recases_lowerText hword
  have hback : Recases word (lowerText word) := ⟨hword, hlower.backwards_eq.symm⟩
  cases hone : lastUnder irregularPairs (lowerText word) with
  | some many =>
    have hmem := mem_of_lastUnder hone
    cases hmany : lastUnder (irregularPairs.map Prod.swap) (lowerText word) with
    | some one =>
      -- the word is a singular and a plural, and is kept for both
      simp only [plural, singular, inflect, swap_swap_irregularPairs, hone, hmany,
        Option.isSome_some, if_true]
      refine .alike ((recases_restoreCase hlower.isNamePart).trans hlower) (.inl ⟨_, ?_, hback⟩)
      exact List.mem_append_right _ (List.mem_map_of_mem (f := Prod.fst) hmem)
    | none =>
      simp only [plural, singular, inflect, swap_swap_irregularPairs, hone, hmany,
        Option.isSome_some, Option.isSome_none, Bool.false_eq_true, if_true, if_false]
      refine irregular_of_mem hmem (fun hsame => ?_) (.inl hback)
      have hsame : lowerText word = many := hsame
      rw [← hsame] at hmem
      exact lastUnder_ne_none (List.mem_map_of_mem (f := Prod.swap) hmem) hmany
  | none =>
    cases hmany : lastUnder (irregularPairs.map Prod.swap) (lowerText word) with
    | some one =>
      obtain ⟨⟨first, second⟩, hmem, hpair⟩ := List.mem_map.mp (mem_of_lastUnder hmany)
      obtain ⟨rfl, rfl⟩ := Prod.mk.inj hpair
      simp only [plural, singular, inflect, swap_swap_irregularPairs, hone, hmany,
        Option.isSome_some, Option.isSome_none, Bool.false_eq_true, if_true, if_false]
      refine irregular_of_mem hmem (fun hsame => ?_) (.inr hback)
      have hsame : first = lowerText word := hsame
      rw [hsame] at hmem
      exact lastUnder_ne_none hmem hone
    | none => exact numbers_of_rules h hone hmany

end Names

end Name
end EntitySdl
