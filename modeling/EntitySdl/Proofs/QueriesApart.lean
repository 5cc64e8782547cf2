import EntitySdl.Proofs.EndingsApart
import EntitySdl.Proofs.GeneratedSdl

/-! # Queries that are kept apart

The queries of a model have different names when its plural and its singular differ in
more than case and underscores.  Every rule for plurals makes a longer word, or another,
than the rules for singulars do, but for the ending in `iam` or `uam`, which both leave.
There the plural can still differ from the singular, as it takes over the case of the
word, and this is all that differs.
-/
namespace EntitySdl
namespace Name

open Text

/-- The ending in `iam` or `uam`, which is left. -/
def Ending.keptAm : Ending := ⟨false, [['m'], ['a'], ['i', 'u']], 0, []⟩

/-- The choices for plurals and singulars are apart where they could make words of one
length, but for that ending. -/
theorem choices_apart : ∀ growth ∈ (pluralChoices.map (·.1.growth)).eraseDups,
    ∀ choice ∈ pluralChoices.filter (·.1.growth == growth),
      ∀ other ∈ singularChoices.filter (·.1.growth == growth),
        Ending.apart choice other ∨ choice.1 = .keptAm ∧ other.1 = .unchanged := by
  decide +kernel

/-- No choice touches an underscore, and none changes the length much. -/
theorem choices_plain :
    (∀ choice ∈ pluralChoices, choice.1.dropsLetters ∧ (∀ c ∈ choice.1.added, c ≠ '_') ∧
        choice.1.dropped ≤ choice.1.added.length + 1) ∧
      ∀ choice ∈ singularChoices, choice.1.dropsLetters ∧ (∀ c ∈ choice.1.added, c ≠ '_') ∧
        choice.1.added.length ≤ choice.1.dropped + 1 := by
  decide +kernel

section Numbers

variable {word many one : String}

theorem backwards_mem_smallParts (h : ∀ c ∈ word.toList, isNamePart c) :
    ∀ c ∈ backwards word.toList, c ∈ smallParts := by
  intro c hc
  obtain ⟨c, hmem, rfl⟩ := List.mem_map.mp (List.mem_reverse.mp hc)
  exact toLower_mem_smallParts (h c hmem)

theorem ne_underscore_of_letter {c : Char} (h : isAsciiLetter c) : c ≠ '_' := by
  rintro rfl
  cases h

/-- The dropped characters of a word are no underscores. -/
theorem Ending.Turns.take_ne_underscore {e : Ending} (hword : ∀ c ∈ word.toList, Name.isNamePart c)
    (h : e.Turns word many) (hdrops : e.dropsLetters) :
    e.dropped ≤ (backwards word.toList).length ∧
      ∀ c ∈ (backwards word.toList).take e.dropped, c ≠ '_' := by
  obtain ⟨cut, kept, rest, hsplit, -, hlength, hcut, -⟩ := h.exists_rest hword
  rw [hsplit, ← hlength, List.take_left, List.length_append]
  exact ⟨Nat.le_add_right _ _, fun c hc =>
    ne_underscore_of_letter (Ending.isAsciiLetter_of_dropsLetters hdrops hcut c hc)⟩

/-- Where the rules make the same of a word up to case and underscores, the word ends in
`iam` or `uam`, which is kept, and is its own singular. -/
theorem keptAm_of_bare_eq (hword : ∀ c ∈ word.toList, isNamePart c)
    (hmany : Chooses pluralChoices word many) (hone : Chooses singularChoices word one)
    (h : bare (backwards many.toList) = bare (backwards one.toList)) :
    Ending.keptAm.Turns word many ∧ one = word := by
  obtain ⟨choice, hchoice, hturns, hexcluded⟩ := hmany
  obtain ⟨other, hother, hturns', hexcluded'⟩ := hone
  obtain ⟨hdrops, hadded, -⟩ := choices_plain.1 choice hchoice
  obtain ⟨hdrops', hadded', -⟩ := choices_plain.2 other hother
  obtain ⟨hle, htake⟩ := hturns.take_ne_underscore hword hdrops
  obtain ⟨hle', htake'⟩ := hturns'.take_ne_underscore hword hdrops'
  rw [hturns.backwards_eq hword, hturns'.backwards_eq hword] at h
  -- underscores stand only in what neither of them drops
  have heq : choice.1.added ++ (backwards word.toList).drop choice.1.dropped =
      other.1.added ++ (backwards word.toList).drop other.1.dropped := by
    rcases Nat.le_total choice.1.dropped other.1.dropped with hdropped | hdropped
    · exact eq_of_bare_eq hdropped htake' hadded hadded' h
    · exact (eq_of_bare_eq hdropped htake hadded' hadded h.symm).symm
  have hgrowth := Ending.growth_eq hle hle' heq
  rcases choices_apart choice.1.growth (List.mem_eraseDups.mpr (List.mem_map_of_mem hchoice))
    choice (List.mem_filter.mpr ⟨hchoice, beq_self_eq_true _⟩)
    other (List.mem_filter.mpr ⟨hother, beq_iff_eq.mpr hgrowth.symm⟩) with hapart | ⟨hkept, hleft⟩
  · exact absurd heq (Ending.ne_of_apart hapart (backwards_mem_smallParts hword) hle hle'
      hturns.fits hturns'.fits hexcluded hexcluded')
  · rw [hkept] at hturns
    rw [hleft] at hturns'
    exact ⟨hturns, Ending.unchanged_turns_iff.mp hturns'⟩

/-! ## Lengths -/

theorem length_camel (hword : ∀ c ∈ word.toList, isNamePart c) :
    (camel word).toList.length = (bare (backwards word.toList)).length := by
  have h := congrArg List.length (small_camel hword)
  rwa [List.length_map, skeleton_eq hword, List.length_reverse] at h

theorem bare_eq_of_camel_eq (hmany : ∀ c ∈ many.toList, isNamePart c)
    (hone : ∀ c ∈ one.toList, isNamePart c) (h : camel many = camel one) :
    bare (backwards many.toList) = bare (backwards one.toList) := by
  rw [← List.reverse_inj, ← skeleton_eq hmany, ← skeleton_eq hone, ← small_camel hmany,
    ← small_camel hone, h]

theorem irregularPairs_apart : ∀ pair ∈ irregularPairs,
    (bare (backwards pair.1.toList)).length ≤ (bare (backwards pair.2.toList)).length + 3 ∧
      (pair.1 ≠ pair.2 → bare (backwards pair.2.toList) ≠ bare (backwards pair.1.toList)) := by
  decide +kernel

/-- An ending replaces letters by what it adds. -/
theorem Ending.Turns.length_bare {e : Ending} (hword : ∀ c ∈ word.toList, Name.isNamePart c)
    (h : e.Turns word many) (hdrops : e.dropsLetters) (hadded : ∀ c ∈ e.added, c ≠ '_') :
    (bare (backwards many.toList)).length + e.dropped =
      (bare (backwards word.toList)).length + e.added.length := by
  obtain ⟨cut, kept, rest, hsplit, hresult, hlength, hcut, -⟩ := h.exists_rest hword
  have hletters : bare cut = cut := bare_eq_self fun c hc =>
    ne_underscore_of_letter (Ending.isAsciiLetter_of_dropsLetters hdrops hcut c hc)
  rw [hsplit, hresult, bare_append, bare_append cut, hletters, bare_eq_self hadded,
    List.length_append, List.length_append, hlength]
  omega

/-- A singular is hardly longer than the plural. -/
theorem Numbers.length_le (hword : ∀ c ∈ word.toList, Name.isNamePart c)
    (h : Numbers word many one) :
    (bare (backwards one.toList)).length ≤ (bare (backwards many.toList)).length + 3 := by
  cases h with
  | alike => exact Nat.le_add_right _ _
  | irregular hpair _ hmany hone =>
    rw [hmany.backwards_eq, hone.backwards_eq]
    exact (irregularPairs_apart _ hpair).1
  | regular hmany hone =>
    obtain ⟨choice, hchoice, hturns, -⟩ := hmany
    obtain ⟨other, hother, hturns', -⟩ := hone
    obtain ⟨hdrops, hadded, hle⟩ := choices_plain.1 choice hchoice
    obtain ⟨hdrops', hadded', hle'⟩ := choices_plain.2 other hother
    have hlength := hturns.length_bare hword hdrops hadded
    have hlength' := hturns'.length_bare hword hdrops' hadded'
    omega

end Numbers

/-! ## Names that lose their case -/

/-- A name whose capitals in the ending `iam` or `uam` are given up in the plural, and in
camel case anyway. -/
structure LosesCase (name : String) (stem ending : List Char) : Prop where
  /-- The name ends so, -/
  name_eq : name.toList = stem ++ ending
  /-- but for case. -/
  ending_eq : ending.map Char.toLower ∈ ["iam".toList, "uam".toList]
  /-- There are capitals in the ending, -/
  capitals : ending.map Char.toLower ≠ ending
  /-- and small letters somewhere in the name. -/
  small : ∃ c ∈ name.toList, isLowercase c
  /-- Something stands before it, -/
  stem_ne : stem ≠ []
  /-- which does not begin with a capital. -/
  head : name.toList.head?.any isUppercase = false
  /-- The capitals make no difference in camel case. -/
  camel_eq : camel (String.ofList (stem ++ ending.map Char.toLower)) = camel name

section Casing

variable {word text : String}

theorem map_eq_self_iff {f : Char → Char} {cs : List Char} :
    cs.map f = cs ↔ ∀ c ∈ cs, f c = c := by
  have h : cs.map f = cs.map id ↔ ∀ c ∈ cs, f c = id c := List.map_inj_left
  rwa [List.map_id] at h

theorem eq_lowerText_iff (hword : ∀ c ∈ word.toList, isNamePart c) :
    word = lowerText word ↔ ∀ c ∈ word.toList, c.toLower = c := by
  rw [← String.toList_inj, lowerText_toList fun c hc => toNat_lt_of_isNamePart (hword c hc),
    eq_comm, map_eq_self_iff]

theorem eq_upperText_iff (hword : ∀ c ∈ word.toList, isNamePart c) :
    word = upperText word ↔ ∀ c ∈ word.toList, c.toUpper = c := by
  rw [← String.toList_inj, upperText_toList fun c hc => toNat_lt_of_isNamePart (hword c hc),
    eq_comm, map_eq_self_iff]

theorem toUpper_eq_iff {c : Char} (h : isNamePart c) : c.toUpper = c ↔ isLowercase c = false := by
  have := @Sdl.forall_isNamePart (fun c => (c.toUpper == c) == !isLowercase c) (by decide) c h
  rw [← beq_iff_eq, beq_iff_eq.mp this, Bool.not_eq_true']

/-- A part of a word that does not keep its case beside the word is in small letters there:
the word is neither in small letters nor in capitals and begins with no capital. -/
theorem restoreCase_eq_lowerText_of_ne (hword : ∀ c ∈ word.toList, isNamePart c)
    (htext : ∀ c ∈ text.toList, c ∈ word.toList) (h : restoreCase word text ≠ text) :
    word ≠ text ∧ (∃ c ∈ word.toList, isLowercase c) ∧
      word.toList.head?.any isUppercase = false ∧ restoreCase word text = lowerText text := by
  have hparts : ∀ c ∈ text.toList, isNamePart c := fun c hc => hword c (htext c hc)
  unfold restoreCase at h ⊢
  split at h
  · exact absurd rfl h
  · rename_i hself
    split at h
    · rename_i hlower
      rw [eq_lowerText_iff hword] at hlower
      exact absurd ((eq_lowerText_iff hparts).mpr fun c hc => hlower c (htext c hc)).symm h
    · rename_i hlower
      split at h
      · rename_i hupper
        rw [eq_upperText_iff hword] at hupper
        exact absurd ((eq_upperText_iff hparts).mpr fun c hc => hupper c (htext c hc)).symm h
      · rename_i hupper
        split at h
        · exact absurd rfl h
        · rename_i hhead
          refine ⟨hself, ?_, Bool.eq_false_iff.mpr hhead, ?_⟩
          · rw [eq_upperText_iff hword] at hupper
            push Not at hupper
            obtain ⟨c, hc, hne⟩ := hupper
            refine ⟨c, hc, ?_⟩
            rw [ne_eq, toUpper_eq_iff (hword c hc), Bool.not_eq_false] at hne
            exact hne
          · rw [if_neg hself, if_neg hlower, if_neg hupper, if_neg hhead]

/-- Conversely, beside such a word a text is put into small letters. -/
theorem restoreCase_eq_lowerText (hword : ∀ c ∈ word.toList, isNamePart c) (hne : word ≠ text)
    (hsmall : ∃ c ∈ word.toList, isLowercase c)
    (hhead : word.toList.head?.any isUppercase = false) :
    restoreCase word text = lowerText text := by
  have hupper : word ≠ upperText word := by
    rw [ne_eq, eq_upperText_iff hword]
    obtain ⟨c, hc, hlower⟩ := hsmall
    intro h
    rw [(toUpper_eq_iff (hword c hc)).mp (h c hc)] at hlower
    cases hlower
  rw [restoreCase, if_neg hne, if_neg hupper, hhead, if_neg Bool.false_ne_true, ite_self]

end Casing

section LosesCase

variable {name many one : String} {stem ending : List Char}

/-- The ending in small letters. -/
theorem forall₂_keptAm_iff :
    List.Forall₂ (fun slot c => c ∈ slot) Ending.keptAm.slots (backwards ending) ↔
      ending.map Char.toLower ∈ ["iam".toList, "uam".toList] := by
  have hslots : ∀ text : List Char,
      List.Forall₂ (fun slot c => c ∈ slot) Ending.keptAm.slots text.reverse ↔
        text ∈ ["iam".toList, "uam".toList] := by
    intro text
    constructor
    · intro h
      obtain ⟨m, _, hm, hrest, htext⟩ := List.forall₂_cons_left_iff.mp h
      obtain ⟨a, _, ha, hlast, rfl⟩ := List.forall₂_cons_left_iff.mp hrest
      obtain ⟨c, _, hc, hnil, rfl⟩ := List.forall₂_cons_left_iff.mp hlast
      cases hnil
      cases List.mem_singleton.mp hm
      cases List.mem_singleton.mp ha
      rw [List.reverse_eq_iff.mp htext]
      exact (by decide : ∀ c ∈ ['i', 'u'],
        ['m', 'a', c].reverse ∈ ["iam".toList, "uam".toList]) c hc
    · intro h
      rcases List.mem_cons.mp h with rfl | h
      · decide
      · cases List.mem_singleton.mp h
        decide
  exact hslots _

/-! ### From equal names to such an ending -/

/-- Where an ending in `iam` or `uam` is kept, and the plural is not the name itself, it is
the name with the ending in small letters. -/
theorem exists_losesCase (hname : ∀ c ∈ name.toList, isNamePart c)
    (h : Ending.keptAm.Turns name many) (hne : many ≠ name) (hcamel : camel many = camel name) :
    ∃ stem ending, LosesCase name stem ending := by
  obtain ⟨stem, kept, dropped, added, h⟩ := h
  cases List.length_eq_zero_iff.mp h.dropped_length
  cases backwards_eq_nil_iff.mp h.added_eq
  have hsplit := h.word_eq
  have hresult := h.result_eq
  have hfits := h.fits
  rw [List.append_nil] at hsplit hresult hfits
  have hchange : restoreCase name (String.ofList kept) ≠ String.ofList kept := by
    intro hkept
    rw [hkept, String.toList_ofList, ← hsplit] at hresult
    exact hne (String.toList_inj.mp hresult)
  obtain ⟨hself, hsmall, hhead, hlower⟩ := restoreCase_eq_lowerText_of_ne hname
    (by rw [String.toList_ofList, hsplit]; exact fun c hc => List.mem_append_right _ hc) hchange
  have hkept : ∀ c ∈ kept, isNamePart c := fun c hc =>
    hname c (hsplit ▸ List.mem_append_right _ hc)
  have hlowered : (lowerText (String.ofList kept)).toList = kept.map Char.toLower := by
    rw [lowerText_toList, String.toList_ofList]
    rw [String.toList_ofList]
    exact fun c hc => toNat_lt_of_isNamePart (hkept c hc)
  rw [hlower, hlowered] at hresult
  refine ⟨stem, kept, hsplit, ?_, ?_, hsmall, ?_, hhead, ?_⟩
  · exact forall₂_keptAm_iff.mp hfits
  · intro hcapitals
    refine hchange (String.toList_inj.mp ?_)
    rw [hlower, hlowered, hcapitals, String.toList_ofList]
  · rintro rfl
    exact hself (String.toList_inj.mp (by rw [hsplit, String.toList_ofList]; rfl))
  · rw [← hcamel, ← hresult, String.ofList_toList]

theorem Numbers.exists_losesCase (hname : ∀ c ∈ name.toList, Name.isNamePart c)
    (h : Numbers name many one) (hdiffer : many ≠ one) (hcamel : camel many = camel one) :
    ∃ stem ending, LosesCase name stem ending := by
  obtain ⟨hmany, hone⟩ := h.isNamePart hname
  have hbare := bare_eq_of_camel_eq hmany hone hcamel
  cases h with
  | alike => exact absurd rfl hdiffer
  | irregular hpair hne hmany hone =>
    rw [hmany.backwards_eq, hone.backwards_eq] at hbare
    exact absurd hbare ((irregularPairs_apart _ hpair).2 hne)
  | regular hmany hone =>
    obtain ⟨hturns, rfl⟩ := keptAm_of_bare_eq hname hmany hone hbare
    exact Name.exists_losesCase hname hturns hdiffer hcamel

/-! ### From such an ending to equal names -/

theorem LosesCase.startsIn (h : LosesCase name stem ending) :
    StartsIn Ending.keptAm.slots (backwards name.toList) := by
  refine startsIn_iff.mpr ⟨_, backwards stem, ?_, forall₂_keptAm_iff.mpr h.ending_eq⟩
  rw [h.name_eq, backwards_append]

theorem Ending.not_fits_of_meet {slots : List (List Char)} {e : Ending} {word : List Char}
    (h : StartsIn slots word) (hmeet : (meet slots e.slots).any List.isEmpty) :
    ¬ e.Fits word := by
  intro hfits
  rw [any_isEmpty_of_startsIn (startsIn_meet h (Ending.fits_iff.mp hfits).1)] at hmeet
  cases hmeet

/-- No other choice for a plural or a singular is made for a word with the ending, and none
of the words that are listed has it. -/
theorem keptAm_chosen :
    (∀ choice ∈ pluralChoices, choice.1 = .keptAm ∨ .keptAm ∈ choice.2 ∨
        (meet Ending.keptAm.slots choice.1.slots).any List.isEmpty) ∧
      (∀ choice ∈ singularChoices, choice.1 = .unchanged ∨
        (meet Ending.keptAm.slots choice.1.slots).any List.isEmpty) ∧
      (∀ e ∈ uncountableEndings, (meet Ending.keptAm.slots e.slots).any List.isEmpty) ∧
      (∀ listed ∈ uncountableWords ++ irregularPairs.map Prod.fst ++ irregularPairs.map Prod.snd,
        (meet Ending.keptAm.slots ((backwards listed.toList).map ([·]))).any List.isEmpty) := by
  decide +kernel

theorem not_recases_of_startsIn (h : StartsIn Ending.keptAm.slots (backwards name.toList))
    {listed : String} (hlisted : listed ∈ uncountableWords ++ irregularPairs.map Prod.fst ++
      irregularPairs.map Prod.snd) : ¬ Recases name listed := by
  intro hrecases
  have hmeet := keptAm_chosen.2.2.2 listed hlisted
  rw [hrecases.backwards_eq] at h
  rw [any_isEmpty_of_startsIn (startsIn_meet h (startsIn_singletons List.prefix_rfl))] at hmeet
  cases hmeet

/-- Of a word with the ending, the plural keeps the ending and the singular is the word. -/
theorem Numbers.of_startsIn (h : StartsIn Ending.keptAm.slots (backwards name.toList))
    (hnumbers : Numbers name many one) : Ending.keptAm.Turns name many ∧ one = name := by
  cases hnumbers with
  | alike _ hone =>
    rcases hone with ⟨listed, hlisted, hrecases⟩ | ⟨e, he, hfits⟩
    · exact absurd hrecases (not_recases_of_startsIn h (List.mem_append_left _ hlisted))
    · exact absurd hfits (Ending.not_fits_of_meet h (keptAm_chosen.2.2.1 e he))
  | irregular hpair _ _ _ hside =>
    rcases hside with hside | hside
    · exact absurd hside (not_recases_of_startsIn h (by simp [List.mem_map_of_mem hpair]))
    · exact absurd hside (not_recases_of_startsIn h (by simp [List.mem_map_of_mem hpair]))
  | regular hmany hone =>
    obtain ⟨choice, hchoice, hturns, hexcluded⟩ := hmany
    obtain ⟨other, hother, hturns', -⟩ := hone
    have hfits : Ending.keptAm.Fits (backwards name.toList) :=
      Ending.fits_iff.mpr ⟨h, fun hwhole => by cases hwhole⟩
    constructor
    · rcases keptAm_chosen.1 choice hchoice with hkept | hmem | hmeet
      · exact hkept ▸ hturns
      · exact absurd hfits (hexcluded _ hmem)
      · exact absurd hturns.fits (Ending.not_fits_of_meet h hmeet)
    · rcases keptAm_chosen.2.1 other hother with hleft | hmeet
      · exact Ending.unchanged_turns_iff.mp (hleft ▸ hturns')
      · exact absurd hturns'.fits (Ending.not_fits_of_meet h hmeet)

/-- The plural of a name that loses its case is the name with the ending in small letters. -/
theorem LosesCase.plural_toList (h : LosesCase name stem ending)
    (hname : ∀ c ∈ name.toList, isNamePart c) (hturns : Ending.keptAm.Turns name many) :
    many.toList = stem ++ ending.map Char.toLower := by
  obtain ⟨stem', kept, dropped, added, hparts⟩ := hturns
  cases List.length_eq_zero_iff.mp hparts.dropped_length
  cases backwards_eq_nil_iff.mp hparts.added_eq
  have hsplit := hparts.word_eq
  have hfits := hparts.fits
  have hending := forall₂_keptAm_iff.mpr h.ending_eq
  rw [List.append_nil] at hsplit hfits
  have hlength : kept.length = ending.length := by
    rw [← length_backwards kept, ← length_backwards ending, ← hfits.length_eq,
      ← hending.length_eq]
  obtain ⟨rfl, rfl⟩ := List.append_inj' (hsplit.symm.trans h.name_eq) hlength
  have hkept : ∀ c ∈ kept, isNamePart c := fun c hc =>
    hname c (hsplit ▸ List.mem_append_right _ hc)
  have hself : name ≠ String.ofList kept := by
    intro hname
    have hlist := congrArg String.toList hname
    rw [hsplit, String.toList_ofList] at hlist
    exact h.stem_ne (by simpa using hlist)
  rw [hparts.result_eq, restoreCase_eq_lowerText hname hself h.small h.head, List.append_nil,
    lowerText_toList, String.toList_ofList]
  rw [String.toList_ofList]
  exact fun c hc => toNat_lt_of_isNamePart (hkept c hc)

theorem wordsOf_append_underscore (cs ds : List Char) :
    wordsOf (cs ++ '_' :: ds) = wordsOf cs ++ wordsOf ds := by
  rw [wordsOf, splitAt_append_cons (by decide), List.flatMap_append]
  rfl

/-- Behind an underscore the ending is a word of its own, whose first letter camel case
makes a capital again. -/
theorem losesCase_append (hname : name.toList.head?.any isUppercase = false)
    (hending : ending ∈ ["Iam".toList, "Uam".toList]) :
    LosesCase (name ++ "_" ++ String.ofList ending) (name.toList ++ ['_']) ending := by
  have hsplit : (name ++ "_" ++ String.ofList ending).toList =
      name.toList ++ ['_'] ++ ending := by
    have hending : (String.ofList ending).toList = ending := String.toList_ofList
    rw [String.toList_append, String.toList_append, hending]
    rfl
  have hall : ∀ ending ∈ ["Iam".toList, "Uam".toList],
      ending.map Char.toLower ∈ ["iam".toList, "uam".toList] ∧
        ending.map Char.toLower ≠ ending ∧ 'a' ∈ ending ∧
          lowerWord ending = lowerWord (ending.map Char.toLower) ∧
            capitalize ending = capitalize (ending.map Char.toLower) ∧
              wordsOf ending = [ending] ∧
                wordsOf (ending.map Char.toLower) = [ending.map Char.toLower] := by
    decide
  obtain ⟨hsmall, hcapitals, ha, hlower, hcapitalize, hword, hword'⟩ := hall ending hending
  refine ⟨hsplit, hsmall, hcapitals, ⟨'a', ?_, by decide⟩, by simp, ?_, ?_⟩
  · rw [hsplit]
    exact List.mem_append_right _ ha
  · rw [hsplit]
    cases hlist : name.toList with
    | nil => rfl
    | cons c cs =>
      rw [hlist] at hname
      exact hname
  · rw [camel, camel, hsplit, String.toList_ofList, List.append_assoc, List.append_assoc,
      List.singleton_append, List.singleton_append, wordsOf_append_underscore,
      wordsOf_append_underscore, hword, hword']
    cases wordsOf name.toList with
    | nil => simp [hlower]
    | cons word words => simp [hcapitalize]

end LosesCase

end Name

namespace Generate
namespace Naming

open Name Text

variable {model : String}

theorem length_camel_append_s {many : String} (hmany : ∀ c ∈ many.toList, isNamePart c) :
    (camel (many ++ "s")).toList.length = (camel many).toList.length + 1 := by
  have hparts : ∀ c ∈ (many ++ "s").toList, isNamePart c := by
    rw [String.toList_append, List.forall_mem_append]
    exact ⟨hmany, by decide⟩
  have hs : (bare (backwards "s".toList)).length = 1 := by decide
  rw [length_camel hparts, length_camel hmany, String.toList_append, backwards_append,
    bare_append, List.length_append, hs, Nat.add_comm]

/-- **When the collection is called like the lookup.**  Exactly when capitals in the ending
`iam` or `uam` get lost. -/
theorem collectionQuery_eq_singleQuery_iff (h : isIdentifier model) :
    collectionQuery model = singleQuery model ↔ ∃ stem ending, LosesCase model stem ending := by
  have hname := isNamePart_of_mem h
  have hnumbers := numbers h
  rw [collectionQuery, singleQuery, pluralName]
  constructor
  · intro hcamel
    split at hcamel
    · -- the added letter makes the plural longer in camel case, too
      rename_i hsame
      have hlength := length_camel_append_s (hnumbers.isNamePart hname).1
      rw [hcamel, hsame] at hlength
      omega
    · rename_i hdiffer
      exact hnumbers.exists_losesCase hname hdiffer hcamel
  · rintro ⟨stem, ending, hloses⟩
    obtain ⟨hturns, hsingular⟩ := hnumbers.of_startsIn hloses.startsIn
    have hplural := hloses.plural_toList hname hturns
    have hdiffer : plural model ≠ singular model := by
      rw [hsingular]
      intro hsame
      rw [hsame, hloses.name_eq] at hplural
      exact hloses.capitals (List.append_cancel_left hplural).symm
    rw [if_neg hdiffer, hsingular, ← hloses.camel_eq, ← hplural, String.ofList_toList]

/-- So there are such names of every length. -/
theorem collectionQuery_append_eq {ending : List Char}
    (h : isIdentifier model) (hhead : model.toList.head?.any isUppercase = false)
    (hending : ending ∈ ["Iam".toList, "Uam".toList]) :
    collectionQuery (model ++ "_" ++ String.ofList ending) =
      singleQuery (model ++ "_" ++ String.ofList ending) := by
  have hparts : ∀ ending ∈ ["Iam".toList, "Uam".toList],
      ∀ c ∈ ("_" ++ String.ofList ending).toList, isNamePart c := by
    decide
  refine (collectionQuery_eq_singleQuery_iff ?_).mpr ⟨_, _, losesCase_append hhead hending⟩
  rw [String.append_assoc]
  exact isIdentifier_append h (hparts ending hending)

theorem length_singleQuery_le (h : isIdentifier model) :
    (singleQuery model).toList.length ≤ (collectionQuery model).toList.length + 3 := by
  have hname := isNamePart_of_mem h
  obtain ⟨hmany, hone⟩ := (numbers h).isNamePart hname
  have hlength := (numbers h).length_le hname
  rw [← length_camel hmany, ← length_camel hone] at hlength
  rw [collectionQuery, singleQuery, pluralName]
  split
  · rw [length_camel_append_s hmany]
    omega
  · exact hlength

/-- **Queries that are kept apart.**  The count of a model is called neither like the
collection nor like the lookup, and these two have one name exactly when the model's name
ends in `iam` or `uam` and capitals in that ending get lost. -/
theorem queries_apart (h : isIdentifier model) :
    collectionQuery model ≠ metaQuery model ∧ metaQuery model ≠ singleQuery model ∧
      (collectionQuery model = singleQuery model ↔
        ∃ stem ending, LosesCase model stem ending) := by
  have hmeta : (metaQuery model).toList.length = (collectionQuery model).toList.length + 4 := by
    rw [metaQuery, String.toList_append, List.length_append]
    rfl
  have hsingle := length_singleQuery_le h
  refine ⟨fun hsame => ?_, fun hsame => ?_, collectionQuery_eq_singleQuery_iff h⟩
  · rw [← hsame] at hmeta
    omega
  · rw [hsame] at hmeta
    omega

theorem queries_apart_fooIam : collectionQuery "foo_Iam" = singleQuery "foo_Iam" := by
  refine ((queries_apart (by decide)).2.2).mpr ⟨"foo_".toList, "Iam".toList, ?_⟩
  exact ⟨by decide, by decide, by decide, ⟨'f', by decide, by decide⟩, by decide, by decide,
    by decide⟩

end Naming
end Generate
end EntitySdl
