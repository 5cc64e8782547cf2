import EntitySdl.Proofs.PatternForms
import EntitySdl.Proofs.Replacements

/-! # Endings of words

A rule of inflection looks at the end of a word, drops some of it and adds something
else.  What it does to a word therefore follows from finitely many endings, compared
without regard to case; so does whether it applies at all.
-/
namespace EntitySdl
namespace Name

open Text

/-- A text read from its end, in small letters. -/
def backwards (cs : List Char) : List Char := (cs.map Char.toLower).reverse

@[simp] theorem backwards_append (cs ds : List Char) :
    backwards (cs ++ ds) = backwards ds ++ backwards cs := by
  simp [backwards]

@[simp] theorem length_backwards (cs : List Char) : (backwards cs).length = cs.length := by
  simp [backwards]

@[simp] theorem backwards_eq_nil_iff {cs : List Char} : backwards cs = [] ↔ cs = [] := by
  simp [backwards]

theorem backwards_map {f : Char → Char} (hf : IsCasing f) {cs : List Char}
    (h : ∀ c ∈ cs, isNamePart c) : backwards (cs.map f) = backwards cs := by
  rw [backwards, backwards, List.map_map]
  exact congrArg List.reverse (List.map_congr_left fun c hc => hf.toLower_eq (h c hc))

/-- An ending of words and what becomes of it.  All texts are read from their ends. -/
structure Ending where
  /-- It is a word by itself and no ending of longer ones. -/
  whole : Bool
  /-- The characters that may stand at each place. -/
  slots : List (List Char)
  /-- How many characters are dropped. -/
  dropped : Nat
  /-- The characters that are added. -/
  added : List Char
  deriving DecidableEq

/-- The ending of every word, which nothing becomes of. -/
def Ending.unchanged : Ending := ⟨false, [], 0, []⟩

/-- A word, read from its end, has the ending. -/
def Ending.Fits (e : Ending) (word : List Char) : Prop :=
  ∃ text rest, word = text ++ rest ∧ List.Forall₂ (fun slot c => c ∈ slot) e.slots text ∧
    (e.whole → rest = [])

/-- The parts of a word and of the result that an ending has. -/
structure Ending.Parts (e : Ending) (word result : String) (stem kept dropped added : List Char) :
    Prop where
  /-- The word is made of a stem and the ending, of which a part is kept. -/
  word_eq : word.toList = stem ++ (kept ++ dropped)
  /-- The characters of the ending stand at their places. -/
  fits : List.Forall₂ (fun slot c => c ∈ slot) e.slots (backwards (kept ++ dropped))
  /-- There is no stem when the ending is the whole word. -/
  stem_eq : e.whole → stem = []
  /-- The rest of the ending is dropped. -/
  dropped_length : dropped.length = e.dropped
  /-- The kept part takes over the case of the word. -/
  result_eq : result.toList = stem ++ ((restoreCase word (String.ofList kept)).toList ++ added)
  /-- What is added. -/
  added_eq : backwards added = e.added
  /-- It is made of characters of names. -/
  isNamePart : ∀ c ∈ added, isNamePart c

/-- A word is turned into another by an ending. -/
def Ending.Turns (e : Ending) (word result : String) : Prop :=
  ∃ stem kept dropped added, e.Parts word result stem kept dropped added

/-- The kept part of a word in the case of the word. -/
theorem kept_toList {word : String} {kept : List Char} (h : ∀ c ∈ kept, isNamePart c) :
    ∃ f, IsCasing f ∧ (restoreCase word (String.ofList kept)).toList = kept.map f := by
  have := @restoreCase_toList word (String.ofList kept) (by
    rw [String.toList_ofList]
    exact fun c hc => toNat_lt_of_isNamePart (h c hc))
  rwa [String.toList_ofList] at this

theorem kept_nil {word : String} : (restoreCase word (String.ofList [])).toList = [] := by
  obtain ⟨f, -, h⟩ := @kept_toList word [] (by simp)
  exact h

/-- No reference stands in the kept part of a name. -/
theorem dollar_notMem_kept {word : String} {kept : List Char} (h : ∀ c ∈ kept, isNamePart c) :
    '$' ∉ (restoreCase word (String.ofList kept)).toList := by
  obtain ⟨f, hf, hcase⟩ := @kept_toList word kept h
  rw [hcase]
  intro hdollar
  obtain ⟨c, hc, hdollar⟩ := List.mem_map.mp hdollar
  exact ne_dollar_of_isNamePart (hf.isNamePart (h c hc)) hdollar

namespace Ending

variable {e : Ending} {word result : String}

theorem Turns.fits (h : e.Turns word result) : e.Fits (backwards word.toList) := by
  obtain ⟨stem, kept, dropped, added, h⟩ := h
  refine ⟨_, backwards stem, ?_, h.fits, fun hwhole => ?_⟩
  · rw [h.word_eq, backwards_append]
  · rw [h.stem_eq hwhole]
    rfl

/-- Up to case, an ending drops the end of a word and adds its own. -/
theorem Turns.backwards_eq (hword : ∀ c ∈ word.toList, isNamePart c) (h : e.Turns word result) :
    backwards result.toList = e.added ++ (backwards word.toList).drop e.dropped := by
  obtain ⟨stem, kept, dropped, added, h⟩ := h
  have hkept : ∀ c ∈ kept, isNamePart c := fun c hc => hword c (by simp [h.word_eq, hc])
  obtain ⟨f, hf, hrestored⟩ := @kept_toList word kept hkept
  have hdrop : (backwards dropped ++ (backwards kept ++ backwards stem)).drop e.dropped =
      backwards kept ++ backwards stem :=
    List.drop_left' (by rw [length_backwards, h.dropped_length])
  rw [h.result_eq, hrestored, h.word_eq]
  simp only [backwards_append, backwards_map hf hkept, h.added_eq, List.append_assoc, hdrop]

/-- Up to case, what stands before the dropped characters is kept. -/
theorem Turns.exists_rest (hword : ∀ c ∈ word.toList, isNamePart c) (h : e.Turns word result) :
    ∃ cut kept rest, backwards word.toList = cut ++ (kept ++ rest) ∧
      backwards result.toList = e.added ++ (kept ++ rest) ∧ cut.length = e.dropped ∧
        List.Forall₂ (fun slot c => c ∈ slot) (e.slots.take e.dropped) cut ∧
          List.Forall₂ (fun slot c => c ∈ slot) (e.slots.drop e.dropped) kept := by
  have hresult := h.backwards_eq hword
  obtain ⟨stem, kept, dropped, added, h⟩ := h
  have hlength : e.dropped = (backwards dropped).length := by
    rw [length_backwards, h.dropped_length]
  have hfits := h.fits
  rw [h.word_eq, backwards_append, backwards_append, List.append_assoc] at hresult ⊢
  rw [backwards_append] at hfits
  refine ⟨backwards dropped, backwards kept, backwards stem, rfl, ?_, hlength.symm, ?_, ?_⟩
  · rw [hresult, hlength, List.drop_left]
  · simpa [hlength] using List.forall₂_take e.dropped hfits
  · simpa [hlength] using List.forall₂_drop e.dropped hfits

theorem Turns.isNamePart (hword : ∀ c ∈ word.toList, isNamePart c) (h : e.Turns word result) :
    ∀ c ∈ result.toList, isNamePart c := by
  obtain ⟨stem, kept, dropped, added, h⟩ := h
  obtain ⟨f, hf, hrestored⟩ :=
    @kept_toList word kept (fun c hc => hword c (by simp [h.word_eq, hc]))
  rw [h.result_eq, hrestored, List.forall_mem_append, List.forall_mem_append, List.forall_mem_map]
  exact ⟨fun c hc => hword c (by simp [h.word_eq, hc]),
    fun c hc => hf.isNamePart (hword c (by simp [h.word_eq, hc])), h.isNamePart⟩

theorem unchanged_turns_iff : unchanged.Turns word result ↔ result = word := by
  constructor
  · rintro ⟨stem, kept, dropped, added, h⟩
    have hslots := h.fits
    have hadded := h.added_eq
    simp only [unchanged, List.forall₂_nil_left_iff, backwards_eq_nil_iff,
      List.append_eq_nil_iff] at hslots hadded
    obtain ⟨rfl, rfl⟩ := hslots
    rw [← String.toList_inj, h.result_eq, h.word_eq, kept_nil, hadded]
  · rintro rfl
    refine ⟨result.toList, [], [], [], ?_, .nil, (fun h => by cases h), rfl, ?_, rfl, by simp⟩
    · simp
    · rw [kept_nil, List.append_nil, List.append_nil]

end Ending

/-! ## The endings of a rule -/

namespace Pattern

/-- The groups of a form, the whole text before them. -/
def Form.parts (form : Form) : List (Nat × Nat) := (0, form.slots.length) :: form.groups

/-- How much of the text of a form a replacement keeps, and what it adds to it. -/
def Form.split (form : Form) : List Char → Nat × List Char
  | '$' :: d :: tail => (((form.parts[d.toNat - '0'.toNat]?).map (·.2)).getD 0, tail)
  | replacement => (0, replacement)

/-- The ending that a form and a replacement make. -/
def Form.ending (form : Form) (replacement : List Char) : Ending where
  whole := form.anchor != .anywhere
  slots := form.slots.reverse
  dropped := form.slots.length - (form.split replacement).1
  added := (dropReferences (form.split replacement).2).reverse

/-- Whether a replacement begins with the start of the text of a form, if it refers to
any of it, and adds nothing but small letters. -/
def Form.suits (form : Form) (replacement : List Char) : Bool :=
  (form.anchor == .anywhere || !form.slots.isEmpty) && decide (form.groups.length < 9) &&
    refersFrom 0 replacement && refersFrom form.parts.length (form.split replacement).2 &&
      (dropReferences (form.split replacement).2).all (fun c => c.toLower == c) &&
        match replacement with
        | '$' :: d :: _ => (form.parts[d.toNat - '0'.toNat]?).any (·.1 == 0)
        | _ => true

end Pattern

open Pattern

/-- The endings that a rule is about. -/
def Rule.endings (rule : Rule) : List Ending :=
  match rule.pattern with
  | .seq p .finish => p.forms.map (·.ending rule.replacement.toList)
  | _ => []

/-- Whether a rule looks at nothing but an ending and keeps only its start. -/
def Rule.isPlain (rule : Rule) : Bool :=
  match rule.pattern with
  | .seq p .finish => p.isPlain && p.forms.all (·.suits rule.replacement.toList)
  | _ => false

/-! ## What a search finds -/

section Search

variable {p : Pattern} {word stem text : List Char} {anchor : Anchor}

theorem Pattern.Anchor.holds_iff (hstem : ∀ c ∈ stem, isNamePart c)
    (htext : ∀ c ∈ text, isNamePart c) (hne : text ≠ []) :
    anchor.holds ⟨stem.reverse, text, []⟩ ↔ anchor = .anywhere ∨ stem = [] := by
  have hhead : text.head?.any isWordCharacter := by
    obtain ⟨c, cs, rfl⟩ := List.exists_cons_of_ne_nil hne
    exact isWordCharacter_of_isNamePart (htext c List.mem_cons_self)
  have hlast : stem.reverse.head?.any isWordCharacter ↔ stem ≠ [] := by
    rw [List.head?_reverse]
    cases hlast : stem.getLast? with
    | none => simp [List.getLast?_eq_none_iff.mp hlast]
    | some c =>
      have hmem := List.mem_of_getLast? hlast
      simp [isWordCharacter_of_isNamePart (hstem c hmem), List.ne_nil_of_mem hmem]
  cases anchor with
  | anywhere => simp [Anchor.holds]
  | start => simp [Anchor.holds]
  | wordEdge =>
    rw [Anchor.holds, Place.atWordEdge, hhead, Bool.bne_true, Bool.not_eq_true', Bool.eq_false_iff]
    simpa using (not_congr hlast)

/-- A pattern at the end of a name is found where one of its forms stands there. -/
theorem Pattern.find?_finish_eq_some (hp : p.isPlain) (hword : ∀ c ∈ word, isNamePart c)
    {m : Match} (h : (Pattern.seq p .finish).find? word = some m) :
    ∃ form ∈ p.forms, form.anchor.holds ⟨m.before.reverse, m.text, []⟩ ∧ form.Reads m.text ∧
      word = m.before ++ m.text ∧ m.groups = form.cut m.text ∧ m.after = [] := by
  obtain ⟨stem, rest, last, rfl, hlast, rfl⟩ := findFrom_eq_some h
  obtain ⟨middle, hmiddle, hfinish⟩ := List.mem_flatMap.mp hlast
  obtain ⟨form, hform, hanchor, text, behind, hrest, htext, rfl⟩ :=
    (mem_reach_iff hp fun c hc => hword c (List.mem_append_right _ hc)).mp hmiddle
  rw [reach] at hfinish
  split at hfinish
  · rename_i hbehind
    cases List.mem_singleton.mp hfinish
    cases List.isEmpty_iff.mp hbehind
    dsimp only at hrest hanchor
    rw [List.append_nil] at hrest hanchor
    subst hrest
    refine ⟨form, hform, ?_, ?_, ?_, ?_, rfl⟩ <;>
      simp only [Place.textSince, List.append_nil, List.reverse_reverse, List.length_nil,
        Nat.sub_zero, List.take_length]
    · exact hanchor
    · exact htext
  · cases hfinish

/-- Where it is not found, none of its forms stands there. -/
theorem Pattern.find?_finish_eq_none (hp : p.isPlain)
    (hword : ∀ c ∈ stem ++ text, isNamePart c)
    (h : (Pattern.seq p .finish).find? (stem ++ text) = none) {form : Form}
    (hform : form ∈ p.forms) (htext : form.Reads text) :
    ¬ form.anchor.holds ⟨stem.reverse, text, []⟩ := by
  intro hanchor
  have hreach := reach_eq_nil_of_findFrom h
  rw [List.append_nil] at hreach
  have hmiddle := (mem_reach_iff hp fun c hc => hword c (List.mem_append_right _ hc)).mpr
    ⟨form, hform, hanchor, text, [], (List.append_nil _).symm, htext, rfl⟩
  have hlast : (⟨text.reverse ++ stem.reverse, [], (form.cut text).reverse ++ []⟩ : Place) ∈
      (Pattern.seq p .finish).reach ⟨stem.reverse, text, []⟩ :=
    List.mem_flatMap.mpr ⟨_, hmiddle, List.mem_singleton.mpr rfl⟩
  rw [hreach] at hlast
  cases hlast

/-- A text fits a form when the ending of the form fits it. -/
theorem Pattern.Form.reads_iff {form : Form} (htext : ∀ c ∈ text, isNamePart c) :
    form.Reads text ↔
      List.Forall₂ (fun slot c => c ∈ slot) form.slots.reverse (backwards text) := by
  have hfold : text.map fold = text.map Char.toLower :=
    List.map_congr_left fun c hc => fold_of_isNamePart (htext c hc)
  rw [backwards, List.forall₂_reverse_iff, ← hfold, List.forall₂_map_right_iff]
  exact Iff.rfl

end Search

/-! ## What a rule does -/

theorem Rule.exists_of_isPlain {rule : Rule} (h : rule.isPlain) :
    ∃ p, rule.pattern = .seq p .finish ∧ p.isPlain ∧
      (∀ form ∈ p.forms, form.suits rule.replacement.toList) ∧
        rule.endings = p.forms.map (·.ending rule.replacement.toList) := by
  unfold Rule.isPlain at h
  split at h
  · rename_i p hp
    rw [Bool.and_eq_true, List.all_eq_true] at h
    refine ⟨p, hp, h.1, h.2, ?_⟩
    simp only [Rule.endings, hp]
  · cases h

theorem Rule.isPlain_of_mem : ∀ rule ∈ pluralRules ++ singularRules ++ uncountableRules,
    rule.isPlain := by
  decide +kernel

section Suited

variable {form : Form} {replacement text : List Char} {f : Char → Char}

/-- A form may begin at a place of a name when a stem before it is allowed. -/
theorem Pattern.Form.holds_iff_of_suits (hsuits : form.suits replacement) {stem : List Char}
    (hstem : ∀ c ∈ stem, isNamePart c) (htext : ∀ c ∈ text, isNamePart c)
    (hreads : form.Reads text) : form.anchor.holds ⟨stem.reverse, text, []⟩ ↔
      ((form.ending replacement).whole → stem = []) := by
  simp only [Form.suits, Bool.and_eq_true, Bool.or_eq_true, beq_iff_eq] at hsuits
  rcases hsuits.1.1.1.1.1 with hanchor | hslots
  · simp [Form.ending, hanchor, Anchor.holds]
  · have hne : text ≠ [] := by
      rintro rfl
      cases List.forall₂_nil_right_iff.mp hreads ▸ hslots
    rw [Anchor.holds_iff hstem htext hne, Form.ending, bne_iff_ne, ne_eq, ← or_iff_not_imp_left]

/-- What a suitable replacement makes of a text: it keeps the start and adds something. -/
theorem Pattern.Form.fillIn_eq (hsuits : form.suits replacement) (hf : IsCasing f)
    (hreads : form.Reads text) {restored : List Char → List Char} (hnil : restored [] = []) :
    fillIn (fun _ => []) ((text :: form.cut text).map restored) (replacement.map f) =
      restored (text.take (form.split replacement).1) ++
        (dropReferences (form.split replacement).2).map f := by
  simp only [Form.suits, Bool.and_eq_true, decide_eq_true_eq] at hsuits
  obtain ⟨⟨⟨⟨-, hall⟩, hrest⟩, -⟩, hkeeps⟩ := hsuits
  have hcut : text :: form.cut text =
      form.parts.map fun group => (text.drop group.1).take group.2 := by
    rw [Form.parts, List.map_cons, List.drop_zero, ← hreads.length_eq, List.take_length]
    rfl
  have hlength : ((text :: form.cut text).map restored).length = form.parts.length := by
    rw [hcut, List.length_map, List.length_map]
  have hadded : ∀ tail, refersFrom form.parts.length tail →
      fillIn (fun _ => []) ((text :: form.cut text).map restored) (tail.map f) =
        (dropReferences tail).map f := by
    intro tail htail
    rw [fillIn_of_refersFrom (by rw [hlength]; exact refersFrom_map hf htail),
      dropReferences_map hf (refersFrom_zero htail)]
  revert hkeeps hrest
  fun_cases Form.split form replacement with
  | case1 d tail =>
    intro hkeeps hrest
    simp only [refersFrom, Bool.and_eq_true] at hall
    obtain ⟨⟨_, length⟩, hpart, hstart⟩ := (Option.any_eq_true _ _).mp hkeeps
    cases beq_iff_eq.mp hstart
    have hmap : ('$' :: d :: tail).map f = '$' :: d :: tail.map f := by
      rw [List.map_cons, List.map_cons, hf.dollar, hf.digit hall.1.1]
    rw [hmap, fillIn, hadded tail hrest, hcut, List.map_map, List.getElem?_map, hpart]
    rfl
  | case2 _ =>
    intro _ hrest
    rw [hadded replacement hrest, List.take_zero, hnil]
    rfl

theorem Pattern.Form.cut_isNamePart (htext : ∀ c ∈ text, isNamePart c) :
    ∀ part ∈ text :: form.cut text, ∀ c ∈ part, isNamePart c := by
  rw [List.forall_mem_cons, Form.cut, List.forall_mem_map]
  exact ⟨htext, fun group _ c hc => htext c (List.mem_of_mem_drop (List.mem_of_mem_take hc))⟩

/-- A suitable replacement adds small letters of names. -/
theorem Pattern.Form.added_isNamePart (hsuits : form.suits replacement) :
    (∀ c ∈ dropReferences (form.split replacement).2, isNamePart c) ∧
      ∀ c ∈ dropReferences (form.split replacement).2, c.toLower = c := by
  simp only [Form.suits, Bool.and_eq_true, List.all_eq_true, beq_iff_eq] at hsuits
  exact ⟨dropReferences_isNamePart (refersFrom_zero hsuits.1.1.2), hsuits.1.2⟩

end Suited

namespace Rule

variable {rule : Rule} {word result : String} {form : Form} {m : Match}

/-- What a rule makes of a name in which a suitable form is found. -/
theorem inflected_eq (hsuits : form.suits rule.replacement.toList)
    (hbefore : ∀ c ∈ m.before, isNamePart c) (htext : ∀ c ∈ m.text, isNamePart c)
    (hreads : form.Reads m.text) (hgroups : m.groups = form.cut m.text) :
    ∃ f, IsCasing f ∧ dropReferences (m.before ++ rule.replacementFor word m) =
      m.before ++ ((restoreCase word
          (String.ofList (m.text.take (form.split rule.replacement.toList).1))).toList ++
        (dropReferences (form.split rule.replacement.toList).2).map f) := by
  have hrestored : ∀ text ∈ m.text :: m.groups,
      '$' ∉ (restoreCase word (String.ofList text)).toList := by
    rw [hgroups]
    exact fun text h => dollar_notMem_kept (Form.cut_isNamePart htext text h)
  have hparts := hsuits
  simp only [Form.suits, Bool.and_eq_true, decide_eq_true_eq] at hparts
  obtain ⟨⟨⟨⟨⟨-, hcount⟩, hall⟩, -⟩, -⟩, -⟩ := hparts
  obtain ⟨f, hf, htemplate⟩ := @restoreCase_toList word rule.replacement (ascii_of_refersFrom hall)
  have hrefers := htemplate ▸ refersFrom_map hf hall
  have hfill := rule.replacementFor_eq hrefers
    (by rw [hgroups, Form.cut, List.length_map]; exact hcount) hrestored
  refine ⟨f, hf, ?_⟩
  rw [dropReferences_append fun h => ne_dollar_of_isNamePart (hbefore _ h) rfl, hfill,
    dropReferences_fillIn hrefers (List.forall_mem_map.mpr hrestored), htemplate, hgroups]
  congr 1
  exact Form.fillIn_eq hsuits hf hreads kept_nil

/-- A rule that is found in a name turns it by one of its endings. -/
theorem exists_turns (hrule : rule.isPlain) (hword : ∀ c ∈ word.toList, isNamePart c)
    (h : rule.inflect? word = some result) : ∃ e ∈ rule.endings, e.Turns word result := by
  obtain ⟨p, hpattern, hp, hsuits, hendings⟩ := exists_of_isPlain hrule
  obtain ⟨m, hm, rfl⟩ := Option.map_eq_some_iff.mp h
  rw [hpattern] at hm
  obtain ⟨form, hform, hanchor, hreads, hmatch, hgroups, hafter⟩ :=
    find?_finish_eq_some hp hword hm
  have hsuits := hsuits form hform
  rw [hmatch, List.forall_mem_append] at hword
  obtain ⟨hbefore, htext⟩ := hword
  obtain ⟨f, hf, hresult⟩ := @inflected_eq rule word form m hsuits hbefore htext hreads hgroups
  obtain ⟨hnames, hsmall⟩ := Form.added_isNamePart hsuits
  refine ⟨form.ending rule.replacement.toList, hendings ▸ List.mem_map_of_mem hform, m.before,
    m.text.take (form.split rule.replacement.toList).1,
    m.text.drop (form.split rule.replacement.toList).1,
    (dropReferences (form.split rule.replacement.toList).2).map f, ?_, ?_, ?_, ?_, ?_, ?_, ?_⟩
  · rw [List.take_append_drop, hmatch]
  · rw [List.take_append_drop]
    exact (Form.reads_iff htext).mp hreads
  · exact (Form.holds_iff_of_suits hsuits hbefore htext hreads).mp hanchor
  · rw [List.length_drop, hreads.length_eq]
    rfl
  · rw [String.toList_ofList, hafter, List.append_nil, hresult]
  · rw [backwards_map hf hnames, backwards, List.map_congr_left hsmall, List.map_id']
    rfl
  · exact List.forall_mem_map.mpr fun c hc => hf.isNamePart (hnames c hc)

/-- A rule that is not found in a name has no ending that fits it. -/
theorem not_fits (hrule : rule.isPlain) (hword : ∀ c ∈ word.toList, isNamePart c)
    (h : rule.inflect? word = none) : ∀ e ∈ rule.endings, ¬ e.Fits (backwards word.toList) := by
  obtain ⟨p, hpattern, hp, hsuits, hendings⟩ := exists_of_isPlain hrule
  rw [hendings, List.forall_mem_map]
  rintro form hform ⟨text, rest, hsplit, htext, hwhole⟩
  have hnone := Option.map_eq_none_iff.mp h
  rw [hpattern] at hnone
  obtain ⟨stem, matched, hword', hstem, hmatched⟩ :=
    List.map_eq_append_iff.mp (List.reverse_eq_append_iff.mp hsplit)
  rw [hword'] at hnone hword
  have hparts : ∀ c ∈ matched, isNamePart c := fun c hc =>
    hword c (List.mem_append_right _ hc)
  have hreads : form.Reads matched := by
    rw [Form.reads_iff hparts, backwards, hmatched, List.reverse_reverse]
    exact htext
  refine find?_finish_eq_none hp hword hnone hform hreads ?_
  refine (Form.holds_iff_of_suits (hsuits form hform)
    (fun c hc => hword c (List.mem_append_left _ hc)) hparts hreads).mpr fun h => ?_
  rw [hwhole h, List.reverse_nil] at hstem
  exact List.map_eq_nil_iff.mp hstem

end Rule

end Name
end EntitySdl
