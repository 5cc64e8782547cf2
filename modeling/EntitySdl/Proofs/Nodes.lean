import EntitySdl.Proofs.Outline
import EntitySdl.Proofs.Pieces
import EntitySdl.Proofs.Strings

/-! # Nodes and what they are read from

Each node of a reading is itself read, from its start to its end.  A string in a
reading stands in the text where its node says, and ends with a quote.
-/
namespace EntitySdl
namespace Sdl

open Name Text Grammar Cursor Sdl.Tree

theorem textTo_length {c d : Cursor} (h : c.Reaches d) :
    c.offset + (c.textTo d).length = d.offset := by
  obtain ⟨text, hrest, hoffset⟩ := h
  rw [textTo, hrest, hoffset, Nat.add_sub_cancel_left, List.take_left]

/-- A node is read from one place to another. -/
structure IsReadAs (t : Tree Rule) (c d : Cursor) : Prop where
  /-- It begins with a token. -/
  solid : c.skip .spaced = c
  /-- Its children are read as its rule says. -/
  reads : Reads (.one (body t.rule)) c d t.children
  /-- It starts at the one place. -/
  start : t.start = c.offset
  /-- It ends at the other. -/
  finish : t.start + t.text.length = d.offset

section Readings

variable {goal : Goal Rule} {c d : Cursor} {ts us : List (Tree Rule)} {t : Tree Rule}

/-- A lexeme leaves no node but its own. -/
theorem rule_of_mem_lexeme {r : Rule} (h : sdl.Matches .spaced (.rule r) c d ts) (ht : t ∈ ts) :
    t.rule = r := by
  obtain ⟨us, -, rfl⟩ := matches_rule_iff.mp h
  rw [RuleBody.node] at ht
  split at ht
  · cases ht
  · cases List.mem_singleton.mp ht
    rfl

/-- Each node of a reading that is no lexeme is read itself. -/
theorem exists_isReadAs (h : Reads goal c d ts) (hc : Starts goal c) (ht : t ∈ ts)
    (hr : t.rule.isLexeme = false) : ∃ m n, c.Reaches m ∧ n.Reaches d ∧ IsReadAs t m n := by
  induction h using Reads.induct with
  | lexeme hr' h =>
    rw [rule_of_mem_lexeme h ht, hr'] at hr
    cases hr
  | @rule r c d ts hr' h =>
    cases List.mem_singleton.mp ht
    exact ⟨c, d, .refl c, .refl d, hc, h, rfl, textTo_length h.reaches⟩
  | @seq _ _ c m d ts us hfirst hsecond ihfirst ihsecond =>
    rcases List.mem_append.mp ht with ht | ht
    · obtain ⟨n, o, hn, ho, hread⟩ := ihfirst hc ht
      exact ⟨n, o, hn, ho.trans ((skip_reaches m .spaced).trans hsecond.reaches), hread⟩
    · obtain ⟨n, o, hn, ho, hread⟩ := ihsecond (skip_skip m) ht
      exact ⟨n, o, hfirst.reaches.trans ((skip_reaches m .spaced).trans hn), ho, hread⟩
  | left _ ih | right _ ih | present _ ih => exact ih hc ht
  | some hfirst hmore ihfirst ihmore =>
    rcases List.mem_append.mp ht with ht | ht
    · obtain ⟨n, o, hn, ho, hread⟩ := ihfirst hc ht
      exact ⟨n, o, hn, ho.trans hmore.reaches, hread⟩
    · obtain ⟨n, o, hn, ho, hread⟩ := ihmore trivial ht
      exact ⟨n, o, hfirst.reaches.trans hn, ho, hread⟩
  | @again _ c m d ts us hfirst hmore ihfirst ihmore =>
    have hskip := skip_reaches c .spaced
    rcases List.mem_append.mp ht with ht | ht
    · obtain ⟨n, o, hn, ho, hread⟩ := ihfirst (skip_skip c) ht
      exact ⟨n, o, hskip.trans hn, ho.trans hmore.reaches, hread⟩
    · obtain ⟨n, o, hn, ho, hread⟩ := ihmore trivial ht
      exact ⟨n, o, hskip.trans (hfirst.reaches.trans hn), ho, hread⟩
  | text | charWhere | finish | absent | none | stop | never => cases ht

/-- Whether an expression leaves no node of a rule. -/
def lacks (r : Rule) : Peg Rule → Bool
  | .text _ | .charWhere _ | .finish | .never _ => true
  | .rule other => other != r
  | .seq first second | .choice first second => lacks r first && lacks r second
  | .optional inner | .many inner => lacks r inner

/-- Whether a goal leaves no node of a rule. -/
def goalLacks (r : Rule) : Goal Rule → Bool
  | .one e | .more e => lacks r e

/-- Whether an expression ends with each node of a rule that it leaves. -/
def endsIn (r : Rule) : Peg Rule → Bool
  | .text _ | .charWhere _ | .finish | .never _ | .rule _ => true
  | .seq first second => lacks r first && endsIn r second
  | .choice first second => endsIn r first && endsIn r second
  | .optional inner => endsIn r inner
  | .many inner => lacks r inner

theorem rule_ne_of_lacks {r : Rule} (h : Reads goal c d ts) (hgoal : goalLacks r goal)
    (ht : t ∈ ts) : t.rule ≠ r := by
  induction h using Reads.induct with
  | lexeme _ h =>
    rw [rule_of_mem_lexeme h ht]
    exact bne_iff_ne.mp hgoal
  | rule =>
    cases List.mem_singleton.mp ht
    exact bne_iff_ne.mp hgoal
  | seq _ _ ihfirst ihsecond =>
    rw [goalLacks, lacks, Bool.and_eq_true] at hgoal
    exact (List.mem_append.mp ht).elim (ihfirst hgoal.1) (ihsecond hgoal.2)
  | left _ ih =>
    rw [goalLacks, lacks, Bool.and_eq_true] at hgoal
    exact ih hgoal.1 ht
  | right _ ih =>
    rw [goalLacks, lacks, Bool.and_eq_true] at hgoal
    exact ih hgoal.2 ht
  | present _ ih => exact ih hgoal ht
  | some _ _ ihfirst ihmore | again _ _ ihfirst ihmore =>
    exact (List.mem_append.mp ht).elim (ihfirst hgoal) (ihmore hgoal)
  | text | charWhere | finish | absent | none | stop | never => cases ht

/-- A node with which an expression ends is read up to the end. -/
theorem finish_of_endsIn {e : Peg Rule} (h : Reads (.one e) c d ts) (he : endsIn t.rule e)
    (ht : t ∈ ts) (hr : t.rule.isLexeme = false) : t.start + t.text.length = d.offset := by
  induction e generalizing c ts with
  | text => simp [(reads_text_iff.mp h).2.2] at ht
  | finish => simp [(reads_finish_iff.mp h).2.2] at ht
  | charWhere | never =>
    cases h
    cases ht
  | rule r =>
    by_cases hlexeme : r.isLexeme
    · rw [rule_of_mem_lexeme (matches_of_reads_lexeme hlexeme h) ht, hlexeme] at hr
      cases hr
    · obtain ⟨us, -, rfl⟩ := (reads_rule_iff (by simpa using hlexeme)).mp h
      cases List.mem_singleton.mp ht
      exact textTo_length h.reaches
  | seq first second _ ihsecond =>
    rw [endsIn, Bool.and_eq_true] at he
    obtain ⟨m, us, vs, hfirst, hsecond, rfl⟩ := reads_seq_iff.mp h
    rcases List.mem_append.mp ht with ht | ht
    · exact absurd rfl (rule_ne_of_lacks hfirst he.1 ht)
    · exact ihsecond hsecond he.2 ht
  | choice first second ihfirst ihsecond =>
    rw [endsIn, Bool.and_eq_true] at he
    rcases reads_choice_iff.mp h with h | h
    · exact ihfirst h he.1 ht
    · exact ihsecond h he.2 ht
  | optional inner ih =>
    cases h with
    | present h => exact ih h he ht
    | absent => cases ht
  | many inner => exact absurd rfl (rule_ne_of_lacks h he ht)

/-- So is the node with which another one ends. -/
theorem IsReadAs.exists_child {r : Rule} {child : Tree Rule} (h : IsReadAs t c d)
    (hchild : t.child? r = some child) (hr : r.isLexeme = false)
    (hends : endsIn r (body t.rule)) :
    ∃ m, c.Reaches m ∧ IsReadAs child m d ∧ child.rule = r ∧ child ∈ t.children := by
  have hmem := List.mem_filter.mp (List.mem_of_head? hchild)
  obtain rfl : child.rule = r := by simpa using hmem.2
  obtain ⟨m, n, hm, hn, hread⟩ := exists_isReadAs h.reads h.solid hmem.1 hr
  have hfinish := finish_of_endsIn h.reads hends hmem.1 hr
  obtain rfl := hn.eq_of_offset (hread.finish.symm.trans hfinish)
  exact ⟨m, hm, hread, rfl, hmem.1⟩

end Readings

section WithoutStrings

/-- Whether there is no string inside a rule. -/
def Rule.isStringFree : Rule → Bool
  | name | typeRef | number | enumValue | boolean | null | directiveLocation | operationType
  | blockStringContent | stringContent => true
  | _ => false

/-- Whether there is no string inside an expression. -/
def isStringFree : Peg Rule → Bool
  | .text _ | .charWhere _ | .finish | .never _ => true
  | .rule r => r.isStringFree
  | .seq first second | .choice first second => isStringFree first && isStringFree second
  | .optional inner | .many inner => isStringFree inner

/-- Whether there is no string inside a goal. -/
def goalIsStringFree : Goal Rule → Bool
  | .one e | .more e => isStringFree e

theorem isStringFree_body {r : Rule} (hr : r.isStringFree) : isStringFree (sdl r).body := by
  have hall : ∀ r : Rule, r.isStringFree → isStringFree (sdl r).body :=
    Rule.forall_iff.mpr (by decide)
  exact hall r hr

theorem strings_of_derives {mode : Mode} {goal : Goal Rule} {c d : Cursor} {ts : List (Tree Rule)}
    (h : sdl.Derives (fun _ => false) mode goal c d ts) (hgoal : goalIsStringFree goal) :
    stringsAll ts = [] := by
  induction h with
  | token htoken => cases htoken
  | @rule mode r c d ts _ _ ih =>
    have hts := ih (isStringFree_body hgoal)
    have hne : r ≠ .string := by
      rintro rfl
      cases hgoal
    rw [RuleBody.node]
    split
    · rfl
    · rw [stringsAll, strings, if_neg hne, hts, stringsAll, List.nil_append]
  | seq _ _ ihfirst ihsecond =>
    simp only [goalIsStringFree, isStringFree, Bool.and_eq_true] at hgoal
    rw [stringsAll_append, ihfirst hgoal.1, ihsecond hgoal.2, List.nil_append]
  | some _ _ ihfirst ihmore | again _ _ ihfirst ihmore =>
    rw [stringsAll_append, ihfirst hgoal, ihmore hgoal, List.nil_append]
  | left _ ih =>
    simp only [goalIsStringFree, isStringFree, Bool.and_eq_true] at hgoal
    exact ih hgoal.1
  | right _ ih =>
    simp only [goalIsStringFree, isStringFree, Bool.and_eq_true] at hgoal
    exact ih hgoal.2
  | present _ ih => exact ih hgoal
  | text | charWhere | finish | absent | none | stop | never => rfl

end WithoutStrings

section Strings

variable {goal : Goal Rule} {c d m : Cursor} {ts : List (Tree Rule)} {p : Nat × List Char}

/-- A string that ends with a quote stands between two places. -/
def StringBetween (c d : Cursor) (p : Nat × List Char) : Prop :=
  ∃ before text behind, c.rest = before ++ (text ++ '"' :: behind) ∧
    p = (c.offset + before.length, text ++ ['"']) ∧ d.rest.length ≤ behind.length

theorem StringBetween.before (h : StringBetween m d p) (hreaches : c.Reaches m) :
    StringBetween c d p := by
  obtain ⟨before, text, behind, hrest, rfl, hle⟩ := h
  obtain ⟨front, hfront, hoffset⟩ := hreaches
  refine ⟨front ++ before, text, behind, ?_, ?_, hle⟩
  · rw [hfront, hrest, List.append_assoc]
  · rw [hoffset, List.length_append, Nat.add_assoc]

theorem StringBetween.behind (h : StringBetween c m p) (hreaches : m.Reaches d) :
    StringBetween c d p := by
  obtain ⟨before, text, behind, hrest, hp, hle⟩ := h
  exact ⟨before, text, behind, hrest, hp, hreaches.length_le.trans hle⟩

theorem stringBetween_of_matches (h : sdl.Matches .spaced (.rule .string) c d ts)
    (hp : p ∈ stringsAll ts) : StringBetween c d p := by
  obtain ⟨us, rfl, hcases⟩ := string_cases h
  have hnodes : stringsAll us = [] := by
    rcases hcases with ⟨_, -, -, _, rfl⟩ | ⟨_, -, -, -, _, rfl⟩ <;> rfl
  rw [stringsAll, strings, if_pos rfl, hnodes, stringsAll, List.append_nil,
    List.mem_singleton] at hp
  have hquote : ∃ front, c.rest = front ++ ['"'] ++ d.rest := by
    rcases hcases with ⟨content, hrest, -, -⟩ | ⟨content, -, hrest, -, -⟩
    · exact ⟨blockQuotes ++ (content ++ ['"', '"']), by rw [hrest]; simp [blockQuotes]⟩
    · exact ⟨'"' :: content, by rw [hrest]; simp⟩
  obtain ⟨front, hrest⟩ := hquote
  rw [h.reaches.textTo_eq hrest] at hp
  refine ⟨[], front, d.rest, ?_, hp, le_rfl⟩
  rw [hrest]
  simp

/-- The strings of a reading stand where it is read, each of them up to a quote. -/
theorem stringBetween_of_reads (h : Reads goal c d ts) (hp : p ∈ stringsAll ts) :
    StringBetween c d p := by
  induction h using Reads.induct with
  | @lexeme r c d ts hr h =>
    by_cases hstring : r = .string
    · subst hstring
      exact stringBetween_of_matches h hp
    · have hall : ∀ r : Rule, r.isLexeme → r ≠ .string → r.isStringFree :=
        Rule.forall_iff.mpr (by decide)
      rw [strings_of_derives h.derives (hall r hr hstring)] at hp
      cases hp
  | @rule r c d ts hr h ih =>
    refine ih ?_
    have hne : r ≠ .string := by
      rintro rfl
      cases hr
    rwa [stringsAll, strings, if_neg hne, stringsAll, List.append_nil] at hp
  | @seq _ _ c m d ts us hfirst hsecond ihfirst ihsecond =>
    have hskip := skip_reaches m .spaced
    rw [stringsAll_append, List.mem_append] at hp
    rcases hp with hp | hp
    · exact (ihfirst hp).behind (hskip.trans hsecond.reaches)
    · exact (ihsecond hp).before (hfirst.reaches.trans hskip)
  | left _ ih | right _ ih | present _ ih => exact ih hp
  | some hfirst hmore ihfirst ihmore =>
    rw [stringsAll_append, List.mem_append] at hp
    rcases hp with hp | hp
    · exact (ihfirst hp).behind hmore.reaches
    · exact (ihmore hp).before hfirst.reaches
  | @again _ c m d ts us hfirst hmore ihfirst ihmore =>
    have hskip := skip_reaches c .spaced
    rw [stringsAll_append, List.mem_append] at hp
    rcases hp with hp | hp
    · exact ((ihfirst hp).behind hmore.reaches).before hskip
    · exact (ihmore hp).before (hskip.trans hfirst.reaches)
  | text | charWhere | finish | absent | none | stop | never => cases hp

end Strings

section Inside

variable {t child : Tree Rule} {ts : List (Tree Rule)}

theorem strings_subset_of_mem (h : t ∈ ts) : t.strings ⊆ stringsAll ts := by
  induction ts with
  | nil => cases h
  | cons u ts ih =>
    rw [stringsAll]
    rcases List.mem_cons.mp h with rfl | h
    · exact List.subset_append_left _ _
    · exact List.Subset.trans (ih h) (List.subset_append_right _ _)

theorem stringsAll_children_subset (t : Tree Rule) : stringsAll t.children ⊆ t.strings := by
  cases t with
  | node rule start text children =>
    rw [strings]
    split
    · exact List.subset_cons_self _ _
    · exact List.Subset.refl _

/-- The strings inside a node are strings of a node around it. -/
theorem strings_subset_of_child (h : child ∈ t.children) : child.strings ⊆ t.strings :=
  List.Subset.trans (strings_subset_of_mem h) (stringsAll_children_subset t)

theorem texts_subset_of_mem (r : Rule) (h : t ∈ ts) : t.textsOf r ⊆ textsOfAll r ts := by
  induction ts with
  | nil => cases h
  | cons u ts ih =>
    rw [textsOfAll]
    rcases List.mem_cons.mp h with rfl | h
    · exact List.subset_append_left _ _
    · exact List.Subset.trans (ih h) (List.subset_append_right _ _)

theorem textsOfAll_children_subset (r : Rule) (t : Tree Rule) :
    textsOfAll r t.children ⊆ t.textsOf r := by
  cases t with
  | node rule start text children =>
    rw [textsOf]
    split
    · exact List.subset_cons_self _ _
    · exact List.Subset.refl _

/-- So are the texts of nodes of a rule. -/
theorem texts_subset_of_child (r : Rule) (h : child ∈ t.children) :
    child.textsOf r ⊆ t.textsOf r :=
  List.Subset.trans (texts_subset_of_mem r h) (textsOfAll_children_subset r t)

end Inside

end Sdl
end EntitySdl
