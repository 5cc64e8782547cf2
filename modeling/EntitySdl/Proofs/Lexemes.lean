import EntitySdl.Proofs.Outline
import EntitySdl.Proofs.Relayout
import EntitySdl.Proofs.Strings
import EntitySdl.Proofs.TypeRefs

/-! # Lexemes laid out anew

A lexeme that ends before the cut is matched in the new text as in the old one.
Names, type references, numbers and words have no blanks, so that they are the same;
a string may be laid out anew itself, unless nothing stands behind the cut.  What
decides where a lexeme ends stands before the cut too, except that a line feed or the
end of the text ends each of them.
-/
namespace EntitySdl
namespace Sdl

open Name Text Grammar Cursor Peg Sdl.Tree

namespace Seam

variable {seam : Seam} {c c' d d' m m' : Cursor} {ts us : List (Tree Rule)} {mode : Mode}

/-- The same text leads to places behind which the texts are alike. -/
def SameText (seam : Seam) (c d c' d' : Cursor) : Prop :=
  ∃ text, c.rest = text ++ d.rest ∧ d.offset = c.offset + text.length ∧
    c'.rest = text ++ d'.rest ∧ d'.offset = c'.offset + text.length ∧ seam.Alike d.rest d'.rest

theorem SameText.alike (h : seam.SameText c d c' d') : seam.Alike d.rest d'.rest := by
  obtain ⟨_, -, -, -, -, h⟩ := h
  exact h

theorem SameText.refl (h : seam.Alike c.rest c'.rest) : seam.SameText c c c' c' :=
  ⟨[], rfl, rfl, rfl, rfl, h⟩

theorem SameText.trans (h : seam.SameText c m c' m') (h' : seam.SameText m d m' d') :
    seam.SameText c d c' d' := by
  obtain ⟨text, hrest, hoffset, hrest', hoffset', -⟩ := h
  obtain ⟨more, hmore, hlength, hmore', hlength', halike⟩ := h'
  refine ⟨text ++ more, ?_, ?_, ?_, ?_, halike⟩
  · rw [hrest, hmore, List.append_assoc]
  · rw [hlength, hoffset, List.length_append, Nat.add_assoc]
  · rw [hrest', hmore', List.append_assoc]
  · rw [hlength', hoffset', List.length_append, Nat.add_assoc]

theorem SameText.textTo_eq (h : seam.SameText c d c' d') : c.textTo d = c'.textTo d' := by
  obtain ⟨text, hrest, hoffset, hrest', hoffset', -⟩ := h
  rw [textTo, textTo, hrest, hrest', hoffset, hoffset']
  simp

theorem exists_sameText {text : List Char} (h : seam.Alike c.rest c'.rest)
    (hrest : c.rest = text ++ d.rest) (hoffset : d.offset = c.offset + text.length)
    (hink : ∀ x ∈ text, isBlank x = false) (hd : seam.resume.length ≤ d.rest.length) :
    ∃ s, c'.rest = text ++ s ∧ seam.SameText c d c' ⟨c'.offset + text.length, s⟩ := by
  rw [hrest] at h
  obtain ⟨s, hs, halike⟩ := h.strip_ink hink hd
  exact ⟨s, hs, text, hrest, hoffset, hs, rfl, halike⟩

/-- Trees have the same outline, and where nothing stands behind the cut they are the
same up to their places. -/
structure SameTrees (seam : Seam) (us ts : List (Tree Rule)) : Prop where
  /-- They have one outline. -/
  outline : outlineAll us = outlineAll ts
  /-- They say the same. -/
  unplaced : seam.tail = [] → unplacedAll us = unplacedAll ts

@[refl] theorem SameTrees.refl (ts : List (Tree Rule)) : seam.SameTrees ts ts :=
  ⟨rfl, fun _ => rfl⟩

theorem SameTrees.append {vs ws : List (Tree Rule)} (h : seam.SameTrees us ts)
    (h' : seam.SameTrees vs ws) : seam.SameTrees (us ++ vs) (ts ++ ws) where
  outline := by rw [outlineAll_append, outlineAll_append, h.outline, h'.outline]
  unplaced htail := by
    rw [unplacedAll_append, unplacedAll_append, h.unplaced htail, h'.unplaced htail]

/-- Nodes of one rule are the same if their texts are the same or do not matter. -/
theorem SameTrees.node {r : Rule} (h : seam.SameTrees us ts) {start start' : Nat}
    {text text' : List Char} (houtlined : r.isOutlined → text' = text)
    (htoken : seam.tail = [] → r.isToken → text' = text) :
    seam.SameTrees [.node r start' text' us] [.node r start text ts] where
  outline := by
    simp only [outlineAll, Tree.outline, h.outline]
    by_cases hr : r.isOutlined
    · rw [houtlined hr]
    · simp only [hr, Bool.false_eq_true, if_false]
  unplaced htail := by
    simp only [unplacedAll, Tree.unplaced, h.unplaced htail]
    by_cases hr : r.isToken
    · rw [htoken htail hr]
    · simp only [hr, Bool.false_eq_true, if_false]

/-- Strings are the same if their contents are, or if something stands behind the cut. -/
theorem SameTrees.string {r : Rule} (hr : r.isOutlined = false) {content content' : List Char}
    (h : seam.tail = [] → content' = content) {start start' begin begin' : Nat}
    {text text' : List Char} :
    seam.SameTrees [.node .string start' text' [.node r begin' content' []]]
      [.node .string start text [.node r begin content []]] :=
  ((SameTrees.refl []).node (fun houtlined => by simp [hr] at houtlined) fun htail _ =>
    h htail).node nofun nofun

theorem SameText.sameTrees {r : Rule} (h : seam.SameText c d c' d')
    (hts : seam.SameTrees us ts) :
    seam.SameTrees ((sdl r).node r mode c' d' us) ((sdl r).node r mode c d ts) := by
  rw [RuleBody.node, RuleBody.node]
  split
  · exact .refl []
  · exact hts.node (fun _ => h.textTo_eq.symm) fun _ _ => h.textTo_eq.symm

section Names

theorem not_isBlank_of_mem_name {name : List Char} (h : isIdentifierText name) :
    ∀ x ∈ name, isBlank x = false := fun x hx =>
  not_isBlank_of_isNamePart (isNamePart_of_mem_name h x hx)

theorem name_relaid (h : sdl.Matches mode (.rule .name) c d ts)
    (halike : seam.Alike c.rest c'.rest) (hd : seam.resume.length ≤ d.rest.length) :
    ∃ d' us, sdl.Matches mode (.rule .name) c' d' us ∧ seam.SameText c d c' d' ∧
      seam.SameTrees us ts := by
  obtain ⟨name, hname, hrest, hoffset, hend, rfl⟩ := matches_name_iff.mp h
  obtain ⟨s, hs, hsame⟩ :=
    exists_sameText halike hrest hoffset (not_isBlank_of_mem_name hname) hd
  refine ⟨_, _, matches_name_iff.mpr ⟨name, hname, hs, rfl, ?_, rfl⟩, hsame,
    hsame.sameTrees (.refl _)⟩
  exact hsame.alike.head_rejects (by decide) hend

theorem typeRef_relaid (h : sdl.Matches mode (.rule .typeRef) c d ts)
    (halike : seam.Alike c.rest c'.rest) (hd : seam.resume.length ≤ d.rest.length) :
    ∃ d' us, sdl.Matches mode (.rule .typeRef) c' d' us ∧ seam.Alike d.rest d'.rest ∧
      seam.SameTrees us ts := by
  have hreaches := h.reaches.offset_add
  obtain ⟨xs, hbody, rfl⟩ := matches_rule_iff.mp h
  obtain ⟨type, hnamed, hrest, rfl, hend⟩ := TypeRef.exists_of_matches hbody
  have hoffset : d.offset = c.offset + type.text.toList.length := by
    rw [hrest, List.length_append] at hreaches
    omega
  have hink : ∀ x ∈ type.text.toList, isBlank x = false := fun x hx =>
    TypeRef.not_isBlank_of_isTypeCharacter (TypeRef.text_isTypeCharacter hnamed x hx)
  obtain ⟨s, hs, hsame⟩ := exists_sameText halike hrest hoffset hink hd
  -- a line feed may stand behind every type reference
  have hend' : ∀ x, s.head? = some x → type.mayStandBehind x := by
    have := @Seam.Alike.head_rejects _ _ _ hsame.alike (fun x => !type.mayStandBehind x)
      (by simp [TypeRef.mayStandBehind_of_endsType type (c := '\n') (by decide)])
      (fun x hx => by simp [hend x hx])
    exact fun x hx => by simpa using this x hx
  have hbody' := TypeRef.matches_body hnamed hend' c'.offset
  rw [← hs] at hbody'
  exact ⟨_, _, matches_rule_iff.mpr ⟨[], hbody', rfl⟩, hsame.alike, hsame.sameTrees (.refl _)⟩

/-- A choice between words is matched by the same word. -/
theorem words_relaid {words : List String} (h : sdl.Matches mode (firstOf (words.map word)) c d ts)
    (hwords : ∀ word ∈ words, ∀ x ∈ word.toList, isBlank x = false)
    (halike : seam.Alike c.rest c'.rest) (hd : seam.resume.length ≤ d.rest.length) :
    ∃ d', sdl.Matches mode (firstOf (words.map word)) c' d' ts ∧ seam.SameText c d c' d' := by
  have hword : ∀ {s : String}, (∀ x ∈ s.toList, isBlank x = false) →
      sdl.Matches mode (word s) c d ts →
        ∃ d', sdl.Matches mode (word s) c' d' ts ∧ seam.SameText c d c' d' := by
    intro s hink h
    obtain ⟨hrest, hoffset, rfl⟩ := matches_text_iff.mp h
    obtain ⟨r, hr, hsame⟩ := exists_sameText halike hrest hoffset hink hd
    exact ⟨_, matches_text_iff.mpr ⟨hr, rfl, rfl⟩, hsame⟩
  induction words with
  | nil =>
    obtain ⟨_, hx, -⟩ := matches_charWhere_iff.mp h
    cases hx
  | cons first rest ih =>
    rw [List.forall_mem_cons] at hwords
    cases rest with
    | nil => exact hword hwords.1 h
    | cons second rest =>
      rcases matches_choice_iff.mp h with h | ⟨hfails, h⟩
      · obtain ⟨d', h', hsame⟩ := hword hwords.1 h
        exact ⟨d', matches_choice_iff.mpr (.inl h'), hsame⟩
      · obtain ⟨d', h', hsame⟩ := ih h hwords.2
        refine ⟨d', matches_choice_iff.mpr (.inr ⟨fails_text_iff.mpr fun hpre => ?_, h'⟩), hsame⟩
        exact fails_text_iff.mp hfails (halike.prefix_of_new hwords.1 hpre)

theorem fails_word_relaid {s : String} (h : sdl.Fails mode (word s) c)
    (hink : ∀ x ∈ s.toList, isBlank x = false) (halike : seam.Alike c.rest c'.rest) :
    sdl.Fails mode (word s) c' :=
  fails_text_iff.mpr fun hpre => fails_text_iff.mp h (halike.prefix_of_new hink hpre)

/-- The value of an enumeration is a name that begins with no other value. -/
theorem enumValue_relaid (h : sdl.Matches mode (.rule .enumValue) c d ts)
    (halike : seam.Alike c.rest c'.rest) (hd : seam.resume.length ≤ d.rest.length) :
    ∃ d' us, sdl.Matches mode (.rule .enumValue) c' d' us ∧ seam.Alike d.rest d'.rest ∧
      seam.SameTrees us ts := by
  obtain ⟨xs, hbody, rfl⟩ := matches_rule_iff.mp h
  obtain ⟨m, us, vs, hnever, hname, rfl⟩ := matches_seq_iff.mp hbody
  obtain ⟨hfails, rfl, rfl⟩ := matches_never_iff.mp hnever
  obtain ⟨hboolean, hnull⟩ := fails_choice_iff.mp hfails
  obtain ⟨htrue, hfalse⟩ := fails_choice_iff.mp (fails_rule_iff.mp hboolean)
  obtain ⟨d', ws, hname', hsame, htrees⟩ := name_relaid hname halike hd
  refine ⟨d', _, matches_rule_iff.mpr ⟨_, matches_seq_iff.mpr ⟨c', [], ws, ?_, hname', rfl⟩, rfl⟩,
    hsame.alike, hsame.sameTrees htrees⟩
  refine matches_never_iff.mpr ⟨fails_choice_iff.mpr ⟨fails_rule_iff.mpr ?_, ?_⟩, rfl, rfl⟩
  · exact fails_choice_iff.mpr ⟨fails_word_relaid htrue (by decide) halike,
      fails_word_relaid hfalse (by decide) halike⟩
  · exact fails_rule_iff.mpr (fails_word_relaid (fails_rule_iff.mp hnull) (by decide) halike)

end Names

section InStrings

variable {cs behind cs' : List Char}

theorem endsBlock_cons_iff {x : Char} (hx : isBlank x) :
    EndsBlock (x :: cs) behind ↔ EndsBlock cs behind := by
  have hpre : ∀ (y : Char) (word : List Char), isBlank y = false → ¬ y :: word <+: x :: cs := by
    rintro y word hy ⟨rest, hrest⟩
    rw [← (List.cons.inj hrest).1, hy] at hx
    cases hx
  constructor
  · intro h
    generalize hwhole : x :: cs = whole at h
    cases h with
    | close => exact absurd ⟨_, hwhole.symm⟩ (hpre '"' ['"', '"'] (by decide))
    | escape h => exact absurd ⟨_, hwhole.symm⟩ (hpre '\\' blockQuotes (by decide))
    | char _ _ h =>
      cases hwhole
      exact h
  · exact .char (hpre '"' _ (by decide)) (hpre '\\' _ (by decide))

theorem endsBlock_append_iff {blanks : List Char} (hblanks : IsBlankText blanks) :
    EndsBlock (blanks ++ cs) behind ↔ EndsBlock cs behind := by
  induction blanks with
  | nil => rfl
  | cons x blanks ih =>
    rw [List.cons_append, endsBlock_cons_iff (hblanks x List.mem_cons_self),
      ih fun c hc => hblanks c (List.mem_cons_of_mem _ hc)]

/-- A block that ends before the cut ends in the new text too. -/
theorem endsBlock_relaid (h : EndsBlock cs behind) (halike : seam.Alike cs cs')
    (hbehind : seam.edge.length ≤ behind.length) :
    ∃ behind', EndsBlock cs' behind' ∧ seam.Alike behind behind' := by
  -- by the length of the text, since a gap takes several characters at once
  induction hlength : cs.length using Nat.strong_induction_on generalizing cs cs' with
  | _ n ih =>
    subst hlength
    cases h with
    | close =>
      obtain ⟨s, rfl, hs⟩ := halike.strip (by decide) (by decide) hbehind
      exact ⟨s, .close, hs⟩
    | @escape cs _ h =>
      have hcs := h.length_lt
      obtain ⟨s, rfl, hs⟩ := halike.strip (by decide) (by decide) (by omega)
      have hshorter : cs.length < (escapedQuotes ++ cs).length := by
        rw [List.length_append]
        exact Nat.lt_add_of_pos_left (by decide)
      obtain ⟨behind', hends, hbehind'⟩ := ih _ hshorter h hs rfl
      exact ⟨behind', .escape hends, hbehind'⟩
    | @char c cs _ hclose hescape h =>
      generalize hold : c :: cs = old at halike
      cases halike with
      | edge =>
        have := h.length_lt
        have := congrArg List.length hold
        rw [List.length_cons] at this
        omega
      | @char _ r r' hr =>
        cases hold
        obtain ⟨behind', hends, hbehind'⟩ := ih _ (by simp) h hr rfl
        refine ⟨behind', .char (fun hpre => hclose ?_) (fun hpre => hescape ?_) hends, hbehind'⟩
        · exact (Alike.char hr).prefix_of_new (by decide) hpre
        · exact (Alike.char hr).prefix_of_new (by decide) hpre
      | @gap blanks r r' _ hblanks hfeed hr =>
        -- the whole gap is inside the block
        have hall : EndsBlock (blanks ++ r) behind := by
          rw [← hold]
          exact .char hclose hescape h
        have hshorter : r.length < (c :: cs).length := by
          have := List.length_pos_of_mem hfeed
          rw [hold, List.length_append]
          omega
        obtain ⟨behind', hends, hbehind'⟩ :=
          ih _ hshorter ((endsBlock_append_iff hblanks).mp hall) hr rfl
        exact ⟨behind', (endsBlock_append_iff (by simp [IsBlankText, lineGap]; decide)).mpr hends,
          hbehind'⟩

/-- If nothing stands behind the cut, the old text is the new one and the edge. -/
theorem Alike.eq_append_edge {r r' : List Char} (h : seam.Alike r r') (htail : seam.tail = []) :
    r = r' ++ seam.edge := by
  induction h with
  | edge => rw [htail, List.nil_append]
  | char _ ih => rw [List.cons_append, ← ih]
  | gap hgaps _ _ _ => exact absurd htail (seam.apart hgaps)

/-- So what stands between alike texts is the same. -/
theorem Alike.eq_of_tail_nil {text text' r r' : List Char}
    (h : seam.Alike (text ++ r) (text' ++ r')) (hr : seam.Alike r r')
    (htail : seam.tail = []) : text' = text := by
  have heq := h.eq_append_edge htail
  rw [hr.eq_append_edge htail, List.append_assoc, ← List.append_assoc, ← List.append_assoc] at heq
  exact (List.append_cancel_right (List.append_cancel_right heq)).symm

/-- A block that ends in the new text ends in the old one. -/
def KeepsBlocks (seam : Seam) : Prop :=
  ∀ {r r' : List Char}, seam.Alike r r' → (∃ behind, EndsBlock r' behind) →
    ∃ behind, EndsBlock r behind

/-- So it is if nothing stands behind the cut. -/
theorem keepsBlocks_of_tail_nil (htail : seam.tail = []) : seam.KeepsBlocks := by
  rintro r r' halike ⟨behind, hends⟩
  rw [halike.eq_append_edge htail]
  exact ⟨_, hends.append seam.edge⟩

/-- Then no block is matched that was not. -/
theorem KeepsBlocks.fails_block (hkeeps : seam.KeepsBlocks) (h : sdl.Fails .tight block c)
    (halike : seam.Alike c.rest c'.rest) : sdl.Fails .tight block c' := by
  refine (sdl_bounded.matches_or_fails .tight (by decide +kernel) c').resolve_left ?_
  rintro ⟨d, us, hblock⟩
  obtain ⟨content, hrest, hends, -⟩ := endsBlock_of_matches hblock
  rw [hrest] at halike
  obtain ⟨r, hr, halike'⟩ := halike.strip_new (by decide)
  obtain ⟨behind, hends'⟩ := hkeeps halike' ⟨_, hends⟩
  obtain ⟨content', rfl⟩ := hends'.exists_content
  obtain ⟨d', us', hblock', -⟩ := exists_matches_block hr hends'
  exact hblock'.not_fails h

/-- A string that ends before the cut is a string in the new text. -/
theorem string_relaid (h : sdl.Matches .spaced (.rule .string) c d ts)
    (halike : seam.Alike c.rest c'.rest) (hd : seam.edge.length ≤ d.rest.length)
    (hempty : ¬ seam.KeepsBlocks → c.rest = '"' :: '"' :: d.rest → d.rest.head? ≠ some '"') :
    ∃ d' us, sdl.Matches .spaced (.rule .string) c' d' us ∧ seam.Alike d.rest d'.rest ∧
      seam.SameTrees us ts := by
  obtain ⟨xs, rfl, ⟨content, hrest, hends, _, rfl⟩ | ⟨content, hcontent, hrest, hfails, _, rfl⟩⟩ :=
    string_cases h
  · have hle := hends.length_lt
    rw [hrest] at halike
    obtain ⟨s, hs, halike'⟩ := halike.strip (by decide) (by decide) (by omega)
    obtain ⟨behind', hends', hbehind⟩ := endsBlock_relaid hends halike' hd
    obtain ⟨content', rfl⟩ := hends'.exists_content
    obtain ⟨d', us, hmatches, rfl, _, rfl⟩ := matches_string_of_block hs hends'
    refine ⟨d', _, hmatches, hbehind, ?_⟩
    refine SameTrees.string rfl fun htail => ?_
    rw [← List.append_assoc, ← List.append_assoc] at halike'
    exact List.append_cancel_right (halike'.eq_of_tail_nil hbehind htail)
  · have hfeed : '\n' ∉ '"' :: (content ++ ['"']) := by
      simp [hcontent.not_feed]
    have hsplit : c.rest = '"' :: (content ++ ['"']) ++ d.rest := by
      rw [hrest]
      simp
    have halike' := halike
    rw [hsplit] at halike'
    obtain ⟨s, hs, hbehind⟩ := halike'.strip hfeed (by
      rw [← List.cons_append, List.getLast?_concat]
      rintro _ ⟨⟩
      decide) hd
    have hfails' : sdl.Fails .tight block c' := by
      by_cases hkeeps : seam.KeepsBlocks
      · exact hkeeps.fails_block hfails halike
      · -- an empty string with a quote behind it would begin a block
        refine fails_block_of_not_prefix fun hpre =>
          not_block_of_quoted hcontent (fun hnil => hempty hkeeps ?_) ?_
        · rw [hrest, hnil]
          rfl
        · rw [← hrest]
          exact halike.prefix_of_new (by decide) hpre
    obtain ⟨d', us, hmatches, rfl, _, rfl⟩ := @matches_string_of_quoted c' _ s hcontent
      (by rw [hs]; simp) hfails'
    exact ⟨d', _, hmatches, hbehind, .string rfl fun _ => rfl⟩

end InStrings

end Seam

end Sdl
end EntitySdl
