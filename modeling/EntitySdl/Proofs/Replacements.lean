import EntitySdl.Proofs.LetterCase

/-! # Replacements

A replacement refers to the match and its groups by their numbers.  The texts are put
in one after the other, and the references that are left are dropped in the end; this
comes to the same as filling in all of them at once.
-/
namespace EntitySdl
namespace Name

open Text

/-! ## Templates -/

/-- A template with texts in the places of its references.  What stands for a
reference without a text is given by its digit. -/
def fillIn (missing : Char → List Char) (texts : List (List Char)) : List Char → List Char
  | '$' :: d :: cs => (texts[d.toNat - '0'.toNat]?).getD (missing d) ++ fillIn missing texts cs
  | c :: cs => c :: fillIn missing texts cs
  | [] => []

/-- Whether a text consists of characters of names and references, none of them to a
text before one of the given number. -/
def refersFrom (first : Nat) : List Char → Bool
  | '$' :: d :: cs =>
    isAsciiDigit d && decide (first ≤ d.toNat - '0'.toNat) && refersFrom first cs
  | c :: cs => isNamePart c && refersFrom first cs
  | [] => true

theorem refersFrom_zero {first : Nat} {template : List Char} (h : refersFrom first template) :
    refersFrom 0 template := by
  fun_induction refersFrom first template with
  | case1 d cs ih =>
    simp only [Bool.and_eq_true] at h
    simp [refersFrom, h.1.1, ih h.2]
  | case2 c cs hc ih =>
    simp only [Bool.and_eq_true] at h
    rw [refersFrom, h.1, ih h.2]
    · rfl
    · exact hc
  | case3 => rfl

theorem ascii_of_refersFrom {first : Nat} {template : List Char}
    (h : refersFrom first template) : ∀ c ∈ template, c.toNat < 0x80 := by
  fun_induction refersFrom first template with
  | case1 d cs ih =>
    simp only [Bool.and_eq_true] at h
    have hdigit : isNamePart d := by rw [isNamePart, h.1.1, Bool.or_true]
    exact List.forall_mem_cons.mpr
      ⟨by decide, List.forall_mem_cons.mpr ⟨toNat_lt_of_isNamePart hdigit, ih h.2⟩⟩
  | case2 c cs hc ih =>
    rw [Bool.and_eq_true] at h
    exact List.forall_mem_cons.mpr ⟨toNat_lt_of_isNamePart h.1, ih h.2⟩
  | case3 => simp

section Casing

variable {f : Char → Char} {template : List Char}

theorem ne_dollar_of_isNamePart {c : Char} (h : isNamePart c) : c ≠ '$' := by
  rintro rfl
  exact absurd h (by decide)

theorem refersFrom_map (hf : IsCasing f) {first : Nat} (h : refersFrom first template) :
    refersFrom first (template.map f) := by
  fun_induction refersFrom first template with
  | case1 d cs ih =>
    simp only [Bool.and_eq_true] at h
    simp only [List.map_cons, hf.dollar, hf.digit h.1.1, refersFrom, h.1, ih h.2, Bool.and_self]
  | case2 c cs hc ih =>
    rw [Bool.and_eq_true] at h
    have hpart := hf.isNamePart h.1
    rw [List.map_cons, refersFrom, hpart, ih h.2]
    · rfl
    · exact fun _ _ hdollar => absurd hdollar (ne_dollar_of_isNamePart hpart)
  | case3 => rfl

theorem dropReferences_cons {c : Char} (h : c ≠ '$') (cs : List Char) :
    dropReferences (c :: cs) = c :: dropReferences cs := by
  rw [dropReferences]
  exact fun _ _ hdollar => absurd hdollar h

theorem dropReferences_reference {d : Char} (h : isAsciiDigit d) (cs : List Char) :
    dropReferences ('$' :: d :: cs) = dropReferences cs := by
  rw [dropReferences, if_neg]
  rintro rfl
  exact absurd h (by decide)

theorem dropReferences_map (hf : IsCasing f) (h : refersFrom 0 template) :
    dropReferences (template.map f) = (dropReferences template).map f := by
  fun_induction refersFrom 0 template with
  | case1 d cs ih =>
    simp only [Bool.and_eq_true] at h
    rw [List.map_cons, List.map_cons, hf.dollar, hf.digit h.1.1,
      dropReferences_reference h.1.1, dropReferences_reference h.1.1, ih h.2]
  | case2 c cs hc ih =>
    rw [Bool.and_eq_true] at h
    rw [List.map_cons, dropReferences_cons (ne_dollar_of_isNamePart (hf.isNamePart h.1)),
      dropReferences_cons (ne_dollar_of_isNamePart h.1), List.map_cons, ih h.2]
  | case3 => rfl

theorem dropReferences_isNamePart (h : refersFrom 0 template) :
    ∀ c ∈ dropReferences template, isNamePart c := by
  fun_induction refersFrom 0 template with
  | case1 d cs ih =>
    simp only [Bool.and_eq_true] at h
    rw [dropReferences_reference h.1.1]
    exact ih h.2
  | case2 c cs hc ih =>
    rw [Bool.and_eq_true] at h
    rw [dropReferences_cons (ne_dollar_of_isNamePart h.1)]
    exact List.forall_mem_cons.mpr ⟨h.1, ih h.2⟩
  | case3 => simp [dropReferences]

end Casing

section Filling

variable {texts : List (List Char)} {template : List Char}

/-- References beyond the texts are dropped. -/
theorem fillIn_of_refersFrom (h : refersFrom texts.length template) :
    fillIn (fun _ => []) texts template = dropReferences template := by
  fun_induction refersFrom texts.length template with
  | case1 d cs ih =>
    simp only [Bool.and_eq_true, decide_eq_true_eq] at h
    rw [fillIn, List.getElem?_eq_none h.1.2, dropReferences_reference h.1.1, ih h.2]
    rfl
  | case2 c cs hc ih =>
    rw [Bool.and_eq_true] at h
    rw [fillIn, dropReferences_cons (ne_dollar_of_isNamePart h.1), ih h.2]
    exact hc
  | case3 => rfl

theorem dropReferences_append {cs : List Char} (h : '$' ∉ cs) (ds : List Char) :
    dropReferences (cs ++ ds) = cs ++ dropReferences ds := by
  induction cs with
  | nil => rfl
  | cons c cs ih =>
    rw [List.mem_cons, not_or] at h
    rw [List.cons_append, dropReferences_cons (Ne.symm h.1), ih h.2]
    rfl

/-- References without a text are dropped in the end. -/
theorem dropReferences_fillIn (htemplate : refersFrom 0 template)
    (htexts : ∀ text ∈ texts, '$' ∉ text) :
    dropReferences (fillIn (fun d => ['$', d]) texts template) =
      fillIn (fun _ => []) texts template := by
  fun_induction refersFrom 0 template with
  | case1 d cs ih =>
    simp only [Bool.and_eq_true] at htemplate
    rw [fillIn, fillIn]
    cases htext : texts[d.toNat - '0'.toNat]? with
    | none => exact (dropReferences_reference htemplate.1.1 _).trans (ih htemplate.2)
    | some text =>
      rw [Option.getD_some, Option.getD_some,
        dropReferences_append (htexts text (List.mem_of_getElem? htext)), ih htemplate.2]
  | case2 c cs hc ih =>
    rw [Bool.and_eq_true] at htemplate
    rw [fillIn, fillIn, dropReferences_cons (ne_dollar_of_isNamePart htemplate.1),
      ih htemplate.2]
    all_goals exact hc
  | case3 => rfl

end Filling

/-! ## One text after the other -/

theorem replaceAll_append {number new cs : List Char} (h : '$' ∉ cs) (ds : List Char) :
    replaceAll ('$' :: number) new (cs ++ ds) = cs ++ replaceAll ('$' :: number) new ds := by
  induction cs with
  | nil => rfl
  | cons c cs ih =>
    rw [List.mem_cons, not_or] at h
    have hprefix : ('$' :: number).isPrefixOf (c :: (cs ++ ds)) = false := by
      simp [List.isPrefixOf, h.1]
    rw [List.cons_append, replaceAll, replaceAfter, hprefix, Bool.and_false,
      if_neg Bool.false_ne_true]
    exact congrArg (List.cons c) (ih h.2)

theorem replaceAll_reference {d e : Char} (he : e ≠ '$') (new cs : List Char) :
    replaceAll ['$', d] new ('$' :: e :: cs) =
      if e = d then new ++ replaceAll ['$', d] new cs
      else '$' :: e :: replaceAll ['$', d] new cs := by
  have hprefix : ['$', d].isPrefixOf ('$' :: e :: cs) = decide (e = d) := by
    simp [List.isPrefixOf, beq_eq_decide, eq_comm]
  have hskip : replaceAfter ['$', d] new 0 (e :: cs) = e :: replaceAll ['$', d] new cs :=
    @replaceAll_append [d] new [e] (by simpa using Ne.symm he) cs
  rw [replaceAll, replaceAfter, hprefix, hskip]
  by_cases hd : e = d <;> simp [hd, replaceAfter, replaceAll]

theorem toDigits_of_lt {n : Nat} (h : n < 10) : Nat.toDigits 10 n = [Nat.digitChar n] :=
  (by decide : ∀ n < 10, Nat.toDigits 10 n = [Nat.digitChar n]) n h

theorem eq_digitChar_iff {d : Char} (hd : isAsciiDigit d) {n : Nat} (hn : n < 10) :
    d = Nat.digitChar n ↔ d.toNat - '0'.toNat = n := by
  have hback : ∀ n < 10, (Nat.digitChar n).toNat - '0'.toNat = n := by decide
  have hpart : isNamePart d := by rw [isNamePart, hd, Bool.or_true]
  have hforth : d = Nat.digitChar (d.toNat - '0'.toNat) := by
    simpa [hd] using @Sdl.forall_isNamePart
      (fun d => !isAsciiDigit d || d == Nat.digitChar (d.toNat - '0'.toNat)) (by decide) d hpart
  constructor
  · rintro rfl
    exact hback n hn
  · rintro rfl
    exact hforth

/-- One more text is filled in. -/
theorem replaceAll_fillIn {texts : List (List Char)} {template : List Char} (text : List Char)
    (hcount : texts.length < 10) (htexts : ∀ text ∈ texts, '$' ∉ text)
    (htemplate : refersFrom 0 template) :
    replaceAll ('$' :: Nat.toDigits 10 texts.length) text
        (fillIn (fun d => ['$', d]) texts template) =
      fillIn (fun d => ['$', d]) (texts ++ [text]) template := by
  rw [toDigits_of_lt hcount]
  fun_induction refersFrom 0 template with
  | case1 d cs ih =>
    simp only [Bool.and_eq_true] at htemplate
    have hdollar : d ≠ '$' := by
      rintro rfl
      exact absurd htemplate.1.1 (by decide)
    rw [fillIn, fillIn, ← ih htemplate.2]
    -- the reference is filled already, it is the one to fill now, or it comes later
    rcases Nat.lt_trichotomy (d.toNat - '0'.toNat) texts.length with hlt | heq | hgt
    · rw [List.getElem?_append_left hlt, List.getElem?_eq_getElem hlt, Option.getD_some,
        replaceAll_append (htexts _ (List.getElem_mem hlt))]
    · rw [heq, List.getElem?_eq_none le_rfl, List.getElem?_concat_length, Option.getD_some,
        Option.getD_none, List.cons_append, List.cons_append, List.nil_append,
        replaceAll_reference hdollar, if_pos ((eq_digitChar_iff htemplate.1.1 hcount).mpr heq)]
    · have hbeyond : (texts ++ [text]).length ≤ d.toNat - '0'.toNat := by
        rw [List.length_append]
        exact hgt
      rw [List.getElem?_eq_none hgt.le, List.getElem?_eq_none hbeyond, Option.getD_none,
        List.cons_append, List.cons_append, List.nil_append, replaceAll_reference hdollar,
        if_neg (fun hd => hgt.ne' ((eq_digitChar_iff htemplate.1.1 hcount).mp hd))]
      rfl
  | case2 c cs hc ih =>
    rw [Bool.and_eq_true] at htemplate
    have hne : '$' ∉ [c] := by simpa using Ne.symm (ne_dollar_of_isNamePart htemplate.1)
    rw [fillIn, fillIn, ← ih htemplate.2]
    · exact replaceAll_append hne _
    all_goals exact hc
  | case3 => rfl

theorem fillIn_nil (template : List Char) : fillIn (fun d => ['$', d]) [] template = template := by
  fun_induction fillIn (fun d => ['$', d]) [] template with
  | case1 d cs ih => simp [ih]
  | case2 c cs hc ih => rw [ih]
  | case3 => rfl

/-- Texts put in one after the other, behind some that are filled in already. -/
theorem foldl_replaceAll {template : List Char} (htemplate : refersFrom 0 template)
    {texts done : List (List Char)} (hcount : (done ++ texts).length ≤ 10)
    (htexts : ∀ text ∈ done ++ texts, '$' ∉ text) :
    (texts.foldl
        (fun out text => (replaceAll ('$' :: Nat.toDigits 10 out.2) text out.1, out.2 + 1))
        (fillIn (fun d => ['$', d]) done template, done.length)).1 =
      fillIn (fun d => ['$', d]) (done ++ texts) template := by
  induction texts generalizing done with
  | nil => rw [List.append_nil, List.foldl_nil]
  | cons text texts ih =>
    rw [List.append_cons] at hcount htexts ⊢
    have hlt : done.length < 10 := by
      simp only [List.length_append, List.length_singleton] at hcount
      omega
    rw [← ih hcount htexts, List.foldl_cons,
      replaceAll_fillIn text hlt (fun t ht => htexts t (by simp [ht])) htemplate,
      List.length_append, List.length_singleton]

/-- **What takes the place of a match.**  The match and its groups are filled into the
replacement, each in the case of the word. -/
theorem Rule.replacementFor_eq {rule : Rule} {word : String} {m : Pattern.Match}
    (htemplate : refersFrom 0 (restoreCase word rule.replacement).toList)
    (hcount : m.groups.length < 9)
    (htexts : ∀ text ∈ m.text :: m.groups,
      '$' ∉ (restoreCase word (String.ofList text)).toList) :
    rule.replacementFor word m = fillIn (fun d => ['$', d])
      ((m.text :: m.groups).map fun text => (restoreCase word (String.ofList text)).toList)
      (restoreCase word rule.replacement).toList := by
  have hfill := @foldl_replaceAll _ htemplate
    ((m.text :: m.groups).map fun text => (restoreCase word (String.ofList text)).toList) []
    (by simp; omega) (by simpa using htexts)
  rw [fillIn_nil, List.foldl_map] at hfill
  exact hfill

end Name
end EntitySdl
