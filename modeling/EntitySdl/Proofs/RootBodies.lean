import EntitySdl.Proofs.Cuts

/-! # Bodies cut out of a source

The lines of a root type are cut out of its body, from the first field up to the last
closing brace of what is kept.  If this is the brace of the body, the lines are fields
by themselves, wherever they are put.
-/
namespace EntitySdl
namespace Sdl

open Name Text Grammar Cursor Sdl.Tree

section Bodies

variable {source text cut : List Char} {c d m n : Cursor} {t fields : Tree Rule}

/-- The body of a root type is read at the end of its definition. -/
theorem exists_body (hc : c.skip .spaced = c) (h : Reads (.one (.rule .definition)) c d [t])
    (hbody : bodyOf? t = some fields) : ∃ m, c.Reaches m ∧ IsReadAs fields m d ∧
      fields.rule = .fieldsDefinition ∧ fields.strings ⊆ t.strings ∧
        fields.textsOf .number ⊆ t.textsOf .number := by
  have hread : IsReadAs t c d := by
    obtain ⟨us, hus, ht⟩ := (reads_rule_iff rfl).mp h
    cases ht
    exact ⟨hc, hus, rfl, textTo_length h.reaches⟩
  obtain ⟨object, hobject, hfields⟩ := Option.bind_eq_some_iff.mp hbody
  obtain ⟨type, htype, hobject⟩ := Option.bind_eq_some_iff.mp hobject
  obtain ⟨m₁, hm₁, hread₁, hrule₁, hmem₁⟩ :=
    hread.exists_child htype rfl (by rw [definition_rule h]; decide)
  obtain ⟨m₂, hm₂, hread₂, hrule₂, hmem₂⟩ :=
    hread₁.exists_child hobject rfl (by rw [hrule₁]; decide)
  obtain ⟨m₃, hm₃, hread₃, hrule, hmem₃⟩ :=
    hread₂.exists_child hfields rfl (by rw [hrule₂]; decide)
  refine ⟨m₃, (hm₁.trans hm₂).trans hm₃, hread₃, hrule, ?_, ?_⟩
  · exact List.Subset.trans (List.Subset.trans (strings_subset_of_child hmem₃)
      (strings_subset_of_child hmem₂)) (strings_subset_of_child hmem₁)
  · exact List.Subset.trans (List.Subset.trans (texts_subset_of_child _ hmem₃)
      (texts_subset_of_child _ hmem₂)) (texts_subset_of_child _ hmem₁)

/-- The fields of a body are read between its braces. -/
theorem exists_fields (h : IsReadAs fields m n) (hrule : fields.rule = .fieldsDefinition) :
    ∃ first last, m.Reaches first ∧ first.skip .spaced = first ∧
      Reads (.one (Peg.oneOrMore (.rule .fieldDefinition))) first last fields.children ∧
        (last.skip .spaced).rest = '\x7d' :: n.rest ∧
          n.offset = (last.skip .spaced).offset + 1 := by
  have hreads := h.reads
  rw [hrule] at hreads
  obtain ⟨o, us, vs, hopen, hinner, hchildren⟩ := reads_seq_iff.mp hreads
  obtain ⟨last, ws, xs, hfields, hclose, hvs⟩ := reads_seq_iff.mp hinner
  obtain ⟨-, -, rfl⟩ := reads_text_iff.mp hopen
  obtain ⟨hlast, hoffset, rfl⟩ := reads_text_iff.mp hclose
  rw [List.append_nil] at hvs
  rw [hvs, List.nil_append] at hchildren
  rw [hchildren]
  exact ⟨o.skip .spaced, last, hopen.reaches.trans (skip_reaches o .spaced), skip_skip o, hfields,
    hlast, hoffset⟩

end Bodies

section Fields

variable {source body rest inner back : List Char} {first last : Cursor} {ts : List (Tree Rule)}

/-- Fields begin neither with a blank nor with a brace. -/
theorem exists_head_of_fields (hfirst : first.skip .spaced = first)
    (h : Reads (.one (Peg.oneOrMore (.rule .fieldDefinition))) first last ts) :
    ∃ x more, first.rest = x :: more ∧ isBlank x = false ∧ x ≠ '\x7d' := by
  have hbegin := Reads.begins h hfirst rfl
  cases hrest : first.rest with
  | nil =>
    rw [hrest] at hbegin
    exact absurd hbegin Heads.not_begin_nil
  | cons x more =>
    refine ⟨x, more, rfl, Heads.not_isBlank_of_begin (isInk_heads rfl) hbegin x
      (by rw [hrest]; rfl), ?_⟩
    rintro rfl
    have hbrace : (heads (.text ['\x7d'])).Begin first.rest :=
      .inl ⟨['\x7d'], List.mem_singleton.mpr rfl, by decide, more, hrest.symm⟩
    exact Heads.not_begin_of_apart (by decide +kernel) hbegin hbrace

/-- The seam between the last line of a body and the closing brace. -/
def braceSeam (hback : IsBlankText back) (hreturns : ReturnsEndLines (back ++ '\x7d' :: rest))
    (behind : List Char) : Seam where
  shade := back
  resume := '\x7d' :: rest
  tail := '\n' :: behind
  feeds := by
    rintro _ ⟨⟩
    rfl
  gaps := true
  apart := by simp
  isShade := by
    have := IsShade.nil.blanks hback
    rwa [List.append_nil] at this
  blank c hc := hback c (List.mem_of_head? hc)
  returns := hreturns.comments
  solid := rfl
  number := by
    rintro c ⟨⟩
    decide
  exponent := by
    rintro c d more ⟨⟩ hmark
    cases hmark

/-- The strings between fields end before the blanks behind the last line. -/
theorem keepsStrings_of_body (hin : first.IsIn source)
    (h : Reads (.one (Peg.oneOrMore (.rule .fieldDefinition))) first last ts)
    (hlast : rest.length < (last.skip .spaced).rest.length)
    (hrest : first.rest = inner ++ (back ++ '\x7d' :: rest)) (hback : IsBlankText back)
    (hquotes : ∀ p ∈ stringsAll ts, p.2 = "\"\"".toList →
      (source.drop (p.1 + 2)).head? ≠ some '"') {seam : Seam} (hshade : seam.shade = back)
    (hresume : seam.resume = '\x7d' :: rest) : seam.KeepsStrings source ts := by
  intro p hp
  refine ⟨?_, fun _ => hquotes p hp⟩
  obtain ⟨before, text, behind, hstring, rfl, hle⟩ := stringBetween_of_reads h hp
  obtain ⟨front, hsource, hfront⟩ := hin
  have hbrace := (skip_reaches last .spaced).length_le
  have hlength := congrArg List.length hstring
  have hquote : first.rest[(before ++ text).length]? = some '"' := by
    rw [hstring, ← List.append_assoc, List.getElem?_append_right le_rfl, Nat.sub_self]
    rfl
  rw [hrest] at hlength hquote
  have hinside : (before ++ text).length < inner.length := by
    by_contra hlt
    -- the quote at the end of the string would be one of the blanks
    rw [List.getElem?_append_right (by omega), List.getElem?_append_left (by
      simp only [List.length_append, List.length_cons] at hlength hlt ⊢
      omega)] at hquote
    have := hback _ (List.mem_of_getElem? hquote)
    cases this
  rw [hsource, hrest, Seam.edge, hshade, hresume]
  simp only [List.length_append, List.length_cons, List.length_nil] at hinside ⊢
  omega

/-- The lines of a body begin as the body does, and are alike to it up to the blanks
behind the last one. -/
theorem exists_inner {x : Char} {more : List Char} (hbody : body = x :: more)
    (hx : isBlank x = false) : ∃ inner back, body = inner ++ back ∧ IsBlankText back ∧
      (∃ more, inner = x :: more) ∧ ∀ seam : Seam, seam.shade = back →
        seam.gaps → seam.Alike (inner ++ seam.edge)
          (joinLines (trimmedLines (splitAt (· == '\n') body)) ++ seam.tail) := by
  have hne : trimmedLines (splitAt (· == '\n') body) ≠ [] := by
    intro hnil
    have hblank := isBlankText_intercalate hnil
    rw [intercalate_splitAt, hbody] at hblank
    rw [hblank x List.mem_cons_self] at hx
    cases hx
  obtain ⟨front, inner, back, hlayout⟩ := exists_layout hne
  have hsplit := hlayout.split
  rw [intercalate_splitAt] at hsplit
  obtain ⟨y, rest, hinner, -⟩ := hlayout.first
  cases front with
  | nil =>
    rw [List.nil_append] at hsplit
    refine ⟨inner, back, hsplit, hlayout.blankBack, ⟨rest, ?_⟩, hlayout.alike⟩
    rw [hbody, hinner] at hsplit
    rw [hinner, (List.cons.inj hsplit).1]
  | cons z front =>
    rw [hbody] at hsplit
    rw [(List.cons.inj hsplit).1, hlayout.blankFront z List.mem_cons_self] at hx
    cases hx

/-- A text that is alike to one that begins with a token begins with the same token. -/
theorem isSolid_of_alike {seam : Seam} {x : Char} {more new : List Char}
    (h : seam.Alike (x :: (more ++ seam.edge)) (new ++ seam.tail))
    (hx : isBlank x = false) (hstart : isSolidStart (x :: more)) : IsSolid new := by
  obtain ⟨s, hs, -⟩ := @Seam.Alike.strip_ink _ (more ++ seam.edge) _ [x] h
    (by simpa using hx) (by
      rw [Seam.edge, List.length_append, List.length_append]
      omega)
  cases new with
  | nil =>
    rw [seam.feeds x (by rw [← List.nil_append seam.tail, hs]; rfl)] at hx
    cases hx
  | cons y new =>
    rw [(List.cons.inj hs).1]
    exact ⟨x, new, rfl, hstart⟩

/-- The lines of a body begin with a token, and they are alike to the body up to a seam in the
blanks behind the last one. -/
theorem exists_braceSeam (hin : first.IsIn source) (hreturns : ReturnsEndLines source)
    (hfirst : first.skip .spaced = first)
    (h : Reads (.one (Peg.oneOrMore (.rule .fieldDefinition))) first last ts)
    (hbody : first.rest = body ++ '\x7d' :: rest) :
    IsSolid (joinLines (trimmedLines (splitAt (· == '\n') body))) ∧
      ∃ (inner back : List Char) (hback : IsBlankText back)
        (hends : ReturnsEndLines (back ++ '\x7d' :: rest)),
        first.rest = inner ++ (back ++ '\x7d' :: rest) ∧
          ∀ behind, (braceSeam hback hends behind).Alike first.rest
            (joinLines (trimmedLines (splitAt (· == '\n') body)) ++ '\n' :: behind) := by
  obtain ⟨x, more, hhead, hx, hbrace⟩ := exists_head_of_fields hfirst h
  obtain ⟨more', hmore⟩ : ∃ more, body = x :: more := by
    rw [hhead] at hbody
    cases body with
    | nil => exact absurd (List.cons.inj hbody).1 hbrace
    | cons y body => exact ⟨body, by rw [(List.cons.inj hbody).1]⟩
  obtain ⟨inner, back, hsplit, hback, ⟨tail, htail⟩, halike⟩ := exists_inner hmore hx
  have hrest : first.rest = inner ++ (back ++ '\x7d' :: rest) := by
    rw [hbody, hsplit, List.append_assoc]
  have hends : ReturnsEndLines (back ++ '\x7d' :: rest) := by
    have hall := returnsEndLines_of_isIn hin hreturns
    rw [hrest] at hall
    exact hall.of_append
  refine ⟨?_, inner, back, hback, hends, hrest, fun behind => ?_⟩
  · have hstart := skip_eq_self_iff.mp hfirst
    rw [hhead] at hstart
    have hedge := halike (braceSeam hback hends []) rfl rfl
    rw [htail] at hedge
    exact isSolid_of_alike hedge hx hstart
  · rw [hrest]
    exact halike (braceSeam hback hends behind) rfl rfl

/-- **The lines of a body are fields by themselves.** -/
theorem areFields_of_body (hin : first.IsIn source) (hreturns : ReturnsEndLines source)
    (hfirst : first.skip .spaced = first)
    (h : Reads (.one (Peg.oneOrMore (.rule .fieldDefinition))) first last ts)
    (hlast : (last.skip .spaced).rest = '\x7d' :: rest)
    (hbody : first.rest = body ++ '\x7d' :: rest)
    (hquotes : ∀ p ∈ stringsAll ts, p.2 = "\"\"".toList →
      (source.drop (p.1 + 2)).head? ≠ some '"')
    (hnumbers : (textsOfAll .number ts).all isInRange) :
    AreFields (trimmedLines (splitAt (· == '\n') body)) := by
  obtain ⟨hsolid, inner, back, hback, hends, hrest, halike⟩ :=
    exists_braceSeam hin hreturns hfirst h hbody
  refine ⟨fun line hline => ?_, hsolid, fun behind offset => ?_⟩
  · have hall := returnsEndLines_of_isIn hin hreturns
    rw [hbody] at hall
    exact isBodyLine_of_mem hall hline
  · have hink : ∀ x, (braceSeam hback hends behind).resume.head? = some x →
        isBlank x = false := by
      rintro x ⟨⟩
      decide
    obtain ⟨d', us, h', hd', hus⟩ := Reads.relaid_to_seam h rfl hfirst hin
      (keepsStrings_of_body hin h (by simp [hlast]) hrest hback hquotes rfl rfl) hlast hink hsolid
      (halike behind) offset
    refine ⟨d', us, h', hd', ?_⟩
    rwa [← textsOfAll_outlineAll rfl, hus.outline, textsOfAll_outlineAll rfl]

end Fields

section Lines

variable {source text : List Char} {c d : Cursor} {t : Tree Rule}

theorem slice_append {start middle finish : Nat} (h : start ≤ middle) (h' : middle ≤ finish) :
    slice source start finish = slice source start middle ++ slice source middle finish := by
  have hlength : finish - start = (middle - start) + (finish - middle) := by omega
  have hmiddle : start + (middle - start) = middle := by omega
  rw [slice, slice, slice, hlength, List.take_add, List.drop_drop, hmiddle]

/-- Behind a body stand its brace and what is kept behind it. -/
theorem slice_of_body {first n : Cursor} {body : List Char} {finish : Nat}
    (hin : first.IsIn source) (hrest : first.rest = body ++ '\x7d' :: n.rest)
    (hoffset : n.offset = first.offset + body.length + 1) (hfinish : n.offset ≤ finish) :
    slice source first.offset finish = body ++ '\x7d' :: slice source n.offset finish := by
  have hbody : slice source first.offset n.offset = body ++ ['\x7d'] := by
    refine @slice_of_reaches _ _ hin _ n.rest ?_ _ ?_
    · rw [hrest, List.append_assoc]
      rfl
    · rw [hoffset, List.length_append, ← Nat.add_assoc]
      rfl
  rw [slice_append (by omega) hfinish, hbody, List.append_assoc]
  rfl

/-- The lines of a root type are those of its body, if the last closing brace is that
of the body. -/
theorem bodyLines_eq {definition : PlacedDefinition} {first : Nat} {body tail : List Char}
    (hfirst : definition.fieldStarts.min? = some first)
    (hslice : slice source first (textEnd source definition.start text) = body ++ '\x7d' :: tail)
    (htail : '\x7d' ∉ tail) : bodyLines source definition text =
      (trimmedLines (splitAt (· == '\n') body)).map String.ofList := by
  -- from behind, the first brace is that of the body
  have hcut : (((body ++ '\x7d' :: tail).reverse.dropWhile (· != '\x7d')).drop 1).reverse =
      body := by
    rw [List.reverse_append, List.reverse_cons, List.append_assoc, List.dropWhile_append_of_pos]
    · simp
    · intro x hx
      rw [bne_iff_ne]
      rintro rfl
      exact htail (List.mem_reverse.mp hx)
  unfold bodyLines
  rw [hfirst]
  simp only [hslice]
  rw [if_pos (by simp), hcut, filter_lines_eq]

theorem isInRange_of_checkDefinition (h : checkDefinition t = .ok ()) :
    (t.textsOf .number).all isInRange := by
  cases hrange : (t.textsOf .number).all isInRange with
  | true => rfl
  | false =>
    rw [checkDefinition, hrange] at h
    cases h

/-- The fields of a root type are the children of its body. -/
theorem fieldStarts_of_body {fields : Tree Rule} (hbody : bodyOf? t = some fields)
    (hrules : ∀ field ∈ fields.children, field.rule = .fieldDefinition) :
    fieldStarts t = fields.children.map Tree.start := by
  have hall : fields.childrenOf .fieldDefinition = fields.children :=
    List.filter_eq_self.mpr fun field hfield => by simp [hrules field hfield]
  rw [bodyOf?] at hbody
  rw [fieldStarts, hbody, Option.toList_some, List.flatMap_singleton, hall]

theorem map_toList_map_ofList (lines : List (List Char)) :
    (lines.map String.ofList).map String.toList = lines := by
  have hid : String.toList ∘ String.ofList = id := funext fun _ => String.toList_ofList
  rw [List.map_map, hid, List.map_id]

/-- Without a body there are no lines. -/
theorem bodyLines_of_no_body (hbody : bodyOf? t = none) :
    bodyLines source (place source t) text = [] := by
  have hnone : (place source t).fieldStarts = [] := by
    rw [bodyOf?] at hbody
    rw [place, fieldStarts, hbody]
    cases rootKind? t <;> rfl
  unfold bodyLines
  rw [hnone]
  rfl

/-- The body of a root type, with its fields from one place to another, in the source where
the definition is read. -/
structure IsBody (source : List Char) (c d : Cursor) (t fields : Tree Rule) (first last : Cursor) :
    Prop where
  /-- The fields are read in the source. -/
  isIn : first.IsIn source
  /-- They begin at the first place. -/
  skip : first.skip .spaced = first
  /-- They are the children of the body. -/
  reads : Reads (.one (Peg.oneOrMore (.rule .fieldDefinition))) first last fields.children
  /-- The closing brace stands behind them. -/
  brace : (last.skip .spaced).rest = '\x7d' :: d.rest
  /-- The definition ends with it. -/
  behind : d.offset = (last.skip .spaced).offset + 1
  /-- So does the body. -/
  finish : fields.start + fields.text.length = d.offset
  /-- The definition starts where it is placed. -/
  start : (place source t).start = c.offset
  /-- The first field is found where it is read. -/
  first : (place source t).fieldStarts.min? = some first.offset
  /-- The strings of the body are strings of the definition. -/
  strings : stringsAll fields.children ⊆ t.strings
  /-- The numbers of the body are in range. -/
  numbers : (textsOfAll .number fields.children).all isInRange

theorem exists_isBody (hin : c.IsIn source) (hreturns : ReturnsEndLines source)
    (hc : c.skip .spaced = c) (h : Reads (.one (.rule .definition)) c d [t])
    (hcheck : checkDefinition t = .ok ()) {kind : RootKind} (hroot : rootKind? t = some kind)
    {fields : Tree Rule} (hbody : bodyOf? t = some fields) :
    ∃ first last, IsBody source c d t fields first last := by
  obtain ⟨m, hm, hread, hrule, hstrings, htexts⟩ := exists_body hc h hbody
  obtain ⟨first, last, hfirst, hskip, hfields, hlast, hbehind⟩ := exists_fields hread hrule
  have hinFirst := hin.of_reaches (hm.trans hfirst)
  -- the places of the first field and of the definition come out as they are
  obtain ⟨before, hsource, hlength⟩ := id hin
  obtain ⟨front, hsource', hlength'⟩ := id hinFirst
  have hfirstStart : (place source t).fieldStarts.min? = some first.offset := by
    have hrules := (standsBehind_of_oneOrMore rfl rfl hskip hfields).2
    rw [place]
    simp only [hroot, fieldStarts_of_body hbody fun field hfield => (hrules field hfield).1]
    exact min?_map_placeOf hskip hfields hsource' hlength' hreturns
  have hall := List.all_eq_true.mp (isInRange_of_checkDefinition hcheck)
  exact ⟨first, last, hinFirst, hskip, hfields, hlast, hbehind, hread.finish,
    placeOf_definition hc h hsource hlength hreturns, hfirstStart,
    List.Subset.trans (stringsAll_children_subset fields) hstrings,
    List.all_eq_true.mpr fun number hnumber =>
      hall number (htexts (textsOfAll_children_subset .number fields hnumber))⟩

/-- Between the first field and the brace stands a text. -/
theorem IsBody.exists_text {fields : Tree Rule} {first last : Cursor}
    (h : IsBody source c d t fields first last) : ∃ body,
      first.rest = body ++ '\x7d' :: d.rest ∧ d.offset = first.offset + body.length + 1 := by
  obtain ⟨body, hrest, hoffset⟩ := h.reads.reaches.trans (skip_reaches last .spaced)
  rw [h.brace] at hrest
  exact ⟨body, hrest, by rw [h.behind, hoffset]⟩

/-- The text of a definition that is placed where it begins ends behind its last
character. -/
theorem textEnd_place (hin : c.IsIn source) (hstart : (place source t).start = c.offset)
    (htext : text <+: c.rest) :
    textEnd source (place source t).start text = c.offset + text.length := by
  obtain ⟨before, hsource, hlength⟩ := hin
  rw [hstart]
  refine textEnd_of_begins ?_
  rwa [hsource, ← hlength, List.drop_left]

/-- **The lines of a root type that is cut out whole are fields**, if there are any. -/
theorem areFields_bodyLines (hin : c.IsIn source) (hreturns : ReturnsEndLines source)
    (htext : text <+: c.rest) (hc : c.skip .spaced = c) (h : Reads (.one (.rule .definition)) c d [t])
    (hcheck : checkDefinition t = .ok ()) {kind : RootKind} (hroot : rootKind? t = some kind)
    (hwhole : ∀ fields, bodyOf? t = some fields →
      fields.start + fields.text.length ≤ c.offset + text.length ∧
        '\x7d' ∉ slice source (fields.start + fields.text.length) (c.offset + text.length))
    (hquotes : ∀ p ∈ t.strings, p.2 = "\"\"".toList →
      (source.drop (p.1 + 2)).head? ≠ some '"') :
    bodyLines source (place source t) text = [] ∨
      AreFields ((bodyLines source (place source t) text).map String.toList) := by
  cases hbody : bodyOf? t with
  | none => exact .inl (bodyLines_of_no_body hbody)
  | some fields =>
    right
    obtain ⟨first, last, hbodyOf⟩ := exists_isBody hin hreturns hc h hcheck hroot hbody
    obtain ⟨inside, hinside, hoffset⟩ := hbodyOf.exists_text
    obtain ⟨hend, hbrace⟩ := hwhole fields hbody
    rw [hbodyOf.finish] at hend hbrace
    have hlines := @bodyLines_eq source text _ _ _ _ hbodyOf.first
      (by
        rw [textEnd_place hin hbodyOf.start htext]
        exact slice_of_body hbodyOf.isIn hinside hoffset hend) hbrace
    rw [hlines, map_toList_map_ofList]
    exact areFields_of_body hbodyOf.isIn hreturns hbodyOf.skip hbodyOf.reads hbodyOf.brace hinside
      (fun p hp => hquotes p (hbodyOf.strings hp)) hbodyOf.numbers

end Lines

end Sdl
end EntitySdl
