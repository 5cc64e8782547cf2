import EntitySdl.Proofs.OverrunBodies

/-! # Documents with bodies that end too soon

A type whose lines end their body too soon is read up to the first brace behind its
fields.  What is left of its lines is no definition, so no document goes on there.
-/
namespace EntitySdl
namespace Sdl

open Name Text Grammar Cursor

section Types

variable {name inner : List Char} {offset : Nat} {c d e m n : Cursor} {ts us vs : List (Tree Rule)}

/-- What matches behind the blanks after a first part matches behind that part. -/
theorem matches_seq_at {first second : Peg Rule} (h : sdl.Matches .spaced first c m us)
    (hm : m.skip .spaced = n) (h' : sdl.Matches .spaced second n d vs) :
    sdl.Matches .spaced (.seq first second) c d (us ++ vs) :=
  matches_seq_iff.mpr ⟨m, us, vs, h, by rwa [hm], rfl⟩

/-- Fields up to a brace are a body, whatever stands behind it. -/
theorem matches_fields (hc : c.rest = '\x7b' :: inner)
    (h : Reads (.one (Peg.oneOrMore (.rule .fieldDefinition)))
      (Cursor.skip ⟨c.offset + 1, inner⟩ .spaced) d ts)
    (hd : (d.skip .spaced).rest = '\x7d' :: e.rest) (he : e.offset = (d.skip .spaced).offset + 1) :
    sdl.Matches .spaced (.rule .fieldsDefinition) c e
      [.node .fieldsDefinition c.offset (c.textTo e) ts] := by
  have hbody : Reads (.one (body .fieldsDefinition)) c e ([] ++ (ts ++ [])) :=
    .seq (m := ⟨c.offset + 1, inner⟩) (.text hc rfl) (.seq h (.text hd he))
  rw [List.nil_append, List.append_nil] at hbody
  have hstart : c.skip .spaced = c := skip_eq_self_iff.mpr (by rw [hc]; rfl)
  exact matches_rule_of_body rfl
    (@Reads.found _ _ _ _ hbody { all := true } (by decide +kernel) (follows_all _) hstart)

/-- Before the opening brace of a body neither interfaces nor directives stand. -/
theorem absent_at_brace {r : Rule} (hr : r = .implementsInterfaces ∨ r = .constDirectives)
    (hc : c.rest = '\x7b' :: inner) : sdl.Matches .spaced (.optional (.rule r)) c c [] := by
  have hstart : c.skip .spaced = c := skip_eq_self_iff.mpr (by rw [hc]; rfl)
  have hbrace : (heads (.text ['\x7b'])).Begin c.rest :=
    .inl ⟨['\x7b'], List.mem_singleton.mpr rfl, by decide, inner, hc.symm⟩
  refine matches_optional_iff.mpr (.inr ⟨?_, rfl, rfl⟩)
  rcases hr with rfl | rfl <;>
    exact fails_of_not_begin (by decide +kernel) rfl hstart fun hbegin =>
      Heads.not_begin_of_apart (by decide +kernel) hbegin hbrace

/-- **A type is found up to the brace behind its fields**, whatever stands behind that. -/
theorem matches_type (hname : isIdentifierText name) (hinner : isSolidStart inner)
    (h : Reads (.one (Peg.oneOrMore (.rule .fieldDefinition)))
      ⟨offset + (BlockKind.type.opening name).length, inner⟩ d ts)
    (hd : (d.skip .spaced).rest = '\x7d' :: e.rest) (he : e.offset = (d.skip .spaced).offset + 1) :
    ∃ us, sdl.Matches .spaced (.rule .definition)
      ⟨offset, BlockKind.type.opening name ++ inner⟩ e us := by
  let rest := '\x7b' :: '\n' :: ' ' :: ' ' :: inner
  have hwritten : BlockKind.type.opening name ++ inner =
      "type".toList ++ (' ' :: (name ++ (' ' :: rest))) := by
    simp [BlockKind.opening, BlockKind.keyword, rest]
  have hlength : offset + (BlockKind.type.opening name).length =
      offset + 4 + 1 + name.length + 1 + 1 + 3 := by
    simp [BlockKind.opening, BlockKind.keyword]
    omega
  rw [hlength, ← skip_lineGap _ hinner] at h
  rw [hwritten]
  have hstart := @skip_solid ("type".toList ++ (' ' :: (name ++ (' ' :: rest)))) rfl offset
  have hbrace := @skip_solid rest rfl (offset + 4 + 1 + name.length + 1)
  -- one part behind the other, from the body back to the description
  have hbody := matches_seq_at (absent_at_brace (.inl rfl) rfl) hbrace
    (matches_seq_at (absent_at_brace (.inr rfl) rfl) hbrace
      (matches_optional_iff.mpr (.inl (matches_fields rfl h hd he))))
  have hname' := matches_seq_at (@matches_name _ (' ' :: rest) hname (by
    rintro x ⟨⟩
    decide) (offset + 4 + 1)) (skip_blank (by decide) rfl _) hbody
  have hkeyword : sdl.Matches .spaced (.text "type".toList)
      ⟨offset, "type".toList ++ (' ' :: (name ++ (' ' :: rest)))⟩
      ⟨offset + 4, ' ' :: (name ++ (' ' :: rest))⟩ [] := matches_text_iff.mpr ⟨rfl, rfl, rfl⟩
  have hdescription := @matches_no_description _ "type".toList (by decide) hstart
    (List.prefix_append _ _)
  have hobject := matches_seq_at hdescription hstart (matches_seq_at hkeyword
    (skip_blank (by decide) ((isSolid_name hname).append _).start _) hname')
  have hannounces : Announces (keyword .objectType)
      ⟨offset, "type".toList ++ (' ' :: (name ++ (' ' :: rest)))⟩ :=
    .plain hdescription (by rw [hstart]; exact List.prefix_append _ _)
  have htype : (.objectType : Rule) ∈ typeRules := by decide
  exact ⟨_, matches_definition_of_type htype hstart hannounces
    (matches_typeDefinition htype hstart hannounces
      (matches_rule_of_body rfl (matches_choice_iff.mpr (.inl hobject))))⟩

end Types

section Documents

variable {ps : List (Piece × List Char)} {back : List Char} {lines : List (List Char)}
  {offset : Nat} {ts : List (Tree Rule)}

/-- No document goes on behind a type whose body ends too soon. -/
theorem Overrun.not_definitions (h : Overrun lines) {name : List Char}
    (hname : isIdentifierText name) (more : List Char) :
    ¬ Definitions ⟨offset, BlockKind.type.write name (joinLines lines) ++ more⟩ ts := by
  have hwritten : BlockKind.type.write name (joinLines lines) ++ more =
      BlockKind.type.opening name ++ (joinLines lines ++ '\n' :: '\x7d' :: more) := by
    simp [BlockKind.write]
  rw [hwritten]
  -- behind the lines their own closing brace is left over
  obtain ⟨d, us, e, hreads, hbrace, hoffset, hstray⟩ :=
    h.reads (offset + (BlockKind.type.opening name).length) ('\x7d' :: more) (by
      rw [skip_blank (by decide) rfl]
      exact isStray_of_brace rfl)
  obtain ⟨vs, hmatches⟩ := matches_type hname (h.solid.append _).start hreads hbrace hoffset
  have hstart := @skip_solid (BlockKind.type.opening name ++
    (joinLines lines ++ '\n' :: '\x7d' :: more)) rfl offset
  intro hdefinitions
  cases hdefinitions with
  | done hend => cases hend
  | next h hrest =>
    obtain ⟨rfl, -⟩ := (definition_found hstart h hrest.follows).unique hmatches
    exact hstray.not_definitions (skip_skip _) hrest

theorem Piece.Stands.begins {piece : Piece} (h : piece.Stands) (behind : List Char) :
    definitionHeads.Begin (piece.text ++ '\n' :: behind) := by
  obtain ⟨d, t, hreads, -⟩ := h.reads 0 behind
  exact definition_begins (skip_solid (h.isSolid.append _).start 0) hreads

/-- A row of pieces begins with a definition, if what stands behind it does. -/
theorem begins_layOut (hps : AreLaid ps) (hsolid : isSolidStart back)
    (hback : definitionHeads.Begin back) :
    isSolidStart (layOut ps ++ back) ∧ definitionHeads.Begin (layOut ps ++ back) := by
  cases ps with
  | nil => exact ⟨hsolid, hback⟩
  | cons p rest =>
    obtain ⟨⟨hpiece, feeds, hgap, -⟩, -⟩ := List.forall_mem_cons.mp hps
    have hlaid : layOut (p :: rest) ++ back =
        p.1.text ++ '\n' :: (feeds ++ (layOut rest ++ back)) := by
      rw [layOut, hgap]
      simp only [List.append_assoc, List.cons_append]
    rw [hlaid]
    exact ⟨(hpiece.isSolid.append _).start, hpiece.begins _⟩

/-- Definitions that are read in a row of pieces go on behind them. -/
theorem definitions_behind_layOut (h : Definitions ⟨offset, layOut ps ++ back⟩ ts)
    (hps : AreLaid ps) (hsolid : isSolidStart back) (hback : definitionHeads.Begin back) :
    ∃ offset' ts', Definitions ⟨offset', back⟩ ts' := by
  induction ps generalizing offset ts with
  | nil => exact ⟨offset, ts, h⟩
  | cons p rest ih =>
    obtain ⟨piece, gap⟩ := p
    obtain ⟨hbehindSolid, hbehindBegins⟩ :=
      begins_layOut (List.forall_mem_cons.mp hps).2 hsolid hback
    obtain ⟨⟨hpiece, hgap⟩, hrest⟩ : (piece.Stands ∧ IsFeeds gap) ∧ AreLaid rest :=
      List.forall_mem_cons.mp hps
    obtain ⟨feeds, hfeeds, -⟩ := id hgap
    have hlaid : layOut ((piece, gap) :: rest) ++ back =
        piece.text ++ (gap ++ (layOut rest ++ back)) := by
      rw [layOut]
      simp only [List.append_assoc]
    have hbehind : gap ++ (layOut rest ++ back) = '\n' :: (feeds ++ (layOut rest ++ back)) := by
      rw [hfeeds]
      rfl
    obtain ⟨d, t, hreads, hd, -⟩ := hpiece.reads offset (feeds ++ (layOut rest ++ back))
    have hstart :=
      skip_solid (hpiece.isSolid.append ('\n' :: (feeds ++ (layOut rest ++ back)))).start offset
    rw [← hbehind, skip_gap hgap.isGap, skip_solid hbehindSolid] at hd
    rw [hlaid, hbehind] at h
    cases h with
    | done hend =>
      obtain ⟨x, more, htext, -⟩ := hpiece.isSolid
      rw [htext] at hend
      cases hend
    | next h hrest' =>
      -- the piece is the definition that is read first
      obtain ⟨rfl, -⟩ := (definition_found hstart h hrest'.follows).unique
        (definition_found hstart hreads (.inr (by rw [hd]; exact hbehindBegins)))
      rw [hd] at hrest'
      exact ih hrest' hrest

/-- A root type whose lines end their body too soon. -/
def Piece.Overruns : Piece → Prop
  | .kept _ => False
  | .root _ lines => Overrun lines

/-- Either all of several pieces stand, or there is a first one whose body ends too soon. -/
theorem areLaid_or_exists_overrun (hgaps : ∀ p ∈ ps, IsFeeds p.2)
    (hps : ∀ p ∈ ps, p.1.Stands ∨ p.1.Overruns) : AreLaid ps ∨
      ∃ front kind lines gap behind, ps = front ++ (.root kind lines, gap) :: behind ∧
        AreLaid front ∧ Overrun lines := by
  induction ps with
  | nil => exact .inl (by simp [AreLaid])
  | cons p rest ih =>
    obtain ⟨hgap, hgaps⟩ := List.forall_mem_cons.mp hgaps
    obtain ⟨hp, hps⟩ := List.forall_mem_cons.mp hps
    rcases hp with hstands | hoverruns
    · refine (ih hgaps hps).imp (fun hlaid => List.forall_mem_cons.mpr ⟨⟨hstands, hgap⟩, hlaid⟩) ?_
      rintro ⟨front, kind, lines, gap, behind, rfl, hfront, hlines⟩
      exact ⟨p :: front, kind, lines, gap, behind, rfl,
        List.forall_mem_cons.mpr ⟨⟨hstands, hgap⟩, hfront⟩, hlines⟩
    · obtain ⟨piece, gap⟩ := p
      cases piece with
      | kept text => cases hoverruns
      | root kind lines =>
        exact .inr ⟨[], kind, lines, gap, rest, rfl, by simp [AreLaid], hoverruns⟩

/-- **Documents with a body that ends too soon are rejected.**  If a row of pieces is accepted,
each of which stands by itself or is a type whose body ends too soon, all of them stand. -/
theorem areLaid_of_parseDocument (hgaps : ∀ p ∈ ps, IsFeeds p.2)
    (hps : ∀ p ∈ ps, p.1.Stands ∨ p.1.Overruns) (hparse : parseDocument (layOut ps) = .ok ts) :
    AreLaid ps := by
  refine (areLaid_or_exists_overrun hgaps hps).resolve_right ?_
  rintro ⟨front, kind, lines, gap, behind, rfl, hfront, hlines⟩
  obtain ⟨-, hdefinitions, -⟩ := parseDocument_eq_ok_iff.mp hparse
  have hsolid : isSolidStart (layOut ((.root kind lines, gap) :: behind)) :=
    (isSolid_write.append (gap ++ layOut behind)).start
  have hbegins : definitionHeads.Begin (layOut ((.root kind lines, gap) :: behind)) :=
    .inl ⟨"type".toList, by decide, by decide, ⟨_, rfl⟩⟩
  rw [layOut_append, skip_solid (begins_layOut hfront hsolid hbegins).1] at hdefinitions
  obtain ⟨_, _, hbehind⟩ := definitions_behind_layOut hdefinitions hfront hsolid hbegins
  exact hlines.not_definitions kind.isIdentifierText_typeName _ hbehind

/-- A text that is split as a document in such pieces is laid out in pieces that stand. -/
theorem areLaid_of_parse {name source : String} {fragment : Fragment}
    (hgaps : ∀ p ∈ ps, IsFeeds p.2) (hps : ∀ p ∈ ps, p.1.Stands ∨ p.1.Overruns) (hne : ps ≠ [])
    (hsource : source.toList = layOut ps) (hparse : Fragment.parse name source = .ok fragment) :
    AreLaid ps := by
  have hcomment : isCommentOnly (layOut ps) = false := by
    cases ps with
    | nil => exact absurd rfl hne
    | cons p rest =>
      obtain ⟨piece, gap⟩ := p
      have hp := hps _ List.mem_cons_self
      cases piece with
      | kept text =>
        have hstands := hp.resolve_right id
        exact isCommentOnly_layOut hstands.isSolid hstands.isKept
      | root kind lines => exact isCommentOnly_layOut isSolid_write isKept_write
  cases hdocument : parseDocument (layOut ps) with
  | ok definitions => exact areLaid_of_parseDocument hgaps hps hdocument
  | error fault =>
    rw [Fragment.parse, hsource, if_neg (by simp [hcomment]), hdocument] at hparse
    cases hparse

end Documents

end Sdl
end EntitySdl
