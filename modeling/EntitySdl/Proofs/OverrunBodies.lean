import EntitySdl.Proofs.MergedSources
import EntitySdl.Proofs.StrayFields

/-! # Bodies that are cut out too far

The lines of a root type go up to the last closing brace of what is kept of it.  If this
stands in a comment behind the body, then the brace of the body is among the lines, with
nothing but blanks and comments behind it.  Wherever such lines are put, their first part
is read as fields, the brace ends the body, and what stands behind the lines is stray.
-/
namespace EntitySdl
namespace Sdl

open Name Text Grammar Cursor Sdl.Tree

/-- Lines that begin with fields, behind which the closing brace of their body stands. -/
structure Overrun (lines : List (List Char)) : Prop where
  /-- They begin with a token. -/
  solid : IsSolid (joinLines lines)
  /-- Behind the brace, what is stray behind the lines is stray. -/
  reads : ∀ offset behind,
    IsStray (Cursor.skip ⟨offset + (joinLines lines).length, '\n' :: behind⟩ .spaced) →
      ∃ (d : Cursor) (ts : List (Tree Rule)) (e : Cursor),
        Reads (.one (Peg.oneOrMore (.rule .fieldDefinition)))
          ⟨offset, joinLines lines ++ '\n' :: behind⟩ d ts ∧
        (d.skip .spaced).rest = '\x7d' :: e.rest ∧ e.offset = (d.skip .spaced).offset + 1 ∧
          IsStray (e.skip .spaced)

/-- Lines that are fields, or that begin with fields and end their body too soon. -/
def MayOverrun (lines : List (List Char)) : Prop := lines = [] ∨ AreFields lines ∨ Overrun lines

section Joined

variable {lines more : List (List Char)} {c d : Cursor} {ts : List (Tree Rule)}

theorem Overrun.ne_nil (h : Overrun lines) : lines ≠ [] := by
  rintro rfl
  obtain ⟨c, rest, hlines, -⟩ := h.solid
  simp [joinLines] at hlines

theorem isStray_of_fields (h : Reads (.one (Peg.oneOrMore (.rule .fieldDefinition))) c d ts)
    (hc : c.skip .spaced = c) : IsStray c := by
  obtain ⟨_, _, _, hfirst, -, -⟩ := reads_seq_iff.mp h
  exact isStray_of_field hfirst hc

/-- Lines that begin with fields are stray, if what stands behind them is. -/
theorem isStray_of_lines (h : AreFields lines ∨ Overrun lines) (offset : Nat)
    (behind : List Char)
    (hbehind : IsStray (Cursor.skip ⟨offset + (joinLines lines).length, '\n' :: behind⟩ .spaced)) :
    Cursor.skip ⟨offset, joinLines lines ++ '\n' :: behind⟩ .spaced =
        ⟨offset, joinLines lines ++ '\n' :: behind⟩ ∧
      IsStray ⟨offset, joinLines lines ++ '\n' :: behind⟩ := by
  rcases h with h | h
  · have hsolid := skip_solid (h.solid.append ('\n' :: behind)).start offset
    obtain ⟨_, _, hreads, -, -⟩ := h.reads behind offset
    exact ⟨hsolid, isStray_of_fields hreads hsolid⟩
  · have hsolid := skip_solid (h.solid.append ('\n' :: behind)).start offset
    obtain ⟨_, _, _, hreads, -⟩ := h.reads offset behind hbehind
    exact ⟨hsolid, isStray_of_fields hreads hsolid⟩

theorem joinLines_append_feed (hne : lines ≠ []) (hne' : more ≠ []) (behind : List Char) :
    joinLines (lines ++ more) ++ '\n' :: behind =
      joinLines lines ++ '\n' :: (' ' :: ' ' :: (joinLines more ++ '\n' :: behind)) := by
  rw [joinLines_append hne hne', List.append_assoc, List.append_assoc]
  rfl

theorem skip_lineGap (offset : Nat) {cs : List Char} (h : isSolidStart cs) :
    Cursor.skip ⟨offset, '\n' :: ' ' :: ' ' :: cs⟩ .spaced = ⟨offset + 3, cs⟩ :=
  (@skip_gap lineGap cs (by decide) offset).trans (skip_solid h _)

theorem length_joinLines_append (hne : lines ≠ []) (hne' : more ≠ []) :
    (joinLines (lines ++ more)).length =
      (joinLines lines).length + 3 + (joinLines more).length := by
  rw [joinLines_append hne hne', List.length_append, List.length_append, Nat.add_assoc]
  rfl

/-- Fields before lines that end their body too soon do so too. -/
theorem AreFields.append_overrun (h : AreFields lines) (h' : Overrun more) :
    Overrun (lines ++ more) where
  solid := by
    rw [joinLines_append h.ne_nil h'.ne_nil]
    exact h.solid.append _
  reads offset behind hstray := by
    rw [length_joinLines_append h.ne_nil h'.ne_nil, ← Nat.add_assoc, ← Nat.add_assoc] at hstray
    rw [joinLines_append_feed h.ne_nil h'.ne_nil]
    obtain ⟨d, ts, hreads, hd, -⟩ :=
      h.reads (' ' :: ' ' :: (joinLines more ++ '\n' :: behind)) offset
    obtain ⟨f, us, e, hreads', hbrace, hoffset, he⟩ := h'.reads _ behind hstray
    rw [skip_lineGap _ (h'.solid.append _).start] at hd
    rw [← hd] at hreads'
    obtain ⟨last, hall, hlast⟩ := reads_oneOrMore_append hreads hreads'
    rw [← hlast] at hbrace hoffset
    exact ⟨last, _, e, hall, hbrace, hoffset, he⟩

/-- Lines that end their body too soon do so before further ones. -/
theorem Overrun.append (h : Overrun lines) (hne : more ≠ []) (h' : AreFields more ∨ Overrun more) :
    Overrun (lines ++ more) where
  solid := by
    rw [joinLines_append h.ne_nil hne]
    exact h.solid.append _
  reads offset behind hstray := by
    rw [length_joinLines_append h.ne_nil hne, ← Nat.add_assoc, ← Nat.add_assoc] at hstray
    rw [joinLines_append_feed h.ne_nil hne]
    obtain ⟨hsolid, hmore⟩ := isStray_of_lines h' _ behind hstray
    refine h.reads offset _ ?_
    rw [skip_lineGap _ (skip_eq_self_iff.mp hsolid)]
    exact hmore

theorem MayOverrun.append (h : MayOverrun lines) (h' : MayOverrun more) :
    MayOverrun (lines ++ more) := by
  rcases h with rfl | h
  · exact h'
  · rcases h' with rfl | h'
    · rw [List.append_nil]
      exact .inr h
    · refine .inr ?_
      rcases h with h | h
      · exact h'.imp h.append h.append_overrun
      · exact .inr (h.append (h'.elim AreFields.ne_nil Overrun.ne_nil) h')

end Joined

section Bodies

variable {source body rest text cut : List Char} {c d first last e : Cursor} {t : Tree Rule}
  {ts : List (Tree Rule)}

/-- **A body that is cut out too far ends too soon.** -/
theorem overrun_of_body (hin : first.IsIn source) (hreturns : ReturnsEndLines source)
    (hfirst : first.skip .spaced = first)
    (h : Reads (.one (Peg.oneOrMore (.rule .fieldDefinition))) first last ts)
    (hlast : (last.skip .spaced).rest = '\x7d' :: e.rest)
    (hbody : first.rest = body ++ '\x7d' :: rest) (hlt : rest.length < e.rest.length)
    (hbeyond : (e.skip .spaced).rest.length ≤ rest.length)
    (hink : ∀ x, (e.skip .spaced).rest.head? = some x → isBlank x = false)
    (hquotes : ∀ p ∈ stringsAll ts, p.2 = "\"\"".toList →
      (source.drop (p.1 + 2)).head? ≠ some '"') :
    Overrun (trimmedLines (splitAt (· == '\n') body)) := by
  obtain ⟨hsolid, inner, back, hback, hends, hrest, halike⟩ :=
    exists_braceSeam hin hreturns hfirst h hbody
  refine ⟨hsolid, fun offset behind hstray => ?_⟩
  have hstart : Cursor.skip ⟨offset, joinLines (trimmedLines (splitAt (· == '\n') body)) ++
      '\n' :: behind⟩ .spaced = ⟨offset, _⟩ := skip_solid (hsolid.append _).start _
  have hlonger : rest.length + 1 ≤ (last.skip .spaced).rest.length := by
    rw [hlast, List.length_cons]
    omega
  have hoff : ¬ (braceSeam hback hends behind).Off (last.skip .spaced).rest := by
    rintro (hshort | ⟨x, hx, hblank⟩)
    · exact absurd hshort (Nat.not_lt.mpr hlonger)
    · rw [hlast] at hx
      cases hx
      cases hblank
  have hnear : (braceSeam hback hends behind).Near (first.skip .spaced).rest
      (Cursor.skip ⟨offset, joinLines (trimmedLines (splitAt (· == '\n') body)) ++
        '\n' :: behind⟩ .spaced).rest := by
    rw [hfirst, hstart]
    exact .inl (halike behind)
  obtain ⟨d', us, h', hnear', -⟩ := Reads.relaid h rfl hin
    (keepsStrings_of_body hin h hlonger hrest hback hquotes rfl rfl) hoff hfirst hstart hnear rfl
    (Seam.relates_sameTrees _ _)
  -- the texts are alike up to the brace of the body and behind it
  rw [hlast] at hnear'
  have halike' := hnear'.resolve_right fun ⟨hresume, _⟩ =>
    absurd (congrArg List.length (List.cons.inj hresume).2) (Nat.ne_of_gt hlt)
  obtain ⟨s, hs, hbehind⟩ := @Seam.Alike.strip_ink _ e.rest _ ['\x7d'] halike' (by decide) hlt
  have hreaches : Cursor.Reaches ⟨offset, joinLines (trimmedLines (splitAt (· == '\n') body)) ++
      '\n' :: behind⟩ ⟨(d'.skip .spaced).offset + 1, s⟩ :=
    (h'.reaches.trans (skip_reaches d' .spaced)).trans ⟨['\x7d'], hs, rfl⟩
  have hskip := @skip_eq_of_next (braceSeam hback hends behind) _ _ _ hreaches (by
    rw [skip_rest _ 0]
    rw [skip_rest _ 0] at hbeyond hink
    exact hbehind.behindIgnored_beyond (Nat.lt_succ_of_le hbeyond) hink 0)
  refine ⟨d', us, ⟨(d'.skip .spaced).offset + 1, s⟩, h', hs, rfl, ?_⟩
  rw [hskip]
  exact hstray

/-- In a text in which a character stands, it stands somewhere for the last time. -/
theorem exists_last_of_mem {x : Char} {cs : List Char} (h : x ∈ cs) :
    ∃ before behind, cs = before ++ x :: behind ∧ x ∉ behind := by
  obtain ⟨behind, before, hsplit, hnot⟩ := List.eq_append_cons_of_mem (List.mem_reverse.mpr h)
  refine ⟨before.reverse, behind.reverse, ?_, fun hmem => hnot (List.mem_reverse.mp hmem)⟩
  rw [← List.reverse_reverse cs, hsplit, List.reverse_append, List.reverse_cons,
    List.append_assoc]
  rfl

/-- What is kept of a definition goes on behind its end, if it is kept up to there. -/
theorem IsReadCut.rest_eq (h : IsReadCut source c d t text cut)
    (hle : d.offset ≤ c.offset + text.length) :
    d.rest = slice source d.offset (c.offset + text.length) ++ (cut ++ (d.skip .spaced).rest) := by
  have hin := h.isIn.of_reaches h.reads.reaches
  obtain ⟨read, hrest, hoffset⟩ := h.reads.reaches
  obtain ⟨behind, htext, hbehind⟩ : ∃ behind, text = read ++ behind ∧
      d.rest = behind ++ (cut ++ (d.skip .spaced).rest) := by
    rcases List.append_eq_append_iff.mp (h.isCut.rest.symm.trans hrest) with
      ⟨more, hread, hmore⟩ | ⟨more, htext, hmore⟩
    · have hlength := congrArg List.length hread
      rw [List.length_append] at hlength
      obtain rfl : more = [] := List.length_eq_zero_iff.mp (by omega)
      exact ⟨[], by rw [hread]; simp, hmore.symm⟩
    · exact ⟨more, htext, hmore⟩
  rw [slice_of_reaches hin hbehind (by rw [hoffset, htext, List.length_append, Nat.add_assoc])]
  exact hbehind

/-- **The lines of a root type** that is cut out up to the end of its body are fields, or they
end their body too soon. -/
theorem mayOverrun_bodyLines (h : IsReadCut source c d t text cut) {kind : RootKind}
    (hroot : rootKind? t = some kind) (huncut : IsUncut source t (d.skip .spaced).offset) :
    MayOverrun ((bodyLines source (place source t) text).map String.toList) := by
  unfold IsUncut at huncut
  rw [hroot, h.keptEnd] at huncut
  cases hbody : bodyOf? t with
  | none =>
    rw [bodyLines_of_no_body hbody]
    exact .inl rfl
  | some fields =>
    obtain ⟨first, last, hbodyOf⟩ := exists_isBody h.isIn h.returns h.skip h.reads h.check hroot
      hbody
    have hend := huncut fields hbody
    by_cases hbrace : '\x7d' ∈ slice source d.offset (c.offset + text.length)
    · rw [hbodyOf.finish] at hend
      obtain ⟨inside, hinside, hoffset⟩ := hbodyOf.exists_text
      obtain ⟨middle, behind, hsplit, hnot⟩ := exists_last_of_mem hbrace
      have hslice := slice_of_body hbodyOf.isIn hinside hoffset hend
      have hrest := h.rest_eq hend
      rw [hsplit, List.append_assoc] at hrest
      -- the last brace stands behind that of the body
      have hlines := @bodyLines_eq source text _ _ (inside ++ '\x7d' :: middle) behind hbodyOf.first
        (by
          rw [textEnd_place h.isIn hbodyOf.start ⟨_, h.isCut.rest.symm⟩, hslice, hsplit,
            List.append_assoc]
          rfl) hnot
      rw [hlines, map_toList_map_ofList]
      refine .inr (.inr (@overrun_of_body source _ (behind ++ (cut ++ (d.skip .spaced).rest)) _ _ _
        _ hbodyOf.isIn h.returns hbodyOf.skip hbodyOf.reads hbodyOf.brace ?_ ?_ ?_ ?_ ?_))
      · rw [hinside, hrest, List.append_assoc]
        rfl
      · rw [hrest]
        simp only [List.length_append, List.cons_append, List.length_cons]
        omega
      · rw [List.length_append, List.length_append]
        omega
      · exact not_isBlank_of_follows h.follows
      · exact fun p hp => h.quotes p (hbodyOf.strings hp)
    · have hwhole : ∀ fields, bodyOf? t = some fields →
          fields.start + fields.text.length ≤ c.offset + text.length ∧
            '\x7d' ∉ slice source (fields.start + fields.text.length) (c.offset + text.length) := by
        intro fields' hbody'
        cases hbody.symm.trans hbody'
        refine ⟨hend, ?_⟩
        rw [hbodyOf.finish]
        exact hbrace
      refine (areFields_bodyLines h.isIn h.returns ⟨_, h.isCut.rest.symm⟩ h.skip h.reads h.check hroot hwhole
        h.quotes).imp (fun hnil => ?_) .inl
      rw [hnil]
      rfl

end Bodies

end Sdl
end EntitySdl
