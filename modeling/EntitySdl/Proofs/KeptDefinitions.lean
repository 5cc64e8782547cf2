import EntitySdl.Proofs.MergedSources

/-! # Definitions that are kept

Of the definitions of a document all but the root types are kept as they are written.
Each of them, taken out of its document, is a document of that one definition, provided
that it is found by its line and column, and that the lines cut off behind it are
comments: not lines of its strings, and without carriage returns that end a comment in
the middle of a line.
-/
namespace EntitySdl
namespace Sdl

open Name Text Grammar Cursor Sdl.Tree

/-- Whether a definition is kept as it is written. -/
def isKeptDefinition (t : Tree Rule) : Bool := (rootKind? t).isNone

/-- A text stands in a document, and is itself a document of a single definition that
says the same as the given one. -/
def IsWrittenAs (source : List Char) (t : Tree Rule) (text : String) : Prop :=
  text.toList <:+: source ∧
    ∃ u, parseDocument text.toList = .ok [u] ∧ u.unplaced = t.unplaced

/-- Of a definition that the next one follows at a place, nothing but comments is cut
off. -/
structure KeepsDefinition (source : List Char) (t : Tree Rule) (finish : Nat) : Prop where
  /-- Its strings end in what is kept. -/
  strings : ∀ p ∈ t.strings, p.1 + p.2.length ≤ keptEnd source t.start finish
  /-- The comments that are cut off end with their lines. -/
  comments : ReturnsEndComments (slice source (keptEnd source t.start finish) finish)

/-- The definitions of a source are found and kept. -/
structure KeepsDefinitions (source : List Char) (definitions : List (Tree Rule)) : Prop where
  /-- No carriage return stands before a definition on its line. -/
  lines : ∀ t ∈ definitions, LineIsClear source t.start
  /-- Nothing but comments is cut off from those that are kept. -/
  kept : ∀ p ∈ withFinish source definitions, isKeptDefinition p.1 →
    KeepsDefinition source p.1 p.2

section Comments

/-- A place that is reached behind a line feed is reached from there. -/
theorem behindIgnored_of_feed {front cs : List Char} {inComment : Bool} {offset : Nat}
    (h : (behindIgnored inComment offset (front ++ '\n' :: cs)).rest.length ≤ cs.length) :
    (behindIgnored inComment offset (front ++ '\n' :: cs)).rest =
      (behindIgnored false 0 cs).rest := by
  induction front generalizing inComment offset with
  | nil => cases inComment <;> exact behindIgnored_rest false _ _ cs
  | cons x front ih =>
    rw [List.cons_append, behindIgnored.eq_def] at h ⊢
    cases inComment with
    | true => exact ih h
    | false =>
      by_cases hseparator : isSeparator x
      · simp only [hseparator, if_true] at h ⊢
        exact ih h
      · by_cases hmark : x == '#'
        · simp only [hseparator, hmark, if_true, Bool.false_eq_true, if_false] at h ⊢
          exact ih h
        · -- reading would stop before the line feed
          simp only [hseparator, hmark, Bool.false_eq_true, if_false, List.length_cons,
            List.length_append] at h
          omega

/-- Behind a comment mark nothing is reached on the same line. -/
theorem behindIgnored_ne_of_comment {blanks body rest : List Char} {x : Char}
    (hblanks : IsBlankText blanks) (hbody : ∀ c ∈ body, isLineEnd c = false)
    (hx : isBlank x = false) (offset : Nat) :
    (behindIgnored false offset (blanks ++ '#' :: (body ++ x :: rest))).rest ≠ x :: rest := by
  intro h
  rcases gap_behindIgnored hblanks ('#' :: (body ++ x :: rest)) false (by simp) offset with
    hgap | ⟨y, hy, hblank⟩
  · have hcomment : (behindIgnored false offset ('#' :: (body ++ x :: rest))).rest =
        (behindIgnored (!isLineEnd x) (offset + 1 + body.length + 1) rest).rest := by
      change (behindIgnored true (offset + 1) (body ++ x :: rest)).rest = _
      rw [behindIgnored_comment hbody, behindIgnored]
    have hle := (behindIgnored_reaches (!isLineEnd x) (offset + 1 + body.length + 1) rest).length_le
    rw [← hcomment, ← hgap, h] at hle
    exact Nat.not_succ_le_self _ hle
  · rw [h] at hy
    cases hy
    rw [hx] at hblank
    cases hblank

/-- A line that is a comment, and goes on with a character that is no blank and no
comment mark, has a comment mark before it. -/
theorem exists_mark {line more : List Char} {x : Char}
    (hcomment : isCommentLine (line ++ x :: more)) (hx : isBlank x = false) (hmark : x ≠ '#') :
    ∃ blanks body, line = blanks ++ '#' :: body ∧ IsBlankText blanks := by
  obtain ⟨blanks, hsplit, hblanks, -⟩ := exists_trimStart (line ++ x :: more)
  cases hstart : trimStart (line ++ x :: more) with
  | nil => simp [isCommentLine, hstart] at hcomment
  | cons y body =>
    obtain rfl : y = '#' := by simpa [isCommentLine, hstart] using hcomment
    rw [hstart] at hsplit
    rcases List.append_eq_append_iff.mp hsplit with ⟨more', hblank, hmore⟩ | ⟨more', hline, hmore⟩
    · cases more' with
      | nil => exact absurd (List.cons.inj hmore).1 hmark
      | cons z more' =>
        obtain rfl := (List.cons.inj hmore).1
        rw [hblanks x (by simp [hblank])] at hx
        cases hx
    · cases more' with
      | nil => exact absurd (List.cons.inj hmore).1.symm hmark
      | cons z more' =>
        obtain rfl := (List.cons.inj hmore).1
        exact ⟨blanks, more', hline, hblanks⟩

theorem exists_first_piece {line : List Char} (hline : '\n' ∉ line) (cs : List Char) :
    ∃ more pieces, splitAt (· == '\n') (line ++ cs) = (line ++ more) :: pieces := by
  induction line with
  | nil => exact List.exists_cons_of_ne_nil (splitAt_ne_nil _ cs)
  | cons x line ih =>
    rw [List.mem_cons, not_or] at hline
    obtain ⟨more, pieces, hsplit⟩ := ih hline.2
    refine ⟨more, pieces, ?_⟩
    rw [List.cons_append, splitAt, if_neg (by simpa using Ne.symm hline.1), hsplit]
    rfl

/-- A place that is reached is reached on its line, which is one of those between line
feeds. -/
theorem exists_line_of_behindIgnored {before rest : List Char} {x : Char}
    (hreached : (behindIgnored false 0 (before ++ x :: rest)).rest = x :: rest) (hx : x ≠ '\n') :
    ∃ front line more, before = front ++ line ∧ '\n' ∉ line ∧
      (behindIgnored false 0 (line ++ x :: rest)).rest = x :: rest ∧
        line ++ x :: more ∈ splitAt (· == '\n') (before ++ x :: rest) := by
  have hpiece : ∀ line, '\n' ∉ line →
      ∃ more, line ++ x :: more ∈ splitAt (· == '\n') (line ++ x :: rest) := by
    intro line hline
    have hfeed : '\n' ∉ line ++ [x] := by
      rw [List.mem_append, List.mem_singleton, not_or]
      exact ⟨hline, Ne.symm hx⟩
    obtain ⟨more, pieces, hsplit⟩ := exists_first_piece hfeed rest
    rw [List.append_assoc, List.append_assoc] at hsplit
    exact ⟨more, List.mem_of_mem_head? (congrArg List.head? hsplit)⟩
  rcases exists_last_line before with ⟨lines, line, rfl, hline⟩ | hline
  · rw [List.append_assoc, List.cons_append] at hreached ⊢
    obtain ⟨more, hmore⟩ := hpiece line hline
    refine ⟨lines ++ ['\n'], line, more, by simp, hline, ?_, ?_⟩
    · rw [← behindIgnored_of_feed (by rw [hreached]; simp), hreached]
    · rw [splitAt_append_feed]
      exact List.mem_append_right _ hmore
  · obtain ⟨more, hmore⟩ := hpiece before hline
    exact ⟨[], before, more, rfl, hline, hreached, hmore⟩

/-- In a text of comments nothing but comments and blanks is reached, unless a carriage return
stands before it on its line. -/
theorem isCommentOnly_eq_false_of_behindIgnored {before rest : List Char} {x : Char}
    (hreached : (behindIgnored false 0 (before ++ x :: rest)).rest = x :: rest)
    (hx : isBlank x = false) (hmark : x ≠ '#')
    (hclear : LineIsClear (before ++ x :: rest) before.length) :
    isCommentOnly (before ++ x :: rest) = false := by
  rw [← Bool.not_eq_true]
  intro hcomment
  have hne : x ≠ '\n' := by
    rintro rfl
    rw [isBlank_of_lineFeed] at hx
    cases hx
  obtain ⟨front, line, more, hbefore, hfeed, hline, hmem⟩ :=
    exists_line_of_behindIgnored hreached hne
  have hreturn : '\r' ∉ line := hclear front line (by rw [List.take_left, hbefore]) hfeed
  -- the line is no blank one, so that the comment begins before the place
  have hkind := line_of_isCommentOnly hcomment hmem
  rw [not_isBlankLine (c := x) (by simp) hx, Bool.or_false] at hkind
  obtain ⟨blanks, body, rfl, hblanks⟩ := exists_mark hkind hx hmark
  simp only [List.mem_append, List.mem_cons, not_or] at hfeed hreturn
  rw [List.append_assoc, List.cons_append] at hline
  exact behindIgnored_ne_of_comment hblanks (not_isLineEnd_of_mem hfeed.2.2 hreturn.2.2) hx 0 hline

end Comments

section Kept

variable {source text cut : List Char} {c d : Cursor} {t : Tree Rule} {ts : List (Tree Rule)}

/-- A text in which a definition is found is not taken for comments. -/
theorem isCommentOnly_eq_false_of_reads
    (h : Reads (.one (.rule .definition)) (Cursor.skip ⟨0, source⟩ .spaced) d [t])
    (hclear : LineIsClear source t.start) : isCommentOnly source = false := by
  have hbegin := definition_begins (skip_skip _) h
  obtain ⟨u, hu, -, hstart, -⟩ := standsBehind_of_reads rfl rfl (skip_skip _) h
  obtain rfl : t = u := by simpa using hu
  obtain ⟨before, hsource, hlength⟩ := isIn_start source
  cases hrest : (Cursor.skip ⟨0, source⟩ .spaced).rest with
  | nil =>
    rw [hrest] at hbegin
    exact absurd hbegin Heads.not_begin_nil
  | cons x rest =>
    have hsolid := skip_eq_self_iff.mp (skip_skip ⟨0, source⟩)
    rw [hrest] at hsource hbegin hsolid
    have hmark : x ≠ '#' := by
      rintro rfl
      cases hsolid
    rw [hstart, ← hlength] at hclear
    have hreached : (behindIgnored false 0 source).rest = x :: rest := hrest
    rw [hsource] at hclear hreached ⊢
    exact isCommentOnly_eq_false_of_behindIgnored hreached
      (not_isBlank_of_definition hbegin x rfl) hmark hclear

/-- A definition that is read by itself is a document. -/
theorem parseDocument_of_reads (hsolid : IsSolid text)
    (h : Reads (.one (.rule .definition)) ⟨0, text⟩ d [t]) (hd : (d.skip .spaced).rest = [])
    (hcheck : checkDefinition t = .ok ()) : parseDocument text = .ok [t] := by
  refine parseDocument_eq_ok_iff.mpr ⟨by simp, ?_, by simpa using hcheck⟩
  have hstart : Cursor.skip ⟨0, text⟩ .spaced = ⟨0, text⟩ := by
    have := skip_solid (hsolid.append []).start 0
    rwa [List.append_nil] at this
  rw [hstart]
  exact .next h (.done hd)

/-- The text of a definition of which the strings are kept is a document by itself, which
says the same. -/
theorem exists_parse_of_isCut (hin : c.IsIn source) (hreturns : ReturnsEndComments cut)
    (hc : c.skip .spaced = c) (h : Reads (.one (.rule .definition)) c d [t])
    (hd : Follows definitionHeads d) (hcheck : checkDefinition t = .ok ())
    (hcut : IsCut source c d text cut)
    (hends : ∀ p ∈ t.strings, p.1 + p.2.length ≤ c.offset + text.length) :
    ∃ u, parseDocument text = .ok [u] ∧ u.outline = t.outline ∧ u.unplaced = t.unplaced := by
  have hfeeds : ∀ x, ([] : List Char).head? = some x → x = '\n' := nofun
  obtain ⟨d', u, h', hd', houtline, hunplaced⟩ :=
    exists_relaid_of_isCut hin hreturns hc h hd hcut hends hfeeds (absurd rfl) 0
  rw [List.append_nil] at h'
  refine ⟨u, parseDocument_of_reads (isSolid_of_isCut hcut hc) h' ?_ ?_, houtline, hunplaced rfl⟩
  · rw [hd']
    rfl
  · rw [checkDefinition_congr houtline, hcheck]

/-- A definition of which the strings are kept is written as its text. -/
theorem isWrittenAs_of_isCut (hin : c.IsIn source) (hc : c.skip .spaced = c)
    (h : Reads (.one (.rule .definition)) c d [t]) (hd : Follows definitionHeads d)
    (hcheck : checkDefinition t = .ok ()) (hcut : IsCut source c d text cut)
    (hkeeps : KeepsDefinition source t (d.skip .spaced).offset) :
    IsWrittenAs source t (String.ofList text) := by
  obtain ⟨hends, hreturns⟩ := hkeeps
  rw [keptEnd_of_isCut hc h hcut] at hends
  rw [keptEnd_of_isCut hc h hcut, slice_of_isCut hin h hcut] at hreturns
  rw [IsWrittenAs, String.toList_ofList]
  constructor
  · obtain ⟨before, hsource, -⟩ := hin
    exact ⟨before, cut ++ (d.skip .spaced).rest, by rw [hsource, hcut.rest, List.append_assoc]⟩
  · obtain ⟨u, hu, -, hunplaced⟩ := exists_parse_of_isCut hin hreturns hc h hd hcheck hcut hends
    exact ⟨u, hu, hunplaced⟩

/-- Only definitions that are kept are added to those of a fragment. -/
theorem definitions_addDefinition (fragment : Fragment) (source : List Char) (t : Tree Rule)
    (text : List Char) : (fragment.addDefinition source (place source t) text).definitions =
      fragment.definitions ++ if isKeptDefinition t then [String.ofList text] else [] := by
  unfold Fragment.addDefinition isKeptDefinition place
  cases rootKind? t with
  | none => rfl
  | some kind => cases kind <;> exact (List.append_nil _).symm

/-- The definitions behind a place are written one after the other, but for the root
types. -/
theorem exists_definitions_ofPlaced (h : Definitions c ts) (hc : c.skip .spaced = c)
    (hin : c.IsIn source) (hchecks : ∀ t ∈ ts, checkDefinition t = .ok ())
    (hkeeps : KeepsDefinitions source ts) (fragment : Fragment) :
    ∃ texts, (Fragment.ofPlaced source (ts.map (place source)) fragment).definitions =
        fragment.definitions ++ texts ∧
      List.Forall₂ (IsWrittenAs source) (ts.filter isKeptDefinition) texts := by
  induction h generalizing fragment with
  | done => exact ⟨[], (List.append_nil _).symm, .nil⟩
  | @next c d t ts h hrest ih =>
    obtain ⟨hcheck, hchecks⟩ := List.forall_mem_cons.mp hchecks
    obtain ⟨hkept, hkepts⟩ := List.forall_mem_cons.mp hkeeps.kept
    have hlines := (List.forall_mem_cons.mp hkeeps.lines).2
    obtain ⟨text, cut, hcut, hsplit⟩ := exists_ofPlaced_cons h hrest hc hin hkeeps.lines
    have hinRest := hin.of_reaches (h.reaches.trans (skip_reaches d .spaced))
    obtain ⟨texts, htexts, hwritten⟩ := ih (skip_skip d) hinRest hchecks ⟨hlines, hkepts⟩
      (fragment.addDefinition source (place source t) text)
    rw [definitions_addDefinition] at htexts
    rw [hsplit, htexts, List.filter_cons, List.append_assoc]
    refine ⟨_, rfl, ?_⟩
    by_cases hroot : isKeptDefinition t
    · rw [if_pos hroot, if_pos hroot]
      have hkeep := hkept hroot
      rw [hrest.next_start (skip_skip d) hinRest] at hkeep
      exact .cons (isWrittenAs_of_isCut hin hc h hrest.follows hcheck hcut hkeep) hwritten
    · rwa [if_neg hroot, if_neg hroot]

/-- Where carriage returns belong to line ends, only the strings matter. -/
theorem keepsDefinitions_of_strings (hparse : parseDocument source = .ok ts)
    (hreturns : ReturnsEndLines source)
    (hstrings : ∀ p ∈ withFinish source ts, isKeptDefinition p.1 →
      ∀ q ∈ p.1.strings, q.1 + q.2.length ≤ keptEnd source p.1.start p.2) :
    KeepsDefinitions source ts where
  lines := (parseDocument_eq_ok_iff.mp hparse).2.1.lineIsClear (skip_skip _) (isIn_start source)
    hreturns
  kept p hp hroot := by
    refine ⟨hstrings p hp hroot, ?_⟩
    have hbehind : ∀ start finish, ReturnsEndLines
        (slice source start finish ++ (source.drop start).drop (finish - start)) := by
      intro start finish
      rw [slice, List.take_append_drop]
      rw [← List.take_append_drop start source] at hreturns
      exact hreturns.of_append
    exact (hbehind _ _).comments

end Kept

/-- **Kept definitions are verbatim and complete.**  A document whose definitions are found
and kept is split, and the texts that are kept are those of its definitions other than
the root types, in order: each of them stands in the document, and by itself is a
document of that one definition. -/
theorem parse_keeps_definitions {source : String} {definitions : List (Tree Rule)}
    (hparse : parseDocument source.toList = .ok definitions)
    (hkeeps : KeepsDefinitions source.toList definitions) (name : String) :
    ∃ fragment, Fragment.parse name source = .ok fragment ∧
      List.Forall₂ (IsWrittenAs source.toList) (definitions.filter isKeptDefinition)
        fragment.definitions := by
  obtain ⟨hne, hdefinitions, hchecks⟩ := parseDocument_eq_ok_iff.mp hparse
  have hcomment : isCommentOnly source.toList = false := by
    cases hdefinitions with
    | done => exact absurd rfl hne
    | next h _ => exact isCommentOnly_eq_false_of_reads h (hkeeps.lines _ List.mem_cons_self)
  obtain ⟨texts, htexts, hwritten⟩ := exists_definitions_ofPlaced hdefinitions (skip_skip _)
    (isIn_start source.toList) hchecks hkeeps { name := name }
  refine ⟨_, parse_eq_ofPlaced hcomment hparse hkeeps.lines, ?_⟩
  rw [htexts]
  exact hwritten

/-- Definitions with comments in a description and between them, two of them on one
line. -/
def described : String :=
  "\"\"\"\n# \u00e9\n\"\"\"\nscalar Date # day\ntype Query \x7b a: Int \x7d\n# E\n" ++
    "enum E \x7b B \x7d union U = A\n"

/-- What they are split into. -/
def describedFragment : Fragment :=
  { name := "described"
    definitions :=
      ["\"\"\"\n# \u00e9\n\"\"\"\nscalar Date # day", "enum E \x7b B \x7d", "union U = A"]
    queryFields := ["a: Int"] }

theorem parse_keeps_described : ∃ definitions,
    parseDocument described.toList = .ok definitions ∧
      KeepsDefinitions described.toList definitions ∧
      Fragment.parse "described" described = .ok describedFragment ∧
      List.Forall₂ (IsWrittenAs described.toList) (definitions.filter isKeptDefinition)
        describedFragment.definitions := by
  have hall : (parseDocument described.toList).toOption.isSome ∧
      ∀ definitions ∈ (parseDocument described.toList).toOption,
        (∀ p ∈ withFinish described.toList definitions, isKeptDefinition p.1 →
          ∀ q ∈ p.1.strings, q.1 + q.2.length ≤ keptEnd described.toList p.1.start p.2) ∧
        Fragment.ofPlaced described.toList (definitions.map (place described.toList))
          { name := "described" } = describedFragment := by
    decide +kernel
  obtain ⟨hsome, hall⟩ := hall
  cases hparse : parseDocument described.toList with
  | error fault =>
    rw [hparse] at hsome
    cases hsome
  | ok definitions =>
    obtain ⟨hstrings, hsplit⟩ := hall definitions (by rw [hparse]; rfl)
    have hkeeps := keepsDefinitions_of_strings hparse
      (returnsEndLines_of_not_mem (by decide +kernel)) hstrings
    obtain ⟨fragment, hfragment, hwritten⟩ := parse_keeps_definitions hparse hkeeps "described"
    -- sorting is no matter of computation
    have hresult : Fragment.parse "described" described = .ok _ :=
      parse_eq_ofPlaced (by decide +kernel) hparse hkeeps.lines
    rw [hsplit] at hresult
    rw [hresult] at hfragment
    cases hfragment
    exact ⟨definitions, rfl, hkeeps, hresult, hwritten⟩

/-- A line of a string may look like a comment.  Then the string is cut off in what is kept
of its definition, which is no document. -/
theorem not_keeps_of_comment_in_string :
    (Fragment.parse "cut" "scalar A @d(x: \"\"\"\n# \"\"\")").toOption =
        some { name := "cut", definitions := ["scalar A @d(x: \"\"\""] } ∧
      (parseDocument "scalar A @d(x: \"\"\"".toList).toOption.isNone := by
  decide +kernel

/-- A carriage return by itself ends a comment, but no line.  Then a definition behind it is
taken for a part of the comment. -/
theorem not_keeps_of_return :
    (parseDocument "# x\rscalar B".toList).toOption.isSome ∧
      (Fragment.parse "returned" "# x\rscalar B").toOption = some { name := "returned" } := by
  decide +kernel

end Sdl
end EntitySdl
