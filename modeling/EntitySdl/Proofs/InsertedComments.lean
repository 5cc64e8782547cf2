import EntitySdl.Proofs.InsertedReading

/-! # Comments between definitions

Comments that are put into a text on lines of their own, above a definition or at the
end, leave the fragment as it is: the definitions are the same, in the same order, and
what is cut out for each of them is the same text.
-/
namespace EntitySdl
namespace Sdl

open Name Text Grammar Cursor Sdl.Tree

section Places

variable {c : Cursor} {t u : Tree Rule} {ts us : List (Tree Rule)}
  {source front indent rest : List Char} {comments : List (List Char)}

/-- A definition begins with a character that is no blank. -/
theorem Grammar.Definitions.exists_ink (h : Definitions c ts) (hc : c.skip .spaced = c)
    (hin : c.IsIn source) : ∀ t ∈ ts, ∃ ahead x behind, source = ahead ++ x :: behind ∧
      t.start = ahead.length ∧ isBlank x = false := by
  induction h with
  | done => simp
  | @next c d t ts h hrest ih =>
    have hbegin := definition_begins hc h
    have hstart := ((Definitions.next h hrest).standsBehind hc).1 t rfl
    refine List.forall_mem_cons.mpr ⟨?_, ih (skip_skip d)
      (hin.of_reaches (h.reaches.trans (skip_reaches d .spaced)))⟩
    obtain ⟨ahead, hsource, hlength⟩ := hin
    cases hx : c.rest with
    | nil =>
      rw [hx] at hbegin
      exact absurd hbegin Heads.not_begin_nil
    | cons x behind =>
      exact ⟨ahead, x, behind, by rw [hsource, hx], hstart.trans hlength.symm,
        not_isBlank_of_definition hbegin x (by rw [hx]; rfl)⟩

/-- A definition that is moved is placed where its place is moved to. -/
theorem place_moved {inserted back : List Char} (hline : EndsLine front)
    (hinserted : EndsLine inserted) (h : IsMoved (moved front.length inserted.length) u t) :
    place (front ++ (inserted ++ back)) u =
      (place (front ++ back) t).relocate (moved front.length inserted.length) := by
  rw [place, place, PlacedDefinition.relocate, rootKind?_congr h.outline, h.start, h.fields,
    placeOf_moved hline hinserted]
  simp only [PlacedDefinition.mk.injEq, true_and]
  cases rootKind? t with
  | none => rfl
  | some kind =>
    simp only [List.map_map]
    exact List.map_congr_left fun p _ => placeOf_moved hline hinserted p

/-- A definition behind nothing but blanks on its line is placed where it starts. -/
theorem placeOf_indent (hline : EndsLine front) (hindent : IsIndent indent) (x : Char)
    (behind : List Char) :
    placeOf (front ++ (indent ++ x :: behind)) (front ++ indent).length =
      (front ++ indent).length := by
  refine @placeOf_eq _ (front ++ indent) behind x (by simp) ?_
  intro before line hsplit hfeed hreturn
  rw [← List.append_assoc, List.take_left] at hsplit
  rcases List.append_eq_append_iff.mp hsplit with ⟨more, -, hline'⟩ | ⟨more, hfront, hmore⟩
  · refine hindent.not_mem (c := '\r') (by decide) (by decide) ?_
    rw [hline']
    exact List.mem_append_right _ hreturn
  · -- the text before ends with a line feed, which is not on the line
    rw [hmore] at hfeed hreturn
    rcases List.mem_append.mp hreturn with hreturn | hreturn
    · obtain ⟨last, hlast⟩ : ∃ last, more.getLast? = some last :=
        Option.isSome_iff_exists.mp (by
          rw [List.getLast?_isSome]
          rintro rfl
          cases hreturn)
      obtain rfl := hline last (by rw [hfront, List.getLast?_append, hlast]; rfl)
      exact hfeed (List.mem_append_left _ (List.mem_of_getLast? hlast))
    · exact hindent.not_mem (by decide) (by decide) hreturn

/-- A definition is placed in the text. -/
theorem Grammar.Definitions.start_le (h : Definitions c ts) (hc : c.skip .spaced = c)
    (hin : c.IsIn source) : ∀ t ∈ ts, t.start ≤ source.length := by
  intro t ht
  obtain ⟨ahead, x, behind, hsource, hstart, -⟩ := h.exists_ink hc hin t ht
  rw [hsource, hstart, List.length_append]
  omega

/-- A definition that is placed before a line has no blank there. -/
theorem Grammar.Definitions.exists_ink_before (h : Definitions c ts) (hc : c.skip .spaced = c)
    {back : List Char} (hin : c.IsIn (front ++ back)) (hline : EndsLine front) (ht : t ∈ ts)
    (hlt : placeOf (front ++ back) t.start < front.length) :
    ∃ x ∈ front.drop (placeOf (front ++ back) t.start), isBlank x = false := by
  obtain ⟨ahead, x, behind, hsource, hstart, hx⟩ := h.exists_ink hc hin t ht
  have hle := placeOf_le _ _ (h.start_le hc hin t ht)
  have hbefore : t.start < front.length := by
    by_contra hge
    have := @le_placeOf front back _ hline (Nat.le_of_not_lt hge)
    omega
  have hget : front[t.start]? = some x := by
    rw [← List.getElem?_append_left hbefore, hsource, hstart, List.getElem?_append_right le_rfl,
      Nat.sub_self]
    rfl
  refine ⟨x, List.mem_of_getElem? (i := t.start - placeOf (front ++ back) t.start) ?_, hx⟩
  rw [List.getElem?_drop, Nat.add_sub_cancel' hle, hget]

/-- The fields of a definition that is placed behind a line are placed there too. -/
theorem Grammar.Definitions.le_fieldPlaces (h : Definitions c ts) (hc : c.skip .spaced = c)
    {back : List Char} (hin : c.IsIn (front ++ back)) (hline : EndsLine front) (ht : t ∈ ts)
    (hle : front.length ≤ placeOf (front ++ back) t.start) :
    ∀ p ∈ (place (front ++ back) t).fieldStarts, front.length ≤ p := by
  intro p hp
  have hstart := hle.trans (placeOf_le _ _ (h.start_le hc hin t ht))
  rw [place] at hp
  cases hroot : rootKind? t with
  | none =>
    rw [hroot] at hp
    cases hp
  | some kind =>
    rw [hroot] at hp
    obtain ⟨q, hq, rfl⟩ := List.mem_map.mp hp
    exact le_placeOf hline (hstart.trans ((h.le_starts hc t ht).2 q hq))

/-- The definitions of a document in the order of their places. -/
def placedIn (source : List Char) (ts : List (Tree Rule)) : List PlacedDefinition :=
  (ts.map (place source)).mergeSort fun a b => a.start ≤ b.start

theorem mem_placedIn {d : PlacedDefinition} :
    d ∈ placedIn source ts ↔ ∃ t ∈ ts, place source t = d :=
  List.mem_mergeSort.trans List.mem_map

theorem sorted_placedIn (source : List Char) (ts : List (Tree Rule)) :
    (placedIn source ts).Pairwise fun d e => d.start ≤ e.start := by
  refine (List.pairwise_mergeSort ?_ ?_ _).imp of_decide_eq_true
  · intro a b c hab hbc
    simp only [decide_eq_true_eq] at hab hbc ⊢
    omega
  · intro a b
    simp only [Bool.or_eq_true, decide_eq_true_eq]
    omega

/-- Definitions are parted by the line of one of them, or by the end of the text. -/
theorem areParted_of_definitions (hline : EndsLine front) (hindent : IsIndent indent)
    (h : Definitions (Cursor.skip ⟨0, front ++ (indent ++ rest)⟩ .spaced) ts)
    (hplace : rest = [] ∨ ∃ t ∈ ts, t.start = (front ++ indent).length) :
    AreParted front (indent ++ rest) (front ++ indent).length
      (placedIn (front ++ (indent ++ rest)) ts) := by
  have hc := skip_skip ⟨0, front ++ (indent ++ rest)⟩
  have hin := isIn_start (front ++ (indent ++ rest))
  refine ⟨sorted_placedIn _ _, fun d hd => ?_, fun d _ _ => ?_, fun d hd => ?_, fun d hd => ?_⟩
  · obtain ⟨t, ht, rfl⟩ := mem_placedIn.mp hd
    have hle := h.start_le hc hin t ht
    exact (placeOf_le _ _ hle).trans hle
  · refine hplace.symm.imp ?_ fun hrest => by rw [hrest, List.append_nil]
    rintro ⟨t, ht, hstart⟩
    refine ⟨_, mem_placedIn.mpr ⟨t, ht, rfl⟩, ?_⟩
    obtain ⟨ahead, x, behind, hsource, hstart', -⟩ := h.exists_ink hc hin t ht
    rw [← List.append_assoc] at hsource
    rw [place, hstart, List.append_inj_right hsource (by omega)]
    exact placeOf_indent hline hindent x behind
  · obtain ⟨t, ht, rfl⟩ := mem_placedIn.mp hd
    exact h.exists_ink_before hc hin hline ht
  · obtain ⟨t, ht, rfl⟩ := mem_placedIn.mp hd
    exact h.le_fieldPlaces hc hin hline ht

end Places

section Documents

variable {front indent rest : List Char} {comments : List (List Char)} {ts : List (Tree Rule)}

/-- So a document stays one, with its definitions at places that are moved. -/
theorem exists_parseDocument_comments (hline : EndsLine front) (hcomments : AreComments comments)
    (hindent : IsIndent indent) (hparse : parseDocument (front ++ (indent ++ rest)) = .ok ts)
    (hplace : rest = [] ∨ ∃ t ∈ ts, t.start = (front ++ indent).length)
    (hquotes : (∀ body ∈ comments, ¬ blockQuotes <:+: body) ∨ ∀ p ∈ stringsAll ts,
      p.1 < front.length → p.2 = "\"\"".toList →
        ((front ++ (indent ++ rest)).drop (p.1 + 2)).head? ≠ some '"') :
    ∃ us, parseDocument (front ++ (commentLines comments ++ (indent ++ rest))) = .ok us ∧
      List.Forall₂ (IsMoved (moved front.length (commentLines comments).length)) us ts := by
  obtain ⟨hne, hdefinitions, hchecks⟩ := parseDocument_eq_ok_iff.mp hparse
  obtain ⟨us, hus, hmoved⟩ :=
    exists_definitions_comments hline hcomments hindent hdefinitions hplace hquotes
  refine ⟨us, parseDocument_eq_ok_iff.mpr ⟨?_, hus, ?_⟩, hmoved⟩
  · rintro rfl
    exact hne (List.length_eq_zero_iff.mp hmoved.length_eq.symm)
  · exact forall_of_forall₂ hmoved.flip fun t ht u hu => by
      rw [checkDefinition_congr hu.outline, hchecks t ht]

/-- Definitions that are moved keep their order. -/
theorem placedIn_comments {us : List (Tree Rule)} {back : List Char} (hline : EndsLine front)
    (h : List.Forall₂ (IsMoved (moved front.length (commentLines comments).length)) us ts) :
    placedIn (front ++ (commentLines comments ++ back)) us =
      (placedIn (front ++ back) ts).map
        (.relocate (moved front.length (commentLines comments).length)) := by
  have hplaces : us.map (place (front ++ (commentLines comments ++ back))) =
      ts.map fun t => (place (front ++ back) t).relocate _ :=
    map_eq_of_forall₂ (h.flip.imp fun t u hmoved =>
      place_moved hline (endsLine_commentLines comments) hmoved)
  have hsort : (placedIn (front ++ back) ts).map
        (PlacedDefinition.relocate (moved front.length (commentLines comments).length)) =
      ((ts.map (place (front ++ back))).map (PlacedDefinition.relocate _)).mergeSort
        fun (a b : PlacedDefinition) => a.start ≤ b.start :=
    List.map_mergeSort fun a _ b _ => decide_eq_decide.mpr moved_le_moved_iff.symm
  rw [hsort, List.map_map, placedIn, hplaces]
  rfl

/-- So what they are split into is the same. -/
theorem ofPlaced_placedIn_comments {us : List (Tree Rule)} (hline : EndsLine front)
    (hcomments : AreComments comments) (hindent : IsIndent indent)
    (h : parseDocument (front ++ (indent ++ rest)) = .ok ts)
    (hplace : rest = [] ∨ ∃ t ∈ ts, t.start = (front ++ indent).length)
    (hmoved : List.Forall₂ (IsMoved (moved front.length (commentLines comments).length)) us ts)
    (fragment : Fragment) :
    anyTorn (front ++ (commentLines comments ++ (indent ++ rest)))
        (placedIn (front ++ (commentLines comments ++ (indent ++ rest))) us) =
      anyTorn (front ++ (indent ++ rest)) (placedIn (front ++ (indent ++ rest)) ts) ∧
    Fragment.ofPlaced (front ++ (commentLines comments ++ (indent ++ rest)))
        (placedIn (front ++ (commentLines comments ++ (indent ++ rest))) us) fragment =
      Fragment.ofPlaced (front ++ (indent ++ rest))
        (placedIn (front ++ (indent ++ rest)) ts) fragment := by
  obtain ⟨-, hdefinitions, -⟩ := parseDocument_eq_ok_iff.mp h
  have hblanks : IsBlankText
      ((indent ++ rest).take ((front ++ indent).length - front.length)) := by
    rw [List.length_append, Nat.add_sub_cancel_left, List.take_left]
    exact hindent.isBlankText
  have hparted := areParted_of_definitions hline hindent hdefinitions hplace
  rw [placedIn_comments hline hmoved]
  exact ⟨anyTorn_comments hcomments.not_feed hline hblanks (by simp) hparted,
    ofPlaced_comments hcomments.not_feed hline hblanks (by simp) hparted fragment⟩

end Documents

/-- Comments, each on a line of its own. -/
def commentText (comments : List String) : String :=
  String.join (comments.map fun comment => "#" ++ comment ++ "\n")

theorem toList_commentText (comments : List String) :
    (commentText comments).toList = commentLines (comments.map String.toList) := by
  induction comments with
  | nil => rfl
  | cons comment comments ih =>
    rw [commentText] at ih ⊢
    rw [List.map_cons, String.join_cons, String.toList_append, ih, List.map_cons,
      commentLines_cons]
    simp

/-- A line of a text begins with a definition that only indentation stands before, or it is
the end of the text. -/
structure IsAbove (front indent rest : String) : Prop where
  /-- The line begins behind another one. -/
  line : EndsLine front.toList
  /-- Indentation comes first. -/
  blanks : IsIndent indent.toList
  /-- Behind it stands a definition, or nothing. -/
  place : rest = "" ∨ ∃ definitions,
    parseDocument (front ++ indent ++ rest).toList = .ok definitions ∧
      ∃ t ∈ definitions, t.start = (front ++ indent).toList.length

/-- No block ends in the comments, or none could begin before their place: no quote stands
behind an empty string. -/
def KeepsQuotes (comments : List String) (source : String) (start : Nat) : Prop :=
  (∀ comment ∈ comments, ¬ blockQuotes <:+: comment.toList) ∨
    ∀ definitions, parseDocument source.toList = .ok definitions →
      ∀ p ∈ stringsAll definitions, p.1 < start → p.2 = "\"\"".toList →
        (source.toList.drop (p.1 + 2)).head? ≠ some '"'

/-- **Comments between definitions have no effect.**  If a text is split into a fragment,
comments that are put in above a definition on its line, or at the end, leave the
fragment as it is. -/
theorem parse_insert_comments {name front indent rest : String} {fragment : Fragment}
    (hparse : Fragment.parse name (front ++ indent ++ rest) = .ok fragment)
    (habove : IsAbove front indent rest) {comments : List String}
    (hcomments : AreComments (comments.map String.toList))
    (hquotes : KeepsQuotes comments (front ++ indent ++ rest) front.toList.length) :
    Fragment.parse name (front ++ commentText comments ++ indent ++ rest) = .ok fragment := by
  obtain ⟨hline, hindent, hplace⟩ := habove
  have hold : (front ++ indent ++ rest).toList =
      front.toList ++ (indent.toList ++ rest.toList) := by simp
  have hnew : (front ++ commentText comments ++ indent ++ rest).toList = front.toList ++
      (commentLines (comments.map String.toList) ++ (indent.toList ++ rest.toList)) := by
    simp [toList_commentText]
  have honly := isCommentOnly_comments hcomments.not_feed hline (indent.toList ++ rest.toList)
  rw [Fragment.parse, hold] at hparse
  rw [Fragment.parse, hnew, honly]
  by_cases hcomment : isCommentOnly (front.toList ++ (indent.toList ++ rest.toList))
  · rwa [if_pos hcomment] at hparse ⊢
  · rw [if_neg hcomment] at hparse ⊢
    rw [KeepsQuotes, hold] at hquotes
    rw [hold] at hplace
    cases hdocument : parseDocument (front.toList ++ (indent.toList ++ rest.toList)) with
    | error fault =>
      rw [hdocument] at hparse
      cases hparse
    | ok definitions =>
      rw [hdocument] at hparse
      have hplace' : rest.toList = [] ∨
          ∃ t ∈ definitions, t.start = (front.toList ++ indent.toList).length := by
        refine hplace.imp (fun hrest => by rw [hrest]; rfl) ?_
        rintro ⟨_, hok, t, ht, hstart⟩
        rw [hdocument] at hok
        cases hok
        exact ⟨t, ht, by rw [hstart, String.toList_append]⟩
      have hblocks : (∀ comment ∈ comments, ¬ blockQuotes <:+: comment.toList) →
          ∀ body ∈ comments.map String.toList, ¬ blockQuotes <:+: body := by
        intro hblocks body hbody
        obtain ⟨comment, hmem, rfl⟩ := List.mem_map.mp hbody
        exact hblocks comment hmem
      have hquotes' := hquotes.imp hblocks fun hquotes => hquotes definitions hdocument
      obtain ⟨us, hus, hmoved⟩ :=
        exists_parseDocument_comments hline hcomments hindent hdocument hplace' hquotes'
      have hsame := ofPlaced_placedIn_comments hline hcomments hindent hdocument hplace' hmoved
        { name := name }
      unfold placedIn at hsame
      rw [hus]
      simp only
      rw [hsame.1, hsame.2]
      exact hparse

/-- Definitions with an empty string and a line that looks like a comment in a block. -/
def notedFront : String :=
  "\"\"\"\n# \u00e9\n\"\"\"\nscalar Date @on(x: \"\") # day\ntype Query \x7b a: Int \x7d\n"

/-- Two definitions on a line. -/
def notedRest : String := "enum E \x7b B \x7d union U = A\n"

/-- Comments with the quotes of a block and with braces. -/
def notes : List String := ["\"\"\" \x7d", "", " \x7b \u00e9"]

/-- What the definitions are split into. -/
def notedFragment : Fragment :=
  { name := "noted"
    definitions :=
      ["\"\"\"\n# \u00e9\n\"\"\"\nscalar Date @on(x: \"\") # day", "enum E \x7b B \x7d",
        "union U = A"]
    queryFields := ["a: Int"] }

theorem parse_insert_notes : Fragment.parse "noted" (notedFront ++ "  " ++ notedRest) =
      .ok notedFragment ∧
    IsAbove notedFront "  " notedRest ∧ AreComments (notes.map String.toList) ∧
      KeepsQuotes notes (notedFront ++ "  " ++ notedRest) notedFront.toList.length ∧
        Fragment.parse "noted" (notedFront ++ commentText notes ++ "  " ++ notedRest) =
          .ok notedFragment := by
  have hall : (parseDocument (notedFront ++ "  " ++ notedRest).toList).toOption.isSome ∧
      ∀ definitions ∈ (parseDocument (notedFront ++ "  " ++ notedRest).toList).toOption,
        (∃ t ∈ definitions, t.start = (notedFront ++ "  ").toList.length) ∧
        (∀ p ∈ stringsAll definitions, p.1 < notedFront.toList.length → p.2 = "\"\"".toList →
          ((notedFront ++ "  " ++ notedRest).toList.drop (p.1 + 2)).head? ≠ some '"') ∧
        Fragment.ofPlaced (notedFront ++ "  " ++ notedRest).toList
          (definitions.map (place (notedFront ++ "  " ++ notedRest).toList))
            { name := "noted" } = notedFragment := by
    decide +kernel
  obtain ⟨hsome, hall⟩ := hall
  cases hdocument : parseDocument (notedFront ++ "  " ++ notedRest).toList with
  | error fault =>
    rw [hdocument] at hsome
    cases hsome
  | ok definitions =>
    obtain ⟨hplace, hquotes, hsplit⟩ := hall definitions (by rw [hdocument]; rfl)
    have hclear := (parseDocument_eq_ok_iff.mp hdocument).2.1.lineIsClear (skip_skip _)
      (isIn_start _) (returnsEndLines_of_not_mem (by decide +kernel))
    have hparse : Fragment.parse "noted" (notedFront ++ "  " ++ notedRest) = .ok _ :=
      parse_eq_ofPlaced (by decide +kernel) hdocument hclear
    rw [hsplit] at hparse
    have hlast : notedFront.toList.getLast? = some '\n' := by decide +kernel
    have habove : IsAbove notedFront "  " notedRest := by
      refine ⟨fun c hc => ?_, by decide, .inr ⟨definitions, hdocument, hplace⟩⟩
      rw [hlast] at hc
      exact (Option.some.inj hc).symm
    have hnotes : AreComments (notes.map String.toList) := by decide +kernel
    have hkeeps : KeepsQuotes notes (notedFront ++ "  " ++ notedRest)
        notedFront.toList.length := by
      refine .inr fun others hothers => ?_
      rw [hdocument] at hothers
      cases hothers
      exact hquotes
    exact ⟨hparse, habove, hnotes, hkeeps, parse_insert_comments hparse habove hnotes hkeeps⟩

/-- A comment may end a block that two quotes and a third one behind them would begin. -/
theorem not_insert_of_quotes :
    (Fragment.parse "quoted" "scalar A @d(x: [\"\"\" \"])\n").toOption =
        some { name := "quoted", definitions := ["scalar A @d(x: [\"\"\" \"])"] } ∧
      (Fragment.parse "quoted" "scalar A @d(x: [\"\"\" \"])\n# \"\"\"\n").toOption = none := by
  decide +kernel

end Sdl
end EntitySdl
