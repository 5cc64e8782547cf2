import EntitySdl.Proofs.InsertedComments
import Mathlib.Data.String.Basic

/-! # Offsets of lines and columns

Looking up a line and a column is the inverse of counting them: the place behind a text is
found where the text ends.  Whatever is looked up, a place between two characters is found,
and nothing is cut there inside a character.  The end of a root type is not looked up, but
counted in bytes, and can lie inside one.  It does not, if no carriage return stands before
a definition on its line.
-/
namespace EntitySdl
namespace Sdl

open Text Grammar Cursor

/-! ### Byte indices -/

theorem byteLength_eq_utf8ByteSize (text : List Char) :
    byteLength text = (String.ofList text).utf8ByteSize := by
  rw [String.utf8ByteSize_ofList]
  induction text with
  | nil => rfl
  | cons c text ih => rw [byteLength_cons, String.utf8Len_cons, ih, Nat.add_comm]

/-- The byte index of a place that is counted in characters. -/
def byteIndex (source : String) (place : Nat) : Nat := byteLength (source.toList.take place)

variable {source : String} {index : Nat}

/-- A byte index is between two characters if they part there. -/
theorem isValid_iff : (⟨index⟩ : String.Pos.Raw).IsValid source ↔
    ∃ front back : String, source = front ++ back ∧ front.utf8ByteSize = index := by
  rw [String.Pos.Raw.isValid_iff_exists_append]
  refine exists_congr fun front => exists_congr fun back => and_congr_right fun _ => ?_
  rw [String.Pos.Raw.ext_iff, eq_comm]
  rfl

/-- So that of a place is. -/
theorem isValid_byteIndex (source : String) (place : Nat) :
    (⟨byteIndex source place⟩ : String.Pos.Raw).IsValid source := by
  refine isValid_iff.mpr ⟨.ofList (source.toList.take place), .ofList (source.toList.drop place),
    ?_, (byteLength_eq_utf8ByteSize _).symm⟩
  rw [← String.ofList_append, List.take_append_drop, String.ofList_toList]

/-! ### Looking up places -/

/-- The line and column behind a text: one more than the line feeds in it, and one more than the
characters behind the last of these. -/
def Position.behind (front : List Char) : Position where
  line := 1 + front.count '\n'
  column := 1 + (front.reverse.takeWhile (· != '\n')).length

/-- **Looking up is the inverse of counting.** -/
theorem Position.offset_behind (front back : List Char) :
    (Position.behind front).offset (front ++ back) = front.length := by
  have not_feed : ∀ line : List Char, '\n' ∉ line → ∀ c ∈ line.reverse, (c != '\n') = true :=
    fun line hline c hc => bne_iff_ne.mpr (ne_of_mem_of_not_mem (List.mem_reverse.mp hc) hline)
  obtain ⟨start, line, hstart, hfront, hline⟩ : ∃ start line,
      lineStart? (front.count '\n') (front ++ back) = some start ∧
        start + line = front.length ∧ (front.reverse.takeWhile (· != '\n')).length = line := by
    rcases exists_last_line front with ⟨before, line, rfl, hline⟩ | hline
    · refine ⟨before.length + 1, line.length, ?_, ?_, ?_⟩
      · have hcount : (before ++ '\n' :: line).count '\n' = before.count '\n' + 1 := by
          rw [List.count_append, List.count_cons_self, List.count_eq_zero.mpr hline]
        rw [hcount, List.append_assoc]
        exact lineStart?_of_feed before (line ++ back)
      · rw [List.length_append, List.length_cons]
        omega
      · rw [List.reverse_append, List.reverse_cons, List.append_assoc,
          List.takeWhile_append_of_pos (not_feed line hline)]
        simp
    · refine ⟨0, front.length, ?_, Nat.zero_add _, ?_⟩
      · rw [List.count_eq_zero.mpr hline, lineStart?]
      · rw [List.takeWhile_eq_self_iff.mpr (not_feed front hline), List.length_reverse]
  have hlength : (front ++ back).length = front.length + back.length := List.length_append
  unfold Position.behind Position.offset
  rw [Nat.add_sub_cancel_left, hstart]
  simp only [Nat.add_sub_cancel_left, hline, hfront]
  split <;> omega

theorem Position.offset_le_length (position : Position) (source : List Char) :
    position.offset source ≤ source.length := by
  unfold offset
  split
  · exact le_rfl
  · split
    · exact Nat.le_of_lt ‹_›
    · exact le_rfl

/-! ### Bodies that end inside a character -/

variable {start first : Nat} {text : List Char} {d : PlacedDefinition}

theorem byteIndex_le_byteIndex (source : String) (h : start ≤ first) :
    byteIndex source start ≤ byteIndex source first :=
  byteLength_le_of_sublist (List.take_sublist_take_left h)

/-- A text ends behind a place, in characters, if it does so in bytes. -/
theorem le_textEnd_iff (hstart : start ≤ source.toList.length)
    (hfirst : first ≤ source.toList.length) : first ≤ textEnd source.toList start text ↔
      byteIndex source first ≤ byteIndex source start + byteLength text := by
  rcases Nat.le_total first start with hle | hle
  · have := byteIndex_le_byteIndex source hle
    refine iff_of_true (hle.trans (Nat.le_add_right _ _)) (by omega)
  · obtain ⟨count, rfl⟩ := Nat.exists_eq_add_of_le hle
    have hcount : count ≤ (source.toList.drop start).length := by
      rw [List.length_drop]
      omega
    rw [textEnd, Nat.add_le_add_iff_left, le_fitting_iff hcount, byteIndex, List.take_add,
      byteLength_append, byteIndex, Nat.add_le_add_iff_left]

/-- The bytes of a text end between two characters if that many characters take them up. -/
theorem isValid_textEnd_iff (hstart : start ≤ source.toList.length) :
    (⟨byteIndex source start + byteLength text⟩ : String.Pos.Raw).IsValid source ↔
      byteLength (slice source.toList start (textEnd source.toList start text)) =
        byteLength text := by
  have hend : byteIndex source (textEnd source.toList start text) = byteIndex source start +
      byteLength (slice source.toList start (textEnd source.toList start text)) := by
    rw [byteIndex, textEnd, List.take_add, byteLength_append, slice, Nat.add_sub_cancel_left]
    rfl
  constructor
  · intro hvalid
    obtain ⟨front, back, rfl, hfront⟩ := isValid_iff.mp hvalid
    have hlength : front.toList.length ≤ (front ++ back).toList.length := by
      rw [String.toList_append, List.length_append]
      omega
    have hplace : byteIndex (front ++ back) front.toList.length =
        byteIndex (front ++ back) start + byteLength text := by
      rw [← hfront, byteIndex, String.toList_append, List.take_left, byteLength_eq_utf8ByteSize,
        String.ofList_toList]
    have hle := (@le_textEnd_iff _ _ _ text hstart hlength).mpr (Nat.le_of_eq hplace)
    have hbytes := byteIndex_le_byteIndex (front ++ back) hle
    have hfits := byteLength_slice_textEnd_le (front ++ back).toList start text
    omega
  · intro hbytes
    rw [← hbytes, ← hend]
    exact isValid_byteIndex source _

/-- A body that is cut out ends inside a character. -/
def EndsInside (source : String) (d : PlacedDefinition) (text : List Char) : Prop :=
  ∃ first ∈ d.fieldStarts.min?,
    byteIndex source first < byteIndex source d.start + byteLength text ∧
      ¬ (⟨byteIndex source d.start + byteLength text⟩ : String.Pos.Raw).IsValid source

theorem isTorn_iff (hstart : d.start ≤ source.toList.length)
    (hfields : ∀ p ∈ d.fieldStarts, p ≤ source.toList.length) :
    isTorn source.toList d text = true ↔ EndsInside source d text := by
  unfold isTorn EndsInside
  simp only [Bool.and_eq_true, Option.any_eq_true, decide_eq_true_eq, bne_iff_ne, ne_eq,
    ← isValid_textEnd_iff hstart]
  constructor
  · rintro ⟨⟨first, hfirst, hle⟩, hinside⟩
    refine ⟨first, hfirst, lt_of_le_of_ne ?_ fun heq => hinside ?_, hinside⟩
    · exact (le_textEnd_iff hstart (hfields first (List.min?_mem hfirst))).mp hle
    · rw [← heq]
      exact isValid_byteIndex source first
  · rintro ⟨first, hfirst, hlt, hinside⟩
    refine ⟨⟨first, hfirst, ?_⟩, hinside⟩
    exact (le_textEnd_iff hstart (hfields first (List.min?_mem hfirst))).mpr (Nat.le_of_lt hlt)

theorem anyTorn_iff {source : List Char} {placed : List PlacedDefinition} :
    anyTorn source placed = true ↔ ∃ before d rest, placed = before ++ d :: rest ∧
      isTorn source d (trimDefinition (slice source d.start (nextStart source rest))) = true := by
  induction placed with
  | nil => simp [anyTorn]
  | cons d rest ih =>
    rw [anyTorn, Bool.or_eq_true, ih]
    constructor
    · rintro (htorn | ⟨before, e, behind, rfl, htorn⟩)
      · exact ⟨[], d, rest, rfl, htorn⟩
      · exact ⟨d :: before, e, behind, rfl, htorn⟩
    · rintro ⟨before, e, behind, hsplit, htorn⟩
      cases before with
      | nil =>
        cases hsplit
        exact .inl htorn
      | cons first before =>
        cases hsplit
        exact .inr ⟨before, e, behind, rfl, htorn⟩

theorem start_place_le (source : List Char) (t : Tree Rule) :
    (place source t).start ≤ source.length :=
  Position.offset_le_length _ source

theorem fieldStarts_place_le (source : List Char) (t : Tree Rule) :
    ∀ p ∈ (place source t).fieldStarts, p ≤ source.length := by
  intro p hp
  rw [place] at hp
  cases hroot : rootKind? t with
  | none =>
    rw [hroot] at hp
    cases hp
  | some kind =>
    rw [hroot] at hp
    obtain ⟨q, -, rfl⟩ := List.mem_map.mp hp
    exact Position.offset_le_length _ source

/-- What is cut out for the first of some definitions. -/
def cutOut (source : List Char) (d : PlacedDefinition) (rest : List PlacedDefinition) : List Char :=
  trimDefinition (slice source d.start (nextStart source rest))

/-- Of placed definitions, one is torn if its body ends inside a character. -/
theorem anyTorn_placedIn_iff {definitions : List (Tree Rule)} :
    anyTorn source.toList (placedIn source.toList definitions) = true ↔ ∃ before d rest,
      placedIn source.toList definitions = before ++ d :: rest ∧
        EndsInside source d (cutOut source.toList d rest) := by
  rw [anyTorn_iff]
  refine exists_congr fun before => exists_congr fun d => exists_congr fun rest =>
    and_congr_right fun hsplit => ?_
  obtain ⟨t, -, rfl⟩ := mem_placedIn.mp (hsplit ▸ List.mem_append_right _ List.mem_cons_self)
  exact isTorn_iff (start_place_le _ t) (fieldStarts_place_le _ t)

/-- **A document is not split** exactly if the body of one of its root types ends inside a
character. -/
theorem parse_eq_torn_iff {name : String} : Fragment.parse name source = .error (.tornText name) ↔
    isCommentOnly source.toList = false ∧ ∃ definitions,
      parseDocument source.toList = .ok definitions ∧ ∃ before d rest,
        placedIn source.toList definitions = before ++ d :: rest ∧
          EndsInside source d (cutOut source.toList d rest) := by
  cases hcomment : isCommentOnly source.toList with
  | true =>
    rw [Fragment.parse, if_pos hcomment]
    simp
  | false =>
    rw [Fragment.parse, if_neg (by simp [hcomment])]
    cases hparse : parseDocument source.toList with
    | error fault => simp
    | ok definitions =>
      simp only [true_and, Except.ok.injEq, exists_eq_left', ← anyTorn_placedIn_iff]
      rw [placedIn]
      split
      · rename_i htorn
        exact iff_of_true rfl htorn
      · rename_i htorn
        simp [htorn]

/-- No body ends inside a character, if definitions are placed where they begin. -/
theorem not_endsInside {definitions : List (Tree Rule)} {before rest : List PlacedDefinition}
    (hparse : parseDocument source.toList = .ok definitions)
    (hclear : ∀ t ∈ definitions, LineIsClear source.toList t.start)
    (h : placedIn source.toList definitions = before ++ d :: rest) :
    ¬ EndsInside source d (cutOut source.toList d rest) := by
  obtain ⟨-, hdefinitions, -⟩ := parseDocument_eq_ok_iff.mp hparse
  have hin := isIn_start source.toList
  have htorn : anyTorn source.toList (placedIn source.toList definitions) = false := by
    rw [placedIn, List.mergeSort_of_pairwise (hdefinitions.sorted (skip_skip _) hin hclear)]
    exact hdefinitions.anyTorn (skip_skip _) hin hclear
  intro hinside
  rw [anyTorn_placedIn_iff.mpr ⟨before, d, rest, h, hinside⟩] at htorn
  cases htorn

/-- What is cut out for a definition goes up to the next one, and stands in the text. -/
theorem start_le_nextStart {definitions : List (Tree Rule)}
    {before rest : List PlacedDefinition}
    (h : placedIn source.toList definitions = before ++ d :: rest) :
    d.start ≤ nextStart source.toList rest ∧
      nextStart source.toList rest ≤ source.toList.length := by
  have hplaced : ∀ e ∈ d :: rest, e.start ≤ source.toList.length := by
    intro e he
    obtain ⟨t, -, rfl⟩ := mem_placedIn.mp (h ▸ List.mem_append_right _ he)
    exact start_place_le _ t
  have hsorted := sorted_placedIn source.toList definitions
  rw [h, List.pairwise_append] at hsorted
  cases rest with
  | nil => exact ⟨hplaced d List.mem_cons_self, le_rfl⟩
  | cons next rest =>
    exact ⟨(List.pairwise_cons.mp hsorted.2.1).1 next List.mem_cons_self,
      hplaced next (List.mem_cons_of_mem _ List.mem_cons_self)⟩

/-- **Offsets and slices.**  The place behind a text is found again by its line and column,
and whatever line and column is looked up, a place between two characters is found.  So the
text is cut between characters where definitions begin.  It is where the bodies of root
types end, too, if no carriage return stands before a definition on its line. -/
theorem offsets_and_slices (source : String) :
    (∀ index, (⟨index⟩ : String.Pos.Raw).IsValid source → ∃ front back : String,
      source = front ++ back ∧ front.utf8ByteSize = index ∧
        byteIndex source ((Position.behind front.toList).offset source.toList) = index) ∧
    (∀ position : Position,
      (⟨byteIndex source (position.offset source.toList)⟩ : String.Pos.Raw).IsValid source ∧
        byteIndex source (position.offset source.toList) ≤ source.utf8ByteSize) ∧
    ∀ definitions, parseDocument source.toList = .ok definitions →
      (∀ before d rest, placedIn source.toList definitions = before ++ d :: rest →
        d.start ≤ nextStart source.toList rest ∧
          nextStart source.toList rest ≤ source.toList.length) ∧
      ((∀ t ∈ definitions, LineIsClear source.toList t.start) →
        (∀ before d rest, placedIn source.toList definitions = before ++ d :: rest →
          ¬ EndsInside source d (cutOut source.toList d rest)) ∧
        ∀ name, Fragment.parse name source ≠ .error (.tornText name)) := by
  refine ⟨fun index hvalid => ?_, fun position => ?_, fun definitions hparse =>
    ⟨fun _ _ _ hsplit => start_le_nextStart hsplit, fun hclear =>
      ⟨fun _ _ _ => not_endsInside hparse hclear, fun name htorn => ?_⟩⟩⟩
  · obtain ⟨front, back, rfl, hfront⟩ := isValid_iff.mp hvalid
    refine ⟨front, back, rfl, hfront, ?_⟩
    rw [String.toList_append, Position.offset_behind, byteIndex, String.toList_append,
      List.take_left, byteLength_eq_utf8ByteSize, String.ofList_toList, hfront]
  · have hvalid := isValid_byteIndex source (position.offset source.toList)
    exact ⟨hvalid, hvalid.le_rawEndPos⟩
  · obtain ⟨-, _, hparse', before, d, rest, hsplit, hinside⟩ := parse_eq_torn_iff.mp htorn
    cases hparse.symm.trans hparse'
    exact not_endsInside hparse hclear hsplit hinside

/-- A root type with characters of more than one byte before, in and behind it. -/
def accents : String :=
  "\"\u00e9\"\ntype Query \x7b \"\u00e9\" a: Int \x7d # \u20ac\n"

/-- It is cut between characters. -/
theorem offsets_of_accents : (⟨3⟩ : String.Pos.Raw).IsValid accents ∧
    (∃ front back : String, accents = front ++ back ∧ front.utf8ByteSize = 3 ∧
      byteIndex accents ((Position.behind front.toList).offset accents.toList) = 3) ∧
    ∃ definitions, parseDocument accents.toList = .ok definitions ∧
      (∀ t ∈ definitions, LineIsClear accents.toList t.start) ∧
        ∃ d, placedIn accents.toList definitions = [d] ∧
          ¬ EndsInside accents d (cutOut accents.toList d []) ∧
            Fragment.parse "accents" accents ≠ .error (.tornText "accents") := by
  obtain ⟨hinvert, -, hslices⟩ := offsets_and_slices accents
  have hvalid : (⟨3⟩ : String.Pos.Raw).IsValid accents :=
    isValid_iff.mpr ⟨"\"\u00e9", "\"\ntype Query \x7b \"\u00e9\" a: Int \x7d # \u20ac\n",
      by decide +kernel, by decide +kernel⟩
  have hone : (parseDocument accents.toList).toOption.map List.length = some 1 := by
    decide +kernel
  cases hparse : parseDocument accents.toList with
  | error fault =>
    rw [hparse] at hone
    cases hone
  | ok definitions =>
    rw [hparse] at hone
    obtain ⟨t, rfl⟩ := List.length_eq_one_iff.mp (Option.some.inj hone)
    have hplaced : placedIn accents.toList [t] = [place accents.toList t] :=
      List.mergeSort_singleton _
    have hclear : ∀ u ∈ [t], LineIsClear accents.toList u.start :=
      (parseDocument_eq_ok_iff.mp hparse).2.1.lineIsClear (skip_skip _) (isIn_start _)
        (returnsEndLines_of_not_mem (by decide +kernel))
    obtain ⟨-, hbodies⟩ := hslices _ hparse
    exact ⟨hvalid, hinvert 3 hvalid, _, rfl, hclear, _, hplaced,
      (hbodies hclear).1 [] _ [] hplaced, (hbodies hclear).2 "accents"⟩

/-- Behind a carriage return, a root type is placed too soon.  Its body ends as many bytes too
soon, which is inside the last character here. -/
theorem parse_torn : Fragment.parse "a" "\rtype Query \x7b a: Int \x7d # \u00e9" =
    .error (.tornText "a") := by
  decide +kernel

end Sdl
end EntitySdl
