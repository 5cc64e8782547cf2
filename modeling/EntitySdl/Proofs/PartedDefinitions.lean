import EntitySdl.Proofs.InsertedLines
import EntitySdl.Proofs.Layout

/-! # Definitions parted by comments

Of definitions in the order of their places, some stand before the comments that are put
into a text, and the others behind them.  What is cut out for each of them is the same
text, and a root type has the same lines, so that the fragment is the same.
-/
namespace EntitySdl
namespace Sdl

open Name Text

section Splitting

variable {front inserted back : List Char} {a b : Nat}

/-- A part of the text before the lines is the same. -/
theorem slice_front (h : b ≤ front.length) : slice (front ++ back) a b = slice front a b := by
  rw [slice, slice]
  by_cases ha : a ≤ front.length
  · rw [List.drop_append_of_le_length ha, List.take_append_of_le_length]
    rw [List.length_drop]
    omega
  · have hnone : b - a = 0 := by omega
    rw [hnone, List.take_zero, List.take_zero]

/-- The text behind the lines is the same, and is moved. -/
theorem drop_moved (h : front.length ≤ a) :
    (front ++ (inserted ++ back)).drop (a + inserted.length) = (front ++ back).drop a := by
  obtain ⟨c, rfl⟩ := Nat.exists_eq_add_of_le h
  have hlength : front.length + c + inserted.length = (front ++ inserted).length + c := by
    rw [List.length_append]
    omega
  rw [← List.append_assoc, hlength, List.drop_length_add_append, List.drop_length_add_append]

/-- So is a part of it. -/
theorem slice_moved (h : front.length ≤ a) :
    slice (front ++ (inserted ++ back)) (a + inserted.length) (b + inserted.length) =
      slice (front ++ back) a b := by
  rw [slice, slice, drop_moved h, Nat.add_sub_add_right]

/-- A part of the text from before the lines to behind them has them inside. -/
theorem slice_across (ha : a ≤ front.length) (hb : front.length ≤ b) :
    slice (front ++ back) a b = front.drop a ++ back.take (b - front.length) := by
  have hlength : b - a = (front.drop a).length + (b - front.length) := by
    rw [List.length_drop]
    omega
  rw [slice, List.drop_append_of_le_length ha, hlength, List.take_length_add_append]

/-- A definition with its places moved. -/
def PlacedDefinition.relocate (move : Nat → Nat) (d : PlacedDefinition) : PlacedDefinition where
  start := move d.start
  root := d.root
  fieldStarts := d.fieldStarts.map move

/-- Moving places keeps the first one. -/
theorem min?_map_moved (start more : Nat) (places : List Nat) :
    (places.map (moved start more)).min? = places.min?.map (moved start more) := by
  cases hmin : places.min? with
  | none =>
    rw [List.min?_eq_none_iff] at hmin
    rw [hmin]
    rfl
  | some first =>
    rw [List.min?_eq_some_iff] at hmin
    rw [Option.map_some, List.min?_eq_some_iff]
    refine ⟨List.mem_map_of_mem hmin.1, fun p hp => ?_⟩
    obtain ⟨q, hq, rfl⟩ := List.mem_map.mp hp
    exact moved_le_moved_iff.mpr (hmin.2 q hq)

variable {comments : List (List Char)} {d : PlacedDefinition} {text : List Char}

/-- A text before the lines ends where it ended, if it takes up no more than there is. -/
theorem textEnd_front {start : Nat} (hstart : start ≤ front.length)
    (h : byteLength text ≤ byteLength (front.drop start)) (back : List Char) :
    textEnd (front ++ back) start text = textEnd front start text ∧
      textEnd front start text ≤ front.length := by
  rw [textEnd, textEnd, List.drop_append_of_le_length hstart, fitting_append h]
  have hle := fitting_le_length (byteLength text) (front.drop start)
  rw [List.length_drop] at hle
  exact ⟨rfl, by omega⟩

/-- A text behind the lines is moved with its end. -/
theorem textEnd_moved {start : Nat} (hstart : front.length ≤ start) :
    textEnd (front ++ (inserted ++ back)) (start + inserted.length) text =
      textEnd (front ++ back) start text + inserted.length := by
  rw [textEnd, textEnd, drop_moved hstart, Nat.add_right_comm]

/-- A root type has the same lines, if its text takes up no more than there is before the lines
that are put in, or begins behind them. -/
theorem bodyLines_moved
    (hend : d.start < front.length → byteLength text ≤ byteLength (front.drop d.start))
    (hfields : front.length ≤ d.start → ∀ p ∈ d.fieldStarts, front.length ≤ p) :
    bodyLines (front ++ (inserted ++ back))
        (d.relocate (moved front.length inserted.length)) text =
      bodyLines (front ++ back) d text := by
  unfold bodyLines
  rw [PlacedDefinition.relocate, min?_map_moved]
  cases hmin : d.fieldStarts.min? with
  | none => rfl
  | some first =>
    have hslice : slice (front ++ (inserted ++ back)) (moved front.length inserted.length first)
        (textEnd (front ++ (inserted ++ back)) (moved front.length inserted.length d.start) text) =
          slice (front ++ back) first (textEnd (front ++ back) d.start text) := by
      by_cases hd : d.start < front.length
      · obtain ⟨hsame, hle⟩ := textEnd_front (Nat.le_of_lt hd) (hend hd) (inserted ++ back)
        rw [moved_of_lt hd, hsame, (textEnd_front (Nat.le_of_lt hd) (hend hd) back).1,
          slice_front hle, slice_front hle]
        by_cases hfirst : first < front.length
        · rw [moved_of_lt hfirst]
        · -- the text ends before the place
          have hnone : textEnd front d.start text - (first + inserted.length) = 0 := by omega
          have hnone' : textEnd front d.start text - first = 0 := by omega
          rw [moved_of_le (Nat.le_of_not_lt hfirst), slice, slice, hnone, hnone', List.take_zero,
            List.take_zero]
      · have hle := Nat.le_of_not_lt hd
        have hfirst := hfields hle first (List.min?_eq_some_iff.mp hmin).1
        rw [moved_of_le hle, moved_of_le hfirst, textEnd_moved hle, slice_moved hfirst]
    simp only [Option.map_some, hslice]

/-- It is torn as it was. -/
theorem isTorn_moved
    (hend : d.start < front.length → byteLength text ≤ byteLength (front.drop d.start))
    (hfields : front.length ≤ d.start → ∀ p ∈ d.fieldStarts, front.length ≤ p) :
    isTorn (front ++ (inserted ++ back))
        (d.relocate (moved front.length inserted.length)) text =
      isTorn (front ++ back) d text := by
  unfold isTorn
  rw [PlacedDefinition.relocate, min?_map_moved]
  cases hmin : d.fieldStarts.min? with
  | none => rfl
  | some first =>
    simp only [Option.map_some, Option.any_some]
    by_cases hd : d.start < front.length
    · obtain ⟨hsame, hle⟩ := textEnd_front (Nat.le_of_lt hd) (hend hd) (inserted ++ back)
      rw [moved_of_lt hd, hsame, (textEnd_front (Nat.le_of_lt hd) (hend hd) back).1,
        slice_front hle, slice_front hle]
      by_cases hfirst : first < front.length
      · rw [moved_of_lt hfirst]
      · have hfirst := Nat.le_of_not_lt hfirst
        rw [moved_of_le hfirst]
        by_cases hall : textEnd front d.start text = front.length
        · -- what stands before the lines takes up all of the bytes
          have hslice : slice front d.start front.length = front.drop d.start :=
            List.take_of_length_le (by rw [List.length_drop])
          have hbytes := byteLength_slice_textEnd_le front d.start text
          rw [hall, hslice] at hbytes
          rw [hall, hslice, Nat.le_antisymm hbytes (hend hd)]
          simp
        · have hbefore : ¬ first ≤ textEnd front d.start text := by omega
          have hbehind : ¬ first + inserted.length ≤ textEnd front d.start text := by omega
          rw [decide_eq_false hbefore, decide_eq_false hbehind]
    · have hle := Nat.le_of_not_lt hd
      have hfirst := hfields hle first (List.min?_eq_some_iff.mp hmin).1
      rw [moved_of_le hle, moved_of_le hfirst, textEnd_moved hle, slice_moved hle]
      simp only [Nat.add_le_add_iff_right]

/-- Definitions in the order of their places, and a place at or behind which the first
definition behind the lines is found: only blanks stand between. -/
structure AreParted (front back : List Char) (reach : Nat) (placed : List PlacedDefinition) :
    Prop where
  /-- Definitions stand in order. -/
  sorted : placed.Pairwise fun d e => d.start ≤ e.start
  /-- Each of them stands in the text. -/
  inside : ∀ d ∈ placed, d.start ≤ (front ++ back).length
  /-- Behind those before the lines there is one that stands at the place, or none. -/
  reached : ∀ d ∈ placed, d.start < front.length →
    (∃ e ∈ placed, e.start = reach) ∨ reach = (front ++ back).length
  /-- Those before the lines are no blanks. -/
  ink : ∀ d ∈ placed, d.start < front.length → ∃ c ∈ front.drop d.start, isBlank c = false
  /-- The fields of those behind the lines stand behind them. -/
  fields : ∀ d ∈ placed, front.length ≤ d.start → ∀ p ∈ d.fieldStarts, front.length ≤ p

variable {reach finish : Nat}

/-- The text of a definition is trimmed to the same text. -/
theorem trimDefinition_moved (hfeed : ∀ body ∈ comments, '\n' ∉ body) (hline : EndsLine front)
    (hblanks : IsBlankText (back.take (reach - front.length)))
    (hink : d.start < front.length → ∃ c ∈ front.drop d.start, isBlank c = false)
    (hreach : d.start < front.length → front.length ≤ finish → finish ≤ reach)
    (hle : d.start ≤ finish) :
    trimDefinition (slice (front ++ (commentLines comments ++ back))
        (moved front.length (commentLines comments).length d.start)
        (moved front.length (commentLines comments).length finish)) =
      trimDefinition (slice (front ++ back) d.start finish) ∧
      (d.start < front.length → byteLength (trimDefinition (slice (front ++ back) d.start finish)) ≤
        byteLength (front.drop d.start)) := by
  by_cases hd : d.start < front.length
  · by_cases hfinish : finish < front.length
    · rw [moved_of_lt hd, moved_of_lt hfinish, slice_front (Nat.le_of_lt hfinish),
        slice_front (Nat.le_of_lt hfinish)]
      refine ⟨rfl, fun _ => byteLength_le_of_sublist ?_⟩
      exact (trimDefinition_inside _).sublist.trans (List.take_sublist _ _)
    · -- the lines stand behind the text
      have hfinish := Nat.le_of_not_lt hfinish
      have hbehind := hreach hd hfinish
      have hdrop : EndsLine (front.drop d.start) := by
        intro c hc
        rw [List.getLast?_drop, if_neg (by omega)] at hc
        exact hline c hc
      have hblanks' : IsBlankText (back.take (finish - front.length)) := fun c hc =>
        hblanks c ((List.take_subset_take_left back (by omega)) hc)
      have hmore : finish + (commentLines comments).length - front.length =
          (commentLines comments).length + (finish - front.length) := by omega
      have htrim : trimDefinition (front.drop d.start ++
          (commentLines [] ++ back.take (finish - front.length))) = _ :=
        trimDefinition_comments (by simp) hdrop (hink hd) hblanks'
      rw [moved_of_lt hd, moved_of_le hfinish, slice_across (Nat.le_of_lt hd) hfinish,
        slice_across (Nat.le_of_lt hd) (by omega), hmore, List.take_length_add_append,
        trimDefinition_comments hfeed hdrop (hink hd) hblanks']
      rw [show commentLines [] = [] from rfl, List.nil_append] at htrim
      refine ⟨htrim.symm, fun _ => ?_⟩
      rw [htrim]
      exact byteLength_le_of_sublist (trimDefinition_inside _).sublist
  · have hd := Nat.le_of_not_lt hd
    rw [moved_of_le hd, moved_of_le (Nat.le_trans hd hle), slice_moved hd]
    exact ⟨rfl, fun hlt => absurd hlt (Nat.not_lt_of_le hd)⟩

theorem addDefinition_congr {source source' : List Char} {d d' : PlacedDefinition}
    (hroot : d'.root = d.root) (hlines : bodyLines source' d' text = bodyLines source d text)
    (fragment : Fragment) :
    fragment.addDefinition source' d' text = fragment.addDefinition source d text := by
  unfold Fragment.addDefinition
  rw [hroot, hlines]

section Parted

variable {placed rest : List PlacedDefinition}

theorem AreParted.tail (h : AreParted front back reach (d :: rest)) (hreach : front.length ≤ reach) :
    AreParted front back reach rest where
  sorted := (List.pairwise_cons.mp h.sorted).2
  inside e he := h.inside e (List.mem_cons_of_mem _ he)
  reached e he hlt := by
    refine (h.reached e (List.mem_cons_of_mem _ he) hlt).imp_left ?_
    rintro ⟨o, ho, hstart⟩
    refine ⟨o, (List.mem_cons.mp ho).resolve_left ?_, hstart⟩
    rintro rfl
    have := (List.pairwise_cons.mp h.sorted).1 e he
    omega
  ink e he := h.ink e (List.mem_cons_of_mem _ he)
  fields e he := h.fields e (List.mem_cons_of_mem _ he)

theorem AreParted.le_nextStart (h : AreParted front back reach (d :: rest)) :
    d.start ≤ nextStart (front ++ back) rest := by
  cases rest with
  | nil => exact h.inside d List.mem_cons_self
  | cons next rest => exact (List.pairwise_cons.mp h.sorted).1 next List.mem_cons_self

/-- Behind a definition before the lines the next one stands at the place at the latest. -/
theorem AreParted.nextStart_le (h : AreParted front back reach (d :: rest))
    (hreach : front.length ≤ reach) (hlt : d.start < front.length) :
    nextStart (front ++ back) rest ≤ reach := by
  have hsorted := (List.pairwise_cons.mp h.sorted).2
  rcases h.reached d List.mem_cons_self hlt with ⟨e, he, rfl⟩ | hend
  · rcases List.mem_cons.mp he with rfl | he
    · omega
    · cases rest with
      | nil => cases he
      | cons next rest =>
        rcases List.mem_cons.mp he with rfl | he
        · exact le_rfl
        · exact (List.pairwise_cons.mp hsorted).1 e he
  · rw [hend]
    cases rest with
    | nil => exact le_rfl
    | cons next rest => exact h.inside next (List.mem_cons_of_mem _ List.mem_cons_self)

theorem nextStart_moved (placed : List PlacedDefinition) :
    nextStart (front ++ (inserted ++ back))
        (placed.map (.relocate (moved front.length inserted.length))) =
      moved front.length inserted.length (nextStart (front ++ back) placed) := by
  cases placed with
  | nil =>
    change (front ++ (inserted ++ back)).length = moved _ _ (front ++ back).length
    rw [moved_of_le (by simp)]
    simp only [List.length_append]
    omega
  | cons => rfl

/-- **Comments between definitions make no difference to the fragment.** -/
theorem ofPlaced_comments (hfeed : ∀ body ∈ comments, '\n' ∉ body) (hline : EndsLine front)
    (hblanks : IsBlankText (back.take (reach - front.length))) (hreach : front.length ≤ reach)
    (h : AreParted front back reach placed) (fragment : Fragment) :
    Fragment.ofPlaced (front ++ (commentLines comments ++ back))
        (placed.map (.relocate (moved front.length (commentLines comments).length))) fragment =
      Fragment.ofPlaced (front ++ back) placed fragment := by
  induction placed generalizing fragment with
  | nil => rfl
  | cons d rest ih =>
    obtain ⟨htrim, hend⟩ := trimDefinition_moved hfeed hline hblanks (h.ink d List.mem_cons_self)
      (fun hlt _ => h.nextStart_le hreach hlt) h.le_nextStart
    rw [List.map_cons, ofPlaced_cons (nextStart_moved rest), ofPlaced_cons rfl,
      ih (h.tail hreach)]
    change Fragment.ofPlaced _ rest (fragment.addDefinition _ _ (trimDefinition (slice _
      (moved _ _ d.start) _))) = _
    rw [htrim]
    have hroot : (d.relocate (moved front.length (commentLines comments).length)).root = d.root :=
      rfl
    refine congrArg _ (addDefinition_congr hroot ?_ fragment)
    exact bodyLines_moved hend (h.fields d List.mem_cons_self)

/-- They tear no definition, and mend none. -/
theorem anyTorn_comments (hfeed : ∀ body ∈ comments, '\n' ∉ body) (hline : EndsLine front)
    (hblanks : IsBlankText (back.take (reach - front.length))) (hreach : front.length ≤ reach)
    (h : AreParted front back reach placed) :
    anyTorn (front ++ (commentLines comments ++ back))
        (placed.map (.relocate (moved front.length (commentLines comments).length))) =
      anyTorn (front ++ back) placed := by
  induction placed with
  | nil => rfl
  | cons d rest ih =>
    obtain ⟨htrim, hend⟩ := trimDefinition_moved hfeed hline hblanks (h.ink d List.mem_cons_self)
      (fun hlt _ => h.nextStart_le hreach hlt) h.le_nextStart
    rw [List.map_cons, anyTorn, anyTorn, nextStart_moved rest, ih (h.tail hreach)]
    change (isTorn _ _ (trimDefinition (slice _ (moved _ _ d.start) _)) || _) = _
    rw [htrim, isTorn_moved hend (h.fields d List.mem_cons_self)]

end Parted

end Splitting

end Sdl
end EntitySdl
