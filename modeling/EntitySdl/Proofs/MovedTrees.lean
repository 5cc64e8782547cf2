import EntitySdl.Proofs.Shifts

/-! # Trees at other places

The layout of a tree is its outline together with the places of its nodes, those of
lexemes apart.  A text that is laid out anew without gaps has trees of the same layout,
up to the way in which places are moved; so a definition is found again where it is
moved to, with its fields.
-/
namespace EntitySdl
namespace Sdl

open Name Text Grammar Cursor Sdl.Tree

namespace Tree

mutual

/-- The outline of a tree, with the places of all nodes but lexemes, moved. -/
def layout (move : Nat → Nat) : Tree Rule → Tree Rule
  | node rule start text children =>
    node rule (if rule.isLexeme then 0 else move start) (if rule.isOutlined then text else [])
      (layoutAll move children)

/-- The outlines of several trees, with the places of all nodes but lexemes, moved. -/
def layoutAll (move : Nat → Nat) : List (Tree Rule) → List (Tree Rule)
  | [] => []
  | tree :: trees => tree.layout move :: layoutAll move trees

end

variable {move : Nat → Nat}

theorem layoutAll_eq_map (ts : List (Tree Rule)) : layoutAll move ts = ts.map (layout move) := by
  induction ts with
  | nil => rfl
  | cons t ts ih => rw [layoutAll, List.map_cons, ih]

theorem layoutAll_append (ts us : List (Tree Rule)) :
    layoutAll move (ts ++ us) = layoutAll move ts ++ layoutAll move us := by
  simp only [layoutAll_eq_map, List.map_append]

@[simp] theorem rule_layout (t : Tree Rule) : (t.layout move).rule = t.rule := by
  cases t
  rw [layout]
  rfl

theorem start_layout {t : Tree Rule} (h : t.rule.isLexeme = false) :
    (t.layout move).start = move t.start := by
  cases t
  rw [layout, Tree.rule] at *
  simp [h, Tree.start]

@[simp] theorem childrenOf_layout (t : Tree Rule) (r : Rule) :
    (t.layout move).childrenOf r = (t.childrenOf r).map (layout move) := by
  cases t with
  | node rule start text children =>
    simp only [layout, childrenOf, Tree.children, layoutAll_eq_map, List.filter_map]
    refine congrArg _ (List.filter_congr fun child _ => ?_)
    rw [Function.comp_apply, rule_layout]

@[simp] theorem child?_layout (t : Tree Rule) (r : Rule) :
    (t.layout move).child? r = (t.child? r).map (layout move) := by
  rw [child?, childrenOf_layout, List.head?_map]
  rfl

end Tree

mutual

theorem outline_layout (move : Nat → Nat) (t : Tree Rule) : (t.layout move).outline = t.outline := by
  cases t with
  | node rule start text children =>
    rw [layout, outline, outline, outlineAll_layoutAll move children]
    split <;> simp_all

theorem outlineAll_layoutAll (move : Nat → Nat) (ts : List (Tree Rule)) :
    outlineAll (layoutAll move ts) = outlineAll ts := by
  cases ts with
  | nil => rfl
  | cons t ts =>
    rw [layoutAll, outlineAll, outlineAll, outline_layout move t, outlineAll_layoutAll move ts]

end

mutual

/-- Trees that are moved have a layout that is moved. -/
theorem layout_relocate (move : Nat → Nat) (t : Tree Rule) :
    (t.relocate move).layout id = t.layout move := by
  cases t with
  | node rule start text children =>
    rw [relocate, layout, layout, layoutAll_relocateAll move children, id_eq]

theorem layoutAll_relocateAll (move : Nat → Nat) (ts : List (Tree Rule)) :
    layoutAll id (relocateAll move ts) = layoutAll move ts := by
  cases ts with
  | nil => rfl
  | cons t ts =>
    rw [relocateAll, layoutAll, layoutAll, layout_relocate move t, layoutAll_relocateAll move ts]

end

theorem fieldStarts_layout (move : Nat → Nat) (t : Tree Rule) :
    fieldStarts (t.layout move) = (fieldStarts t).map move := by
  unfold fieldStarts objectType?
  rw [child?_layout]
  cases t.child? .typeDefinition with
  | none => rfl
  | some type =>
    simp only [Option.map_some, Option.bind_some, child?_layout]
    cases type.child? .objectType with
    | none => rfl
    | some object =>
      simp only [Option.map_some, Option.bind_some, child?_layout]
      cases object.child? .fieldsDefinition with
      | none => rfl
      | some fields =>
        simp only [Option.map_some, Option.toList_some, List.flatMap_singleton,
          childrenOf_layout, List.map_map]
        refine List.map_congr_left fun field hfield => ?_
        have hrule : field.rule = .fieldDefinition := by simpa using (List.mem_filter.mp hfield).2
        exact start_layout (by rw [hrule]; rfl)

section Lexemes

/-- Whether only lexemes are nodes of an expression. -/
def leavesLexemes : Peg Rule → Bool
  | .text _ | .charWhere _ | .finish | .never _ => true
  | .rule r => r.isLexeme
  | .seq first second | .choice first second => leavesLexemes first && leavesLexemes second
  | .optional inner | .many inner => leavesLexemes inner

/-- Whether only lexemes are nodes of a goal. -/
def goalLeavesLexemes : Goal Rule → Bool
  | .one e | .more e => leavesLexemes e

/-- Lexemes have no places in a layout. -/
theorem layout_of_derives (move : Nat → Nat) {mode : Mode} {goal : Goal Rule} {c d : Cursor}
    {ts : List (Tree Rule)} (h : sdl.Derives (fun _ => false) mode goal c d ts)
    (hgoal : goalLeavesLexemes goal) : layoutAll move ts = outlineAll ts := by
  induction h with
  | token htoken => cases htoken
  | @rule mode r c d ts _ _ ih =>
    have hbody : ∀ r : Rule, r.isLexeme → leavesLexemes (sdl r).body :=
      Rule.forall_iff.mpr (by decide)
    have hr : r.isLexeme := hgoal
    have hts := ih (hbody r hr)
    rw [RuleBody.node]
    split
    · rfl
    · rw [layoutAll, outlineAll, layout, outline, hts, if_pos hr]
      rfl
  | seq _ _ ihfirst ihsecond =>
    simp only [goalLeavesLexemes, leavesLexemes, Bool.and_eq_true] at hgoal
    rw [layoutAll_append, outlineAll_append, ihfirst hgoal.1, ihsecond hgoal.2]
  | some _ _ ihfirst ihmore | again _ _ ihfirst ihmore =>
    rw [layoutAll_append, outlineAll_append, ihfirst hgoal, ihmore hgoal]
  | left _ ih =>
    simp only [goalLeavesLexemes, leavesLexemes, Bool.and_eq_true] at hgoal
    exact ih hgoal.1
  | right _ ih =>
    simp only [goalLeavesLexemes, leavesLexemes, Bool.and_eq_true] at hgoal
    exact ih hgoal.2
  | present _ ih => exact ih hgoal
  | text | charWhere | finish | absent | none | stop | never => rfl

end Lexemes

namespace Seam

variable {seam : Seam} {r r' : List Char}

/-- Without gaps, texts are alike if they are the same up to the cut. -/
theorem Alike.exists_before (h : seam.Alike r r') (hgaps : seam.gaps = false) :
    ∃ before, r = before ++ seam.edge ∧ r' = before ++ seam.tail := by
  induction h with
  | edge => exact ⟨[], rfl, rfl⟩
  | @char c _ _ _ ih =>
    obtain ⟨before, rfl, rfl⟩ := ih
    exact ⟨c :: before, rfl, rfl⟩
  | gap hgap _ _ _ =>
    rw [hgaps] at hgap
    cases hgap

/-- If near places are moved in one way, so are the nodes that stand there. -/
theorem relates_layout {size size' : Nat} {move : Nat → Nat}
    (hmove : ∀ {c c' : Cursor}, c.offset + c.rest.length = size →
      c'.offset + c'.rest.length = size' → seam.Near c.rest c'.rest → c'.offset = move c.offset) :
    seam.Relates size size' fun us ts => layoutAll id us = layoutAll move ts where
  nil := rfl
  append h h' := by rw [layoutAll_append, layoutAll_append, h, h']
  lexeme hr h h' hus := by
    rw [layout_of_derives id h'.derives hr, layout_of_derives move h.derives hr, hus.outline]
  node hr hsize hsize' hnear _ h := by
    have hplace := hmove hsize hsize' hnear
    simp only [layoutAll, layout, hr, isOutlined_of_not_isLexeme hr, Bool.false_eq_true, if_false,
      id_eq, hplace, h]

end Seam

/-- A definition is found again at a place that is moved, with its fields. -/
structure IsMoved (move : Nat → Nat) (u t : Tree Rule) : Prop where
  /-- It has the same outline. -/
  outline : u.outline = t.outline
  /-- It starts where it is moved to. -/
  start : u.start = move t.start
  /-- So do its fields. -/
  fields : fieldStarts u = (fieldStarts t).map move

theorem isMoved_of_layout {move : Nat → Nat} {u t : Tree Rule} (ht : t.rule = .definition)
    (h : u.layout id = t.layout move) : IsMoved move u t := by
  have hu : u.rule = .definition := by rw [← @rule_layout id u, h, rule_layout, ht]
  refine ⟨by rw [← outline_layout id, h, outline_layout], ?_, ?_⟩
  · have hstart := congrArg Tree.start h
    rwa [start_layout (by rw [hu]; rfl), start_layout (by rw [ht]; rfl)] at hstart
  · have hfields := congrArg fieldStarts h
    rwa [fieldStarts_layout, fieldStarts_layout, List.map_id] at hfields

theorem areMoved_of_layout {move : Nat → Nat} {us ts : List (Tree Rule)}
    (hts : ∀ t ∈ ts, t.rule = .definition) (h : layoutAll id us = layoutAll move ts) :
    List.Forall₂ (IsMoved move) us ts := by
  induction ts generalizing us with
  | nil =>
    cases us with
    | nil => exact .nil
    | cons => cases h
  | cons t ts ih =>
    rw [List.forall_mem_cons] at hts
    cases us with
    | nil => cases h
    | cons u us =>
      obtain ⟨hu, hus⟩ := List.cons.inj h
      exact .cons (isMoved_of_layout hts.1 hu) (ih hts.2 hus)

end Sdl
end EntitySdl
