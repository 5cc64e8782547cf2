import EntitySdl.Sdl.Document

/-! # Outlines of definitions

The outline of a tree leaves out all places, and all texts but those of names,
numbers and operations.  The rules for definitions, and whether a definition is
that of a root type, are matters of the outline alone.
-/
namespace EntitySdl
namespace Sdl

/-- Whether the text of a rule belongs to an outline. -/
def Rule.isOutlined : Rule → Bool
  | .name | .number | .operationType => true
  | _ => false

namespace Tree

mutual

/-- A tree without places, with the texts that belong to an outline. -/
def outline : Tree Rule → Tree Rule
  | node rule _ text children =>
    node rule 0 (if rule.isOutlined then text else []) (outlineAll children)

/-- The outlines of several trees. -/
def outlineAll : List (Tree Rule) → List (Tree Rule)
  | [] => []
  | tree :: trees => tree.outline :: outlineAll trees

end

mutual

/-- The places and the texts of the strings in a tree. -/
def strings : Tree Rule → List (Nat × List Char)
  | node rule start text children =>
    if rule = .string then (start, text) :: stringsAll children else stringsAll children

/-- The places and the texts of the strings in several trees. -/
def stringsAll : List (Tree Rule) → List (Nat × List Char)
  | [] => []
  | tree :: trees => tree.strings ++ stringsAll trees

end

theorem outlineAll_eq_map (ts : List (Tree Rule)) : outlineAll ts = ts.map outline := by
  induction ts with
  | nil => rfl
  | cons t ts ih => rw [outlineAll, List.map_cons, ih]

theorem outlineAll_append (ts us : List (Tree Rule)) :
    outlineAll (ts ++ us) = outlineAll ts ++ outlineAll us := by
  rw [outlineAll_eq_map, outlineAll_eq_map, outlineAll_eq_map, List.map_append]

theorem stringsAll_append (ts us : List (Tree Rule)) :
    stringsAll (ts ++ us) = stringsAll ts ++ stringsAll us := by
  induction ts with
  | nil => rfl
  | cons t ts ih => rw [List.cons_append, stringsAll, stringsAll, ih, List.append_assoc]

theorem unplacedAll_append (ts us : List (Tree Rule)) :
    unplacedAll (ts ++ us) = unplacedAll ts ++ unplacedAll us := by
  induction ts with
  | nil => rfl
  | cons t ts ih => rw [List.cons_append, unplacedAll, unplacedAll, ih, List.cons_append]

@[simp] theorem rule_outline (t : Tree Rule) : t.outline.rule = t.rule := by
  cases t
  rw [outline]
  rfl

theorem text_outline {t : Tree Rule} (h : t.rule.isOutlined) : t.outline.text = t.text := by
  cases t
  rw [outline]
  exact if_pos h

@[simp] theorem childrenOf_outline (t : Tree Rule) (r : Rule) :
    t.outline.childrenOf r = (t.childrenOf r).map outline := by
  cases t with
  | node rule start text children =>
    simp only [outline, childrenOf, Tree.children, outlineAll_eq_map, List.filter_map]
    refine congrArg _ (List.filter_congr fun child _ => ?_)
    rw [Function.comp_apply, rule_outline]

@[simp] theorem child?_outline (t : Tree Rule) (r : Rule) :
    t.outline.child? r = (t.child? r).map outline := by
  rw [child?, childrenOf_outline, List.head?_map]
  rfl

mutual

theorem textsOf_outline {r : Rule} (hr : r.isOutlined) (t : Tree Rule) :
    t.outline.textsOf r = t.textsOf r := by
  cases t with
  | node rule start text children =>
    rw [outline, textsOf, textsOf, textsOfAll_outlineAll hr children]
    by_cases h : rule = r
    · rw [if_pos h, if_pos h, if_pos (by rwa [h])]
    · rw [if_neg h, if_neg h]

theorem textsOfAll_outlineAll {r : Rule} (hr : r.isOutlined) (ts : List (Tree Rule)) :
    textsOfAll r (outlineAll ts) = textsOfAll r ts := by
  cases ts with
  | nil => rfl
  | cons t ts =>
    rw [outlineAll, textsOfAll, textsOfAll, textsOf_outline hr t, textsOfAll_outlineAll hr ts]

end

end Tree

open Sdl.Tree

/-- The name inside a node keeps its text. -/
theorem text_outline_of_name {t name : Tree Rule} (h : t.child? .name = some name) :
    name.outline.text = name.text := by
  have hrule : name.rule = .name := by
    simpa using (List.mem_filter.mp (List.mem_of_head? h)).2
  exact text_outline (by rw [hrule]; rfl)

theorem checkSchemaDefinition_outline (t : Tree Rule) :
    checkSchemaDefinition t.outline = checkSchemaDefinition t := by
  unfold checkSchemaDefinition
  have hroots : (t.outline.childrenOf .rootDefinition).flatMap (·.textsOf .operationType) =
      (t.childrenOf .rootDefinition).flatMap (·.textsOf .operationType) := by
    rw [childrenOf_outline, List.flatMap_map]
    exact congrArg (List.flatMap · _) (funext fun root => textsOf_outline rfl root)
  rw [hroots, child?_outline, Option.isNone_map]

/-- The rules for definitions are a matter of the outline. -/
theorem checkDefinition_outline (t : Tree Rule) :
    checkDefinition t.outline = checkDefinition t := by
  unfold checkDefinition
  rw [textsOf_outline rfl, child?_outline]
  cases t.child? .schemaDefinition with
  | none => rfl
  | some schema => simp only [Option.map_some, checkSchemaDefinition_outline]

theorem objectType?_outline (t : Tree Rule) :
    objectType? t.outline = (objectType? t).map outline := by
  unfold objectType?
  rw [child?_outline]
  cases t.child? .typeDefinition with
  | none => rfl
  | some type => simp

/-- So is being a root type. -/
theorem rootKind?_outline (t : Tree Rule) : rootKind? t.outline = rootKind? t := by
  unfold rootKind?
  rw [objectType?_outline]
  cases objectType? t with
  | none => rfl
  | some object =>
    simp only [Option.map_some, Option.bind_eq_bind, Option.bind_some, child?_outline]
    cases hname : object.child? .name with
    | none => rfl
    | some name =>
      simp only [Option.map_some, Option.bind_some, text_outline_of_name hname]

theorem checkDefinition_congr {t u : Tree Rule} (h : t.outline = u.outline) :
    checkDefinition t = checkDefinition u := by
  rw [← checkDefinition_outline, h, checkDefinition_outline]

theorem rootKind?_congr {t u : Tree Rule} (h : t.outline = u.outline) :
    rootKind? t = rootKind? u := by
  rw [← rootKind?_outline, h, rootKind?_outline]

end Sdl
end EntitySdl
