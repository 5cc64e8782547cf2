import EntitySdl.Schema.TypeForm

/-! # Types written as bare names

A type that needs no more than a name may be written as a text.  Question marks in it allow
null, wherever they stand, and with the blanks around the rest they are no part of the
name.  The text denotes what the record with that name denotes, for the names of scalars
and of objects; the record form knows further names, and these are unknown here.
-/
namespace EntitySdl

/-- The name in a text: what is left of it without the question marks, and then without the
blanks at both ends. -/
def bareName (text : String) : String :=
  Text.trimmed (String.ofList (text.toList.filter (· != '?')))

/-- Whether a text allows null. -/
def allowsNull (text : String) : Bool := text.toList.contains '?'

/-- The names that a text may give to a type. -/
def bareNames : List String :=
  ["Binary", "Boolean", "DateTime", "Decimal", "Integer", "String", "UniqueIdentifier", "Object"]

/-- The entries of a record that gives the name of a type and says whether null is allowed;
where it is not, that need not be said. -/
inductive IsTypeRecord (name : String) : Bool → List (String × Datum) → Prop where
  /-- Only the name is given. -/
  | name : IsTypeRecord name false [("TypeName", .text name)]
  /-- The name comes first. -/
  | nameFirst (allowNull : Bool) : IsTypeRecord name allowNull
      [("TypeName", .text name), ("AllowNull", .boolean allowNull)]
  /-- The name comes last. -/
  | nameLast (allowNull : Bool) : IsTypeRecord name allowNull
      [("AllowNull", .boolean allowNull), ("TypeName", .text name)]

namespace ScalarKind

theorem ofTypeName?_eq_some_iff {name : String} {kind : ScalarKind} :
    ofTypeName? name = some kind ↔ kind.typeName = name := by
  constructor
  · intro h
    have hname := List.find?_some h
    exact beq_iff_eq.mp hname
  · rintro rfl
    exact ofTypeName?_typeName kind

theorem mem_bareNames_iff {name : String} :
    name ∈ bareNames ↔ (∃ kind : ScalarKind, kind.typeName = name) ∨ name = "Object" := by
  constructor
  · intro h
    have hall : ∀ name ∈ bareNames, (ofTypeName? name).isSome ∨ name = "Object" := by decide
    refine (hall name h).imp_left fun hsome => ?_
    obtain ⟨kind, hkind⟩ := Option.isSome_iff_exists.mp hsome
    exact ⟨kind, ofTypeName?_eq_some_iff.mp hkind⟩
  · rintro (⟨kind, rfl⟩ | rfl)
    · cases kind <;> decide
    · decide

end ScalarKind

namespace PropertyType

variable {text name : String} {allowNull : Bool} {entries : List (String × Datum)}

theorem ofName_eq (text : String) : ofName text =
    match ScalarKind.ofTypeName? (bareName text) with
    | some kind => .ok (scalar kind { allowNull := allowsNull text })
    | none => if bareName text = "Object" then .ok (object { allowNull := allowsNull text })
      else .error (.unsupported (bareName text)) := by
  simp only [bareName, Text.trimmed, String.toList_ofList]
  rfl

/-- A text with one of the names denotes a type, as does a record that gives the name. -/
theorem exists_of_mem_bareNames (h : bareName text ∈ bareNames) :
    ∃ type, ofName text = .ok type ∧
      (TypeForm.plain (bareName text) { allowNull := allowsNull text } none).resolve =
        .ok type := by
  rw [ofName_eq]
  rcases ScalarKind.mem_bareNames_iff.mp h with ⟨kind, hkind⟩ | hobject
  · rw [← hkind, ScalarKind.ofTypeName?_typeName]
    refine ⟨_, rfl, ?_⟩
    cases kind <;> rfl
  · rw [hobject]
    exact ⟨_, rfl, rfl⟩

/-- A text with any other name denotes none. -/
theorem ofName_of_not_mem (h : bareName text ∉ bareNames) :
    ofName text = .error (.unsupported (bareName text)) := by
  rw [ScalarKind.mem_bareNames_iff, not_or, not_exists] at h
  have hnone : ScalarKind.ofTypeName? (bareName text) = none :=
    Option.eq_none_iff_forall_ne_some.mpr fun kind hkind =>
      h.1 kind (ScalarKind.ofTypeName?_eq_some_iff.mp hkind)
  rw [ofName_eq, hnone]
  exact if_neg h.2

theorem ofDatum?_of_isTypeRecord (h : IsTypeRecord name allowNull entries) :
    TypeForm.ofDatum? (.record entries) = some (.plain name { allowNull } none) := by
  cases h <;> rfl

/-- **Bare names and records agree.**  A text denotes a type just when its name is that of a
scalar or of an object, and then it is the type that a record with this name denotes, which
allows null when there is a question mark in the text.  Any other name is unknown, those
that only records may have included. -/
theorem decode_bare_name (dialect : Datum.Dialect) (text : String) :
    ((∃ type, decode dialect (.text text) = .ok type) ↔ bareName text ∈ bareNames) ∧
    (bareName text ∈ bareNames → ∀ entries, IsTypeRecord (bareName text) (allowsNull text) entries →
      decode dialect (.record entries) = decode dialect (.text text)) ∧
    (bareName text ∉ bareNames →
      decode dialect (.text text) = .error (.typeFault (.unsupported (bareName text)))) := by
  have hdecode : decode dialect (.text text) = (ofName text).mapError .typeFault := rfl
  have hunknown : bareName text ∉ bareNames →
      decode dialect (.text text) = .error (.typeFault (.unsupported (bareName text))) := by
    intro h
    rw [hdecode, ofName_of_not_mem h]
    rfl
  refine ⟨⟨?_, fun h => ?_⟩, fun h entries hentries => ?_, hunknown⟩
  · rintro ⟨type, htype⟩
    refine Decidable.byContradiction fun h => ?_
    rw [hunknown h] at htype
    cases htype
  · obtain ⟨type, htype, -⟩ := exists_of_mem_bareNames h
    exact ⟨type, by rw [hdecode, htype]; rfl⟩
  · obtain ⟨type, htype, hresolve⟩ := exists_of_mem_bareNames h
    rw [hdecode, htype, decode, ofDatum?_of_isTypeRecord hentries]
    simp only [hresolve]

/-- Question marks and blanks may stand anywhere around the name. -/
theorem decode_bare_name_marked : bareName "? Inte?ger\t?" ∈ bareNames ∧
    decode .json (.record [("AllowNull", .boolean true), ("TypeName", .text "Integer")]) =
      decode .json (.text "? Inte?ger\t?") := by
  have hname : bareName "? Inte?ger\t?" = "Integer" := by decide +kernel
  have hnull : allowsNull "? Inte?ger\t?" = true := by decide +kernel
  have hmem : bareName "? Inte?ger\t?" ∈ bareNames := by
    rw [hname]
    decide
  have hrecord : IsTypeRecord (bareName "? Inte?ger\t?") (allowsNull "? Inte?ger\t?")
      [("AllowNull", .boolean true), ("TypeName", .text "Integer")] := by
    rw [hname, hnull]
    exact .nameLast true
  exact ⟨hmem, (decode_bare_name .json "? Inte?ger\t?").2.1 hmem _ hrecord⟩

/-- A record may have the name of a list, and a text may not. -/
example :
    (decode .json (.record [("TypeName", .text "Array"), ("MemberType", .text "String")])).toOption =
        some (.array (.scalar .string {}) {}) ∧
      (decode .json (.text "Array")).toOption = none := by
  decide +kernel

end PropertyType
end EntitySdl
