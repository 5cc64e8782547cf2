import EntitySdl.Proofs.Addresses
import EntitySdl.Proofs.WellFormed

/-! # The first breach

Every breach of the rules for schemas has an address.  Members of a list are numbered in the
order of declaration, and a breach in a member by itself (0) comes before the repetition of
its name (1).  This holds of the models of a schema, of the members of one kind in a model
and of the arguments of an operation.  In a model, its name (0) comes before its properties
(1), its relations (2) and its operations (3), and in an operation its name (0) before its
arguments (1).  Checking a schema reports the first breach in the order of the addresses
(`Schema.check_verdict`), and accepts exactly the well-named schemas.
-/
namespace EntitySdl

open Address Name

/-! ### Reporting what is first -/

/-- A computation that may fail reports the first of the faults that stand somewhere. -/
def ReportsFirst {ε α : Type} (result : Except ε α) (stands : Address → ε → Prop) : Prop :=
  match result with
  | .ok _ => ∀ address fault, ¬ stands address fault
  | .error fault => IsFirst stands fault

namespace ReportsFirst

variable {ε ε' α β : Type} {result : Except ε α} {stands behind : Address → ε → Prop}

theorem error_iff (h : ReportsFirst result stands) (fault : ε) :
    result = .error fault ↔ IsFirst stands fault := by
  cases result with
  | ok value =>
    refine iff_of_false (by simp) ?_
    rintro ⟨address, hstands, -⟩
    exact h address fault hstands
  | error other =>
    rw [Except.error.injEq]
    exact ⟨fun heq => heq ▸ h, fun hfirst => IsFirst.unique h hfirst⟩

theorem congr {stands' : Address → ε → Prop} (h : ReportsFirst result stands)
    (hiff : ∀ address fault, stands' address fault ↔ stands address fault) :
    ReportsFirst result stands' := by
  rwa [show stands' = stands from funext₂ fun address fault => propext (hiff address fault)]

/-- The addresses may change if their order does not. -/
theorem image {place : Address → Address}
    (hplace : ∀ {left right}, Before left right → Before (place left) (place right))
    (h : ReportsFirst result stands) :
    ReportsFirst result fun address fault => ∃ rest, address = place rest ∧ stands rest fault := by
  cases result with
  | ok value =>
    rintro _ fault ⟨rest, -, hstands⟩
    exact h rest fault hstands
  | error fault =>
    obtain ⟨address, hstands, hbehind⟩ := h
    refine ⟨place address, ⟨address, rfl, hstands⟩, ?_⟩
    rintro _ other ⟨rest, rfl, hother⟩
    exact (hbehind rest other hother).imp (fun ⟨heq, hvalue⟩ => ⟨heq ▸ rfl, hvalue⟩) hplace

/-- What is reported in a part is reported in the whole. -/
theorem part (i : Nat) (h : ReportsFirst result stands) : ReportsFirst result (At i stands) :=
  h.image .inner

theorem bind_pure (f : α → β) (h : ReportsFirst result stands) :
    ReportsFirst (result >>= fun value => pure (f value)) stands := by
  cases result <;> exact h

theorem mapError (f : ε → ε') (h : ReportsFirst result stands) :
    ReportsFirst (result.mapError f)
      fun address fault => ∃ cause, stands address cause ∧ fault = f cause := by
  cases result with
  | ok value =>
    rintro address _ ⟨cause, hstands, -⟩
    exact h address cause hstands
  | error cause =>
    obtain ⟨address, hstands, hbehind⟩ := h
    refine ⟨address, ⟨cause, hstands, rfl⟩, ?_⟩
    rintro place _ ⟨other, hother, rfl⟩
    exact (hbehind place other hother).imp_left fun ⟨hplace, heq⟩ => ⟨hplace, heq ▸ rfl⟩

/-- What is checked later stands behind. -/
theorem bind {next : α → Except ε β} (h : ReportsFirst result stands)
    (hnext : ∀ value, result = .ok value → ReportsFirst (next value) behind)
    (hbehind : ∀ address fault place other, stands address fault → behind place other →
      Before address place) :
    ReportsFirst (result >>= next)
      fun address fault => stands address fault ∨ behind address fault := by
  cases result with
  | ok value =>
    exact (hnext value rfl).congr fun address fault => or_iff_right (h address fault)
  | error fault =>
    obtain ⟨address, hstands, hfirst⟩ := h
    refine ⟨address, .inl hstands, fun place other hother => ?_⟩
    rcases hother with hother | hother
    · exact hfirst place other hother
    · exact .inr (hbehind address fault place other hstands hother)

/-- One part is checked after another. -/
theorem bind_part {i : Nat} {next : α → Except ε β} (h : ReportsFirst result stands)
    (hnext : ∀ value, result = .ok value → ReportsFirst (next value) behind)
    (hbehind : IsBehind i behind) :
    ReportsFirst (result >>= next)
      fun address fault => At i stands address fault ∨ behind address fault := by
  refine (h.part i).bind hnext ?_
  rintro _ _ place other ⟨rest, rfl, -⟩ hother
  exact hbehind.before hother

/-- A single rule, and what is checked behind it. -/
theorem guard (condition : Prop) [Decidable condition] (fault : ε) (skip : α → Except ε β)
    {next : Except ε β} (place : Address) (h : ReportsFirst next behind)
    (hbehind : ∀ address other, behind address other → Before place address) :
    ReportsFirst (if condition then (Except.error fault : Except ε α) >>= skip else next)
      fun address other =>
        (condition ∧ address = place ∧ other = fault) ∨ behind address other := by
  split
  · rename_i hcondition
    refine ⟨place, .inl ⟨hcondition, rfl, rfl⟩, fun address other hother => ?_⟩
    exact hother.imp And.right (hbehind address other)
  · rename_i hcondition
    exact h.congr fun address other => or_iff_right fun hother => hcondition hother.1

end ReportsFirst

/-! ### What breaks the rules -/

/-- Breaches among members of one kind, some of whose names are taken. -/
inductive BreaksAmong {α ε : Type} (own : α → Address → ε → Prop) (repeated : α → ε)
    (name : α → String) (taken : List String) (members : List α) : Address → ε → Prop where
  /-- A member breaks a rule by itself. -/
  | own {i : Nat} {member : α} {address : Address} {breach : ε}
      (hmember : members[i]? = some member) (h : own member address breach) :
      BreaksAmong own repeated name taken members (i :: 0 :: address) breach
  /-- The name of a member is taken, or an earlier member has it. -/
  | repeated {i : Nat} {member : α} (hmember : members[i]? = some member)
      (h : name member ∈ taken ++ (members.take i).map name) :
      BreaksAmong own repeated name taken members [i, 1] (repeated member)

/-- A property breaks a rule. -/
inductive Property.Breaks (property : Property) : Address → Violation → Prop where
  /-- Its name is no identifier. -/
  | name (h : isIdentifier property.name = false) :
      Breaks property [] (.propertyName property.name)

/-- A relation breaks a rule. -/
inductive Relation.Breaks (relation : Relation) : Address → Violation → Prop where
  /-- Its name is no identifier. -/
  | name (h : isIdentifier relation.name = false) :
      Breaks relation [0] (.relationName relation.name)
  /-- The name of its target is none. -/
  | target (h : isIdentifier relation.model = false) :
      Breaks relation [1] (.relationTarget relation.name relation.model)

/-- An operation breaks a rule. -/
inductive Operation.Breaks (operation : Operation) : Address → Violation → Prop where
  /-- Its name is no identifier. -/
  | name (h : isIdentifier operation.name = false) :
      Breaks operation [0] (.operationName operation.name)
  /-- So it is with its arguments. -/
  | argument {address : Address} {violation : Violation}
      (h : BreaksAmong Property.Breaks
        (fun argument => .repeatedArgument argument.name operation.name) Property.name []
        operation.arguments address violation) :
      Breaks operation (1 :: address) violation

/-- A member of a model breaks a rule, which is a fault of the model. -/
def BreaksIn {α : Type} (model : String) (breaks : α → Address → Violation → Prop) (member : α)
    (address : Address) (fault : Fault) : Prop :=
  ∃ violation, breaks member address violation ∧ fault = violation.inModel model

namespace Model

variable (model : Model)

/-- The properties of a model break a rule. -/
def PropertiesBreak : Address → Fault → Prop :=
  BreaksAmong (BreaksIn model.name Property.Breaks)
    (fun property => .duplicateMember model.name .property property.name) Property.name []
    model.properties

/-- The relations of a model break a rule.  They are fields like the properties, whose names
are taken. -/
def RelationsBreak : Address → Fault → Prop :=
  BreaksAmong (BreaksIn model.name Relation.Breaks)
    (fun relation => .duplicateMember model.name .relation relation.name) Relation.name
    (model.properties.map Property.name) model.relations

/-- The operations of a model break a rule. -/
def OperationsBreak : Address → Fault → Prop :=
  BreaksAmong (BreaksIn model.name Operation.Breaks)
    (fun operation => .duplicateMember model.name .operation operation.name) Operation.name []
    model.operations

/-- A model breaks a rule. -/
inductive Breaks : Address → Fault → Prop where
  /-- Its name is empty. -/
  | emptyName (h : model.name = "") :
      Breaks [0, 0] (.modelValidation model.name "Model name cannot be empty")
  /-- Its name is no identifier. -/
  | name (h : isIdentifier model.name = false) :
      Breaks [0, 1] (.modelValidation model.name
        ("Model name '" ++ model.name ++ "' is not a valid identifier"))
  /-- So it is with its properties. -/
  | property {address : Address} {fault : Fault} (h : model.PropertiesBreak address fault) :
      Breaks (1 :: address) fault
  /-- With its relations. -/
  | relation {address : Address} {fault : Fault} (h : model.RelationsBreak address fault) :
      Breaks (2 :: address) fault
  /-- And with its operations. -/
  | operation {address : Address} {fault : Fault} (h : model.OperationsBreak address fault) :
      Breaks (3 :: address) fault

end Model

/-- A schema breaks a rule: one of its models does, or has the name of an earlier one. -/
def Schema.Breaks (schema : Schema) : Address → Fault → Prop :=
  BreaksAmong Model.Breaks (fun model => .duplicateModel model.name) Model.name [] schema.models

section Members

variable {α ε : Type} {own : α → Address → ε → Prop} {repeated : α → ε} {name : α → String}
  {taken : List String}

theorem not_breaksAmong_nil {address : Address} {breach : ε} :
    ¬ BreaksAmong own repeated name taken [] address breach := by
  intro h
  cases h with
  | own hmember => simp at hmember
  | repeated hmember => simp at hmember

/-- The first member breaks a rule by itself, or its name is taken, or there are breaches
among the others, for which its name is taken. -/
theorem breaksAmong_cons_iff {member : α} {rest : List α} {address : Address} {breach : ε} :
    BreaksAmong own repeated name taken (member :: rest) address breach ↔
      (∃ inner, address = 0 :: 0 :: inner ∧ own member inner breach) ∨
        ((name member ∈ taken ∧ address = [0, 1] ∧ breach = repeated member) ∨
          ∃ other, address = other.next ∧
            BreaksAmong own repeated name (name member :: taken) rest other breach) := by
  constructor
  · rintro (@⟨_ | i, member', inner, _, hmember, h⟩ | @⟨_ | i, member', hmember, h⟩)
    · obtain rfl : member = member' := by simpa using hmember
      exact .inl ⟨inner, rfl, h⟩
    · exact .inr (.inr ⟨i :: 0 :: inner, rfl, .own (by simpa using hmember) h⟩)
    · obtain rfl : member = member' := by simpa using hmember
      exact .inr (.inl ⟨by simpa using h, rfl, rfl⟩)
    · refine .inr (.inr ⟨[i, 1], rfl, .repeated (by simpa using hmember) ?_⟩)
      simp only [List.take_succ_cons, List.map_cons, List.mem_append, List.mem_cons] at h ⊢
      tauto
  · rintro (⟨inner, rfl, h⟩ | ⟨h, rfl, rfl⟩ | ⟨other, rfl, h⟩)
    · exact .own (i := 0) rfl h
    · exact .repeated (i := 0) rfl (by simpa using h)
    · cases h with
      | @own i _ inner _ hmember h => exact .own (i := i + 1) (by simpa using hmember) h
      | @repeated i _ hmember h =>
        refine .repeated (i := i + 1) (by simpa using hmember) ?_
        simp only [List.take_succ_cons, List.map_cons, List.mem_append, List.mem_cons] at h ⊢
        tauto

/-- One round of a check of members: the member by itself, its name, and the others. -/
theorem ReportsFirst.round {β γ : Type} {member : α} {rest : List α} {result : Except ε Unit}
    {skip : γ → Except ε β} {next : Except ε β} (hown : ReportsFirst result (own member))
    (hnext : ReportsFirst next (BreaksAmong own repeated name (name member :: taken) rest)) :
    ReportsFirst (result >>= fun _ => if taken.contains (name member) = true then
        (Except.error (repeated member) : Except ε γ) >>= skip else next)
      (BreaksAmong own repeated name taken (member :: rest)) := by
  -- own breaches stand at `0 :: 0 :: _`, the repetition at `[0, 1]`, the others from `1` on
  have hothers : ∀ {first rest' : Address}, (∃ other, rest' = other.next ∧ ∃ breach,
      BreaksAmong own repeated name (name member :: taken) rest other breach) →
        Before (0 :: first) rest' := by
    rintro first _ ⟨_, rfl, _, h⟩
    cases h <;> exact .outer (Nat.succ_pos _)
  have hmember : ∀ {left right}, Before left right → Before (0 :: 0 :: left) (0 :: 0 :: right) :=
    fun h => .inner (.inner h)
  have hname := (hnext.image before_next).guard (taken.contains (name member) = true)
    (repeated member) skip [0, 1] fun _ _ ⟨other, heq, h⟩ => hothers ⟨other, heq, _, h⟩
  refine ((hown.image hmember).bind (fun _ _ => hname) ?_).congr fun address fault => ?_
  · rintro _ _ place other ⟨inner, rfl, -⟩ (⟨-, rfl, -⟩ | ⟨rest', rfl, h⟩)
    · exact .inner (.outer Nat.zero_lt_one)
    · exact hothers ⟨rest', rfl, _, h⟩
  · rw [breaksAmong_cons_iff, List.contains_iff_mem]

end Members

section Checks

theorem Property.check_reports (property : Property) :
    ReportsFirst property.check property.Breaks := by
  unfold Property.check
  split
  · rename_i h
    rintro address _ ⟨hname⟩
    simp [h] at hname
  · rename_i h
    refine ⟨[], .name (by simpa using h), ?_⟩
    rintro place other ⟨-⟩
    exact .inl ⟨rfl, rfl⟩

theorem Relation.check_reports (relation : Relation) :
    ReportsFirst relation.check relation.Breaks := by
  unfold Relation.check
  cases hname : isIdentifier relation.name
  · refine ⟨[0], .name hname, ?_⟩
    rintro place other (- | -)
    · exact .inl ⟨rfl, rfl⟩
    · exact .inr (.outer Nat.zero_lt_one)
  · cases htarget : isIdentifier relation.model
    · refine ⟨[1], .target htarget, ?_⟩
      rintro place other (h | -)
      · simp [hname] at h
      · exact .inl ⟨rfl, rfl⟩
    · rintro address fault (h | h)
      · simp [hname] at h
      · simp [htarget] at h

theorem Operation.checkArguments_reports (operation : String) (arguments : List Property)
    (taken : List String) : ReportsFirst (Operation.checkArguments operation arguments taken)
      (BreaksAmong Property.Breaks (fun argument => .repeatedArgument argument.name operation)
        Property.name taken arguments) := by
  induction arguments generalizing taken with
  | nil => exact fun _ _ => not_breaksAmong_nil
  | cons argument rest ih => exact argument.check_reports.round (ih (argument.name :: taken))

theorem Operation.check_reports (operation : Operation) :
    ReportsFirst operation.check operation.Breaks := by
  unfold Operation.check
  split
  · rename_i h
    have hname : isIdentifier operation.name ≠ false := by simp [h]
    refine ((Operation.checkArguments_reports operation.name operation.arguments []).part
      1).congr fun address violation => ?_
    constructor
    · rintro (h | h)
      · exact absurd h hname
      · exact ⟨_, rfl, h⟩
    · rintro ⟨rest, rfl, h⟩
      exact .argument h
  · rename_i h
    refine ⟨[0], .name (by simpa using h), ?_⟩
    rintro place other (- | -)
    · exact .inl ⟨rfl, rfl⟩
    · exact .inr (.outer Nat.zero_lt_one)

theorem Model.checkMembers_reports {α : Type} (model : String) (kind : MemberKind)
    (name : α → String) {check : α → Except Violation Unit}
    {breaks : α → Address → Violation → Prop}
    (hcheck : ∀ member, ReportsFirst (check member) (breaks member)) (members : List α)
    (taken : List String) : ReportsFirst (Model.checkMembers model kind name check members taken)
      (BreaksAmong (BreaksIn model breaks) (fun member => .duplicateMember model kind (name member))
        name taken members) := by
  induction members generalizing taken with
  | nil => exact fun _ _ => not_breaksAmong_nil
  | cons member rest ih => exact ((hcheck member).mapError _).round (ih (name member :: taken))

theorem breaksAmong_taken_congr {α ε : Type} {own : α → Address → ε → Prop} {repeated : α → ε}
    {name : α → String} {members : List α} {taken taken' : List String}
    (h : ∀ name, name ∈ taken ↔ name ∈ taken') {address : Address} {breach : ε} :
    BreaksAmong own repeated name taken members address breach ↔
      BreaksAmong own repeated name taken' members address breach := by
  constructor
  · rintro (⟨hmember, hown⟩ | ⟨hmember, hname⟩)
    · exact .own hmember hown
    · exact .repeated hmember (by rwa [List.mem_append, ← h, ← List.mem_append])
  · rintro (⟨hmember, hown⟩ | ⟨hmember, hname⟩)
    · exact .own hmember hown
    · exact .repeated hmember (by rwa [List.mem_append, h, ← List.mem_append])

/-- The relations are checked against the names of the properties. -/
theorem Model.relations_reports (model : Model) (fields : List String)
    (h : Model.checkMembers model.name .property Property.name Property.check model.properties [] =
      .ok fields) :
    ReportsFirst (Model.checkMembers model.name .relation Relation.name Relation.check
      model.relations fields) model.RelationsBreak := by
  refine (Model.checkMembers_reports _ _ _ Relation.check_reports model.relations fields).congr
    fun address fault => breaksAmong_taken_congr fun name => ?_
  rw [(Model.checkMembers_eq_ok_iff.mp h).2, List.append_nil, List.mem_reverse]

/-- The members of a model are checked kind by kind. -/
theorem Model.members_reports (model : Model) :
    ReportsFirst (do
        let fields ← Model.checkMembers model.name .property Property.name Property.check
          model.properties []
        let _ ← Model.checkMembers model.name .relation Relation.name Relation.check
          model.relations fields
        let _ ← Model.checkMembers model.name .operation Operation.name Operation.check
          model.operations []
        pure ())
      fun address fault => At 1 model.PropertiesBreak address fault ∨
        At 2 model.RelationsBreak address fault ∨ At 3 model.OperationsBreak address fault := by
  have hoperations := ((Model.checkMembers_reports model.name .operation Operation.name
    Operation.check_reports model.operations []).part 3).bind_pure fun _ => ()
  refine (Model.checkMembers_reports _ _ _ Property.check_reports _ []).bind_part
    (fun fields h => (model.relations_reports fields h).bind_part (fun _ _ => hoperations)
      (isBehind_at _ (by decide))) ?_
  exact (isBehind_at _ (by decide)).or (isBehind_at _ (by decide))

/-- A model breaks a rule by its name or in one of its parts. -/
theorem Model.breaks_iff {model : Model} {address : Address} {fault : Fault} :
    model.Breaks address fault ↔
      (model.name = "" ∧ address = [0, 0] ∧
        fault = .modelValidation model.name "Model name cannot be empty") ∨
      (isIdentifier model.name = false ∧ address = [0, 1] ∧
        fault = .modelValidation model.name
          ("Model name '" ++ model.name ++ "' is not a valid identifier")) ∨
      At 1 model.PropertiesBreak address fault ∨ At 2 model.RelationsBreak address fault ∨
        At 3 model.OperationsBreak address fault := by
  constructor
  · rintro (h | h | h | h | h)
    · exact .inl ⟨h, rfl, rfl⟩
    · exact .inr (.inl ⟨h, rfl, rfl⟩)
    · exact .inr (.inr (.inl ⟨_, rfl, h⟩))
    · exact .inr (.inr (.inr (.inl ⟨_, rfl, h⟩)))
    · exact .inr (.inr (.inr (.inr ⟨_, rfl, h⟩)))
  · rintro (⟨h, rfl, rfl⟩ | ⟨h, rfl, rfl⟩ | ⟨_, rfl, h⟩ | ⟨_, rfl, h⟩ | ⟨_, rfl, h⟩)
    · exact .emptyName h
    · exact .name h
    · exact .property h
    · exact .relation h
    · exact .operation h

theorem Model.check_reports (model : Model) : ReportsFirst model.check model.Breaks := by
  have hparts := (isBehind_at (i := 0) model.PropertiesBreak (j := 1) (by decide)).or
    ((isBehind_at model.RelationsBreak (j := 2) (by decide)).or
      (isBehind_at model.OperationsBreak (j := 3) (by decide)))
  unfold Model.check
  refine ReportsFirst.congr (.guard _ _ _ [0, 0] (.guard _ _ _ [0, 1] model.members_reports
    fun _ _ h => hparts.before h) ?_) fun address fault => ?_
  · rintro address other (⟨-, rfl, -⟩ | h)
    · exact .inner (.outer Nat.zero_lt_one)
    · exact hparts.before h
  · rw [Model.breaks_iff, String.isEmpty_iff, Bool.not_eq_true']

theorem Schema.checkModels_reports (models : List Model) (taken : List String) :
    ReportsFirst (Schema.checkModels models taken)
      (BreaksAmong Model.Breaks (fun model => .duplicateModel model.name) Model.name taken
        models) := by
  induction models generalizing taken with
  | nil => exact fun _ _ => not_breaksAmong_nil
  | cons model rest ih => exact model.check_reports.round (ih (model.name :: taken))

theorem Schema.check_reports (schema : Schema) : ReportsFirst schema.check schema.Breaks :=
  Schema.checkModels_reports schema.models []

end Checks

/-- A letter of a name, or an underscore. -/
def IsLetter (c : Char) : Prop := c = '_' ∨ 'A' ≤ c ∧ c ≤ 'Z' ∨ 'a' ≤ c ∧ c ≤ 'z'

/-- A name has the form `[_A-Za-z][_0-9A-Za-z]*`. -/
def HasNameForm (name : String) : Prop :=
  ∃ first rest, name.toList = first :: rest ∧ IsLetter first ∧
    ∀ c ∈ rest, IsLetter c ∨ '0' ≤ c ∧ c ≤ '9'

theorem isNameStart_iff {c : Char} : isNameStart c ↔ IsLetter c := by
  simp only [isNameStart, Text.isAsciiLetter, IsLetter, Bool.or_eq_true, beq_iff_eq,
    decide_eq_true_eq]
  tauto

theorem isIdentifier_iff {name : String} : isIdentifier name ↔ HasNameForm name := by
  have hpart : ∀ c, isNamePart c ↔ IsLetter c ∨ '0' ≤ c ∧ c ≤ '9' := fun c => by
    rw [isNamePart, Bool.or_eq_true, isNameStart_iff, Text.isAsciiDigit, decide_eq_true_eq]
  unfold isIdentifier HasNameForm
  cases name.toList with
  | nil => simp [isIdentifierText]
  | cons c cs =>
    rw [isIdentifierText, Bool.and_eq_true, isNameStart_iff, List.all_eq_true]
    simp only [hpart, List.cons.injEq]
    constructor
    · rintro ⟨hfirst, hrest⟩
      exact ⟨c, cs, ⟨rfl, rfl⟩, hfirst, hrest⟩
    · rintro ⟨_, _, ⟨rfl, rfl⟩, hfirst, hrest⟩
      exact ⟨hfirst, hrest⟩

/-- The names in a schema are well formed, and they do not repeat where they must not. -/
structure Schema.WellNamed (schema : Schema) : Prop where
  /-- No two models have one name. -/
  models : (schema.models.map Model.name).Nodup
  /-- The names of a model and of its members have the form of names, and so have the names of
  the targets of its relations. -/
  names : ∀ model ∈ schema.models, HasNameForm model.name ∧
    (∀ property ∈ model.properties, HasNameForm property.name) ∧
    (∀ relation ∈ model.relations, HasNameForm relation.name ∧ HasNameForm relation.model) ∧
    ∀ operation ∈ model.operations, HasNameForm operation.name ∧
      ∀ argument ∈ operation.arguments, HasNameForm argument.name
  /-- The members of a model have names of their own, and so have the arguments of an
  operation. -/
  members : ∀ model ∈ schema.models, model.HasDistinctNames

theorem Schema.check_eq_ok_iff_wellNamed {schema : Schema} :
    schema.check = .ok () ↔ schema.WellNamed := by
  rw [Schema.check_eq_ok_iff]
  constructor
  · rintro ⟨hmodels, hnames⟩
    have hboth := fun model hmodel => Model.check_eq_ok_iff.mp (hmodels model hmodel)
    refine ⟨hnames, fun model hmodel => ?_, fun model hmodel => (hboth model hmodel).2⟩
    obtain ⟨hw, -⟩ := hboth model hmodel
    simp only [← isIdentifier_iff]
    exact ⟨hw.name, hw.properties, hw.relations, fun operation hoperation =>
      ⟨hw.operations operation hoperation, hw.arguments operation hoperation⟩⟩
  · intro h
    refine ⟨fun model hmodel => Model.check_eq_ok_iff.mpr ⟨?_, h.members model hmodel⟩, h.models⟩
    obtain ⟨hname, hproperties, hrelations, hoperations⟩ := h.names model hmodel
    simp only [← isIdentifier_iff] at hname hproperties hrelations hoperations
    exact ⟨hname, hproperties, hrelations, fun operation hoperation =>
      (hoperations operation hoperation).1, fun operation hoperation =>
      (hoperations operation hoperation).2⟩

/-- **The verdict on a schema.**  It passes the rules exactly when its names are well formed
and do not repeat, and otherwise the fault is its first breach of a rule: the one whose
address comes before those of all others. -/
theorem Schema.check_verdict (schema : Schema) :
    (schema.check = .ok () ↔ schema.WellNamed) ∧
      ∀ fault, schema.check = .error fault ↔ IsFirst schema.Breaks fault :=
  ⟨Schema.check_eq_ok_iff_wellNamed, schema.check_reports.error_iff⟩

/-- The arguments of an operation are checked before its name is compared with others. -/
example :
    Schema.check { models :=
      [{ name := "Book"
         operations := [{ name := "lend", returns := .scalar .boolean {} },
           { name := "lend", arguments := [⟨"to", .scalar .string {}⟩, ⟨"to", .scalar .string {}⟩]
             returns := .scalar .boolean {} }] }] } =
      .error ((Violation.repeatedArgument "to" "lend").inModel "Book") := rfl

end EntitySdl
