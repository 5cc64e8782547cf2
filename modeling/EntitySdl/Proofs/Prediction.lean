import EntitySdl.Proofs.Heads

/-! # Prediction

The first branch of a choice that matches is the branch that is read, and a
repetition goes on as long as what is repeated is read, because in each case the
next token decides.  The exceptions are the values `true` and `false`, which begin
like other names, and the extensions that may end before their body.  The rules
for definitions as a whole need more than one token and are left out here.
-/
namespace EntitySdl
namespace Sdl
namespace Grammar

open Peg

/-- How definitions begin. -/
def definitionHeads : Heads where
  words := ["\"", "schema", "scalar", "type", "interface", "union", "enum", "input", "extend",
    "directive"].map String.toList

/-- What stands behind a rule, unless the document ends there. -/
def follow : Rule → Heads
  | .schemaDefinition | .directiveDefinition | .scalarType | .objectType | .interfaceType
  | .unionType | .enumType | .inputObjectType | .fieldsDefinition | .unionMemberTypes
  | .enumValues | .inputFieldsDefinition | .directiveLocations => definitionHeads
  | .implementsInterfaces => definitionHeads.union { words := [['@'], ['\x7b']] }
  | .repeatable => { words := ["on".toList] }
  | .rootDefinition | .constObjectField => { words := [['\x7d']], names := true }
  | .fieldDefinition | .enumValueDefinition => { words := [['"'], ['\x7d']], names := true }
  | .inputValueDefinition => { words := [['"'], ['\x7d'], [')']], names := true }
  | .constArgument => { words := [[')']], names := true }
  | .constDirectives =>
    { words := [['"'], ['\x7b'], ['\x7d'], [')'], ['=']], names := true }
  | .constDirective =>
    { words := [['"'], ['\x7b'], ['\x7d'], [')'], ['='], ['@']], names := true }
  | _ => { all := true }

/-- Whether a rule is predicted from the next token. -/
def isPredicted : Rule → Bool
  | .finish | .document | .definition | .typeDefinition => false
  | _ => true

/-- Whether an expression fails wherever another is read that is followed by
certain heads. -/
def isClear (e : Peg Rule) (behind : Heads) : Peg Rule → Bool
  | .choice first second => isClear e behind first && isClear e behind second
  | .rule r =>
    (!mayBeEmpty mayBeEmptyRule e && !mayBeEmptyRule r && (heads e).apart (heads (.rule r))) ||
      match e with
      -- the value of an enumeration is neither a truth value nor null
      | .rule .boolean | .rule .null => decide (r = .enumValue)
      -- what is optional is there, but what should come behind it is not
      | .seq (.optional (.rule other)) second =>
        decide (other = r) && isModest second && !mayBeEmpty mayBeEmptyRule second &&
          (heads second).apart behind
      | _ => false
  | other =>
    !mayBeEmpty mayBeEmptyRule e && !mayBeEmpty mayBeEmptyRule other &&
      (heads e).apart (heads other)

/-- Whether the next token decides every choice in an expression that is followed
by certain heads. -/
def isPredictive (behind : Heads) : Peg Rule → Bool
  | .text _ => true
  | .charWhere _ | .finish | .never _ => false
  | .rule r => r.isLexeme || (isPredicted r && behind.within (follow r))
  | .seq first second =>
    isPredictive ((heads second).union
      (if mayBeEmpty mayBeEmptyRule second then behind else {})) first &&
      isPredictive behind second
  | .choice first second =>
    isPredictive behind first && isPredictive behind second && isModest first &&
      isClear first behind second
  | .optional inner =>
    isPredictive behind inner && isModest inner && !mayBeEmpty mayBeEmptyRule inner &&
      (heads inner).apart behind
  | .many inner =>
    isPredictive ((heads inner).union behind) inner && isModest inner &&
      !mayBeEmpty mayBeEmptyRule inner && (heads inner).apart behind

theorem isPredictive_body {r : Rule} (hlexeme : r.isLexeme = false) (hr : isPredicted r) :
    isPredictive (follow r) (body r) := by
  have hall : ∀ r, r.isLexeme = false → isPredicted r → isPredictive (follow r) (body r) :=
    Rule.forall_iff.mpr (by decide +kernel)
  exact hall r hlexeme hr

/-- Behind a place, the document ends or goes on with one of the heads. -/
def Follows (behind : Heads) (d : Cursor) : Prop :=
  (d.skip .spaced).rest = [] ∨ behind.Begin (d.skip .spaced).rest

theorem Follows.within {behind wider : Heads} {d : Cursor} (h : Follows behind d)
    (hwithin : behind.within wider) : Follows wider d :=
  h.imp_right (Heads.begin_of_within hwithin)

theorem follows_all (d : Cursor) : Follows { all := true } d :=
  (Classical.em _).imp_right fun hrest => .inr (.inr ⟨rfl, hrest⟩)

/-- An expression fails where the text ends or goes on with heads apart from its
own. -/
theorem Follows.fails {behind : Heads} {e : Peg Rule} {d : Cursor} (h : Follows behind d)
    (hmodest : isModest e) (he : mayBeEmpty mayBeEmptyRule e = false)
    (hapart : (heads e).apart behind) : sdl.Fails .spaced e (d.skip .spaced) := by
  refine fails_of_not_begin hmodest he (Cursor.skip_skip d) fun hbegin => ?_
  rcases h with hend | hbehind
  · rw [hend] at hbegin
    exact Heads.not_begin_nil hbegin
  · exact Heads.not_begin_of_apart hapart hbegin hbehind

/-- The value of an enumeration is no other value. -/
theorem fails_of_enumValue {c d : Cursor} {ts : List (Tree Rule)} {r : Rule}
    (h : sdl.Matches .spaced (.rule .enumValue) c d ts) (hr : r = .boolean ∨ r = .null) :
    sdl.Fails .spaced (.rule r) c := by
  obtain ⟨us, h, -⟩ := matches_rule_iff.mp h
  obtain ⟨m, _, _, h, -, -⟩ := matches_seq_iff.mp h
  obtain ⟨hboolean, hnull⟩ := fails_choice_iff.mp (matches_never_iff.mp h).1
  rw [fails_rule_iff] at hboolean hnull ⊢
  rcases hr with rfl | rfl
  · obtain ⟨htrue, hfalse⟩ := fails_choice_iff.mp hboolean
    exact fails_choice_iff.mpr ⟨fails_text_iff.mpr (fails_text_iff.mp htrue),
      fails_text_iff.mpr (fails_text_iff.mp hfalse)⟩
  · exact fails_text_iff.mpr (fails_text_iff.mp hnull)

theorem fails_of_apart {e other : Peg Rule} (hmodest : isModest e)
    (he : mayBeEmpty mayBeEmptyRule e = false)
    (hother : mayBeEmpty mayBeEmptyRule other = false)
    (hapart : (heads e).apart (heads other)) {c d : Cursor} {ts : List (Tree Rule)}
    (hc : c.skip .spaced = c) (h : sdl.Matches .spaced other c d ts) : sdl.Fails .spaced e c :=
  fails_of_not_begin hmodest he hc fun hbegin =>
    Heads.not_begin_of_apart hapart hbegin (Reads.begins h.derives hc hother)

/-- An expression fails where another matches from which it is clear. -/
theorem fails_of_isClear {e other : Peg Rule} {behind : Heads} (hmodest : isModest e)
    (hclear : isClear e behind other) {c d : Cursor} {ts : List (Tree Rule)}
    (hc : c.skip .spaced = c) (h : sdl.Matches .spaced other c d ts) (hd : Follows behind d) :
    sdl.Fails .spaced e c := by
  induction other generalizing d ts with
  | choice first second ihfirst ihsecond =>
    simp only [isClear, Bool.and_eq_true] at hclear
    rcases matches_choice_iff.mp h with h | ⟨-, h⟩
    · exact ihfirst hclear.1 h hd
    · exact ihsecond hclear.2 h hd
  | rule r =>
    simp only [isClear, Bool.or_eq_true, Bool.and_eq_true, Bool.not_eq_true'] at hclear
    rcases hclear with ⟨⟨he, hr⟩, hapart⟩ | hclear
    · have hr : mayBeEmpty mayBeEmptyRule (.rule r) = false := hr
      exact fails_of_apart hmodest he hr hapart hc h
    · split at hclear
      · cases of_decide_eq_true hclear
        exact fails_of_enumValue h (.inl rfl)
      · cases of_decide_eq_true hclear
        exact fails_of_enumValue h (.inr rfl)
      · rename_i other second
        simp only [Bool.and_eq_true, decide_eq_true_eq, Bool.not_eq_true'] at hclear
        obtain ⟨⟨⟨rfl, hsecond⟩, hne⟩, hapart⟩ := hclear
        exact fails_seq_iff.mpr (.inr ⟨d, ts, matches_optional_iff.mpr (.inl h),
          hd.fails hsecond hne hapart⟩)
      · cases hclear
  | text | charWhere | finish | seq | optional | many | never =>
    simp only [isClear, Bool.and_eq_true, Bool.not_eq_true'] at hclear
    exact fails_of_apart hmodest hclear.1.1 hclear.1.2 hclear.2 hc h

/-- A goal is found by matching. -/
def Found : Goal Rule → Cursor → Cursor → List (Tree Rule) → Prop
  | .one e, c, d, ts => c.skip .spaced = c → sdl.Matches .spaced e c d ts
  | .more e, c, d, ts => sdl.Repeats .spaced e c d ts

/-- Whether the next token decides how a goal is reached. -/
def goalIsPredictive (behind : Heads) : Goal Rule → Bool
  | .one e => isPredictive behind e
  | .more e => isPredictive behind (.many e)

/-- Between repetitions the text goes on with another one, or with what stands
behind them all. -/
theorem Reads.follows {e : Peg Rule} {c d : Cursor} {ts : List (Tree Rule)}
    (h : Reads (.more e) c d ts) (he : mayBeEmpty mayBeEmptyRule e = false) {behind : Heads}
    (hd : Follows behind d) : Follows ((heads e).union behind) c := by
  cases h with
  | stop => exact hd.imp_right fun hbegin => Heads.begin_union.mpr (.inr hbegin)
  | again hfirst hmore =>
    exact .inr (Heads.begin_union.mpr (.inl (Reads.begins hfirst (Cursor.skip_skip c) he)))

/-- **Predictive parsing.**  What is read for an expression in which the next token
decides every choice is what matching finds. -/
theorem Reads.found {goal : Goal Rule} {c d : Cursor} {ts : List (Tree Rule)}
    (h : Reads goal c d ts) {behind : Heads} (hgoal : goalIsPredictive behind goal)
    (hd : Follows behind d) : Found goal c d ts := by
  induction h using Reads.induct generalizing behind with
  | text hrest hoffset => exact fun _ => matches_text_iff.mpr ⟨hrest, hoffset, rfl⟩
  | charWhere | finish | never => cases hgoal
  | lexeme hr h => exact fun _ => h
  | @rule r c d ts hr h ih =>
    intro hc
    simp only [goalIsPredictive, isPredictive, hr, Bool.false_or, Bool.and_eq_true] at hgoal
    obtain ⟨hpredicted, hwithin⟩ := hgoal
    have hbody := ih (isPredictive_body hr hpredicted) (hd.within hwithin) hc
    refine matches_rule_iff.mpr ⟨ts, ?_, ?_⟩
    · rw [sdl_modeIn hr, sdl_body]
      exact hbody
    · rw [sdl_node_spaced r c d ts]
  | @seq first second c m d ts us hfirst hsecond ihfirst ihsecond =>
    intro hc
    simp only [goalIsPredictive, isPredictive, Bool.and_eq_true] at hgoal
    -- behind the first part stands the second, or what follows if that is empty
    have hm : Follows ((heads second).union
        (if mayBeEmpty mayBeEmptyRule second then behind else {})) m := by
      rcases Reads.goal_begins hsecond (Cursor.skip_skip m) with hbegin | ⟨hempty, rfl⟩
      · exact .inr (Heads.begin_union.mpr (.inl hbegin))
      · rw [Follows, Cursor.skip_skip] at hd
        rw [goalMayBeEmpty] at hempty
        rw [if_pos hempty]
        exact hd.imp_right fun hbegin => Heads.begin_union.mpr (.inr hbegin)
    exact matches_seq_iff.mpr
      ⟨m, ts, us, ihfirst hgoal.1 hm hc, ihsecond hgoal.2 hd (Cursor.skip_skip m), rfl⟩
  | left _ ih =>
    intro hc
    simp only [goalIsPredictive, isPredictive, Bool.and_eq_true] at hgoal
    exact matches_choice_iff.mpr (.inl (ih hgoal.1.1.1 hd hc))
  | right _ ih =>
    intro hc
    simp only [goalIsPredictive, isPredictive, Bool.and_eq_true] at hgoal
    obtain ⟨⟨⟨-, hsecond⟩, hmodest⟩, hclear⟩ := hgoal
    have hmatches := ih hsecond hd hc
    exact matches_choice_iff.mpr (.inr ⟨fails_of_isClear hmodest hclear hc hmatches hd, hmatches⟩)
  | present _ ih =>
    intro hc
    simp only [goalIsPredictive, isPredictive, Bool.and_eq_true] at hgoal
    exact matches_optional_iff.mpr (.inl (ih hgoal.1.1.1 hd hc))
  | absent =>
    intro hc
    simp only [goalIsPredictive, isPredictive, Bool.and_eq_true, Bool.not_eq_true'] at hgoal
    have hfails := hd.fails hgoal.1.1.2 hgoal.1.2 hgoal.2
    rw [hc] at hfails
    exact matches_optional_iff.mpr (.inr ⟨hfails, rfl, rfl⟩)
  | none =>
    intro hc
    simp only [goalIsPredictive, isPredictive, Bool.and_eq_true, Bool.not_eq_true'] at hgoal
    have hfails := hd.fails hgoal.1.1.2 hgoal.1.2 hgoal.2
    rw [hc] at hfails
    exact matches_many_iff.mpr (.inr ⟨hfails, rfl, rfl⟩)
  | @some e c m d ts us hfirst hmore ihfirst ihmore =>
    intro hc
    have hmany := ihmore hgoal hd
    simp only [goalIsPredictive, isPredictive, Bool.and_eq_true, Bool.not_eq_true'] at hgoal
    have hm := Reads.follows hmore hgoal.1.2 hd
    exact matches_many_iff.mpr (.inl ⟨m, ts, us, ihfirst hgoal.1.1.1 hm hc, hmany, rfl⟩)
  | stop =>
    simp only [goalIsPredictive, isPredictive, Bool.and_eq_true, Bool.not_eq_true'] at hgoal
    exact repeats_iff.mpr (.inr ⟨hd.fails hgoal.1.1.2 hgoal.1.2 hgoal.2, rfl, rfl⟩)
  | @again e c m d ts us hfirst hmore ihfirst ihmore =>
    have hmany := ihmore hgoal hd
    simp only [goalIsPredictive, isPredictive, Bool.and_eq_true, Bool.not_eq_true'] at hgoal
    have hm := Reads.follows hmore hgoal.1.2 hd
    exact repeats_iff.mpr (.inl
      ⟨m, ts, us, ihfirst hgoal.1.1.1 hm (Cursor.skip_skip c), hmany, rfl⟩)

end Grammar
end Sdl
end EntitySdl
