import EntitySdl.Proofs.Blocks
import EntitySdl.Proofs.CamelCase
import EntitySdl.Sdl.TypeRef

/-! # Type references

The text of a type reference is matched as one wherever a character stands behind it
that cannot belong to it, and nothing else is matched.
-/
namespace EntitySdl
namespace Sdl

open Name Text Grammar Cursor Peg

/-- What holds of the ASCII characters of names holds of all characters of
names. -/
theorem forall_isNamePart {test : Char → Bool}
    (h : ∀ n < 128, isNamePart (Char.ofNat n) → test (Char.ofNat n)) {c : Char}
    (hc : isNamePart c) : test c := by
  have hbound : c.toNat < 128 := by
    simp only [isNamePart, isNameStart, isAsciiLetter, isAsciiDigit, Bool.or_eq_true, beq_iff_eq,
      decide_eq_true_eq, Char.le_def, UInt32.le_iff_toNat_le] at hc
    change (c = '_' ∨ _ ≤ c.toNat ∧ c.toNat ≤ 122 ∨ _ ≤ c.toNat ∧ c.toNat ≤ 90) ∨
      _ ≤ c.toNat ∧ c.toNat ≤ 57 at hc
    rcases hc with (rfl | hc | hc) | hc
    · decide
    all_goals omega
  have := h c.toNat hbound
  rw [Char.ofNat_toNat] at this
  exact this hc

theorem not_isBlank_of_isNamePart {c : Char} (hc : isNamePart c) : isBlank c = false := by
  have := @forall_isNamePart (fun c => !isBlank c) (by decide) _ hc
  simpa using this

namespace TypeRef

/-- All names in a type reference are identifiers. -/
def IsNamed : TypeRef → Prop
  | .named name _ => isIdentifier name
  | .list member _ => member.IsNamed

/-- Whether a character may stand in a type reference. -/
def isTypeCharacter (c : Char) : Bool := isNamePart c || ['[', ']', '!'].contains c

theorem not_isBlank_of_isTypeCharacter {c : Char} (hc : isTypeCharacter c) : isBlank c = false := by
  rw [isTypeCharacter, Bool.or_eq_true] at hc
  rcases hc with hc | hc
  · exact not_isBlank_of_isNamePart hc
  · exact (by decide : ∀ c ∈ ['[', ']', '!'], isBlank c = false) c (List.contains_iff_mem.mp hc)

theorem mark_isTypeCharacter (required : Bool) :
    ∀ c ∈ (mark required).toList, isTypeCharacter c := by
  cases required <;> decide

theorem text_isTypeCharacter {type : TypeRef} (h : type.IsNamed) :
    ∀ c ∈ type.text.toList, isTypeCharacter c := by
  induction type with
  | named name required =>
    simp only [text, String.toList_append, List.forall_mem_append]
    refine ⟨fun c hc => ?_, mark_isTypeCharacter required⟩
    rw [isTypeCharacter, isNamePart_of_mem h c hc, Bool.true_or]
  | list member required ih =>
    simp only [text, String.toList_append, List.forall_mem_append]
    exact ⟨⟨⟨by decide, ih h⟩, by decide⟩, mark_isTypeCharacter required⟩

theorem isSolid_text {type : TypeRef} (h : type.IsNamed) : IsSolid type.text.toList := by
  cases type with
  | named name required =>
    rw [text, String.toList_append]
    exact (isSolid_name h).append _
  | list member required =>
    simp only [text, String.toList_append]
    exact ⟨'[', _, rfl, rfl⟩

/-- Whether a character may stand behind every type reference. -/
def endsType (c : Char) : Bool := !isNamePart c && c != '!'

/-- Whether a character may stand behind a type reference: it is no part of it. -/
def mayStandBehind : TypeRef → Char → Bool
  | named _ false, c => endsType c
  | list _ false, c => c != '!'
  | named _ true, _ | list _ true, _ => true

theorem mayStandBehind_of_endsType (type : TypeRef) {c : Char} (hc : endsType c) :
    type.mayStandBehind c := by
  cases type with
  | named _ required => cases required <;> simp [mayStandBehind, hc]
  | list _ required =>
    rw [endsType, Bool.and_eq_true] at hc
    cases required <;> simp [mayStandBehind, hc.2]

theorem matches_mark (required : Bool) {behind : List Char}
    (hbehind : required = false → ∀ x, behind.head? = some x → x ≠ '!') (offset : Nat) :
    sdl.Matches .token (.optional (word "!")) ⟨offset, (mark required).toList ++ behind⟩
      ⟨offset + (mark required).toList.length, behind⟩ [] := by
  cases required with
  | true => exact matches_optional_iff.mpr (.inl (matches_text_iff.mpr ⟨rfl, rfl, rfl⟩))
  | false =>
    refine matches_optional_iff.mpr (.inr ⟨fails_text_iff.mpr ?_, rfl, rfl⟩)
    rintro ⟨rest, hrest⟩
    change ['!'] ++ rest = behind at hrest
    exact hbehind rfl '!' (by rw [← hrest]; rfl) rfl

theorem exists_mark {c d : Cursor} {ts : List (Tree Rule)}
    (h : sdl.Matches .token (.optional (word "!")) c d ts) :
    ∃ required, c.rest = (mark required).toList ++ d.rest ∧ ts = [] ∧
      (required = false → ∀ x, d.rest.head? = some x → x ≠ '!') := by
  rcases matches_optional_iff.mp h with h | ⟨hfails, rfl, rfl⟩
  · obtain ⟨hrest, -, rfl⟩ := matches_text_iff.mp h
    exact ⟨true, hrest, rfl, by simp⟩
  · refine ⟨false, rfl, rfl, fun _ x hx => ?_⟩
    rintro rfl
    refine fails_text_iff.mp hfails ?_
    cases hrest : d.rest with
    | nil => simp [hrest] at hx
    | cons y rest =>
      rw [hrest] at hx
      cases hx
      exact ⟨rest, rfl⟩

/-- The text of a type reference is matched up to its end. -/
theorem matches_body {type : TypeRef} (h : type.IsNamed) {behind : List Char}
    (hbehind : ∀ x, behind.head? = some x → type.mayStandBehind x) (offset : Nat) :
    sdl.Matches .token (body .typeRef) ⟨offset, type.text.toList ++ behind⟩
      ⟨offset + type.text.toList.length, behind⟩ [] := by
  induction type generalizing behind offset with
  | named name required =>
    have hend : ∀ x, ((mark required).toList ++ behind).head? = some x → isNamePart x = false := by
      intro x hx
      cases required with
      | true =>
        cases hx
        decide
      | false =>
        have := hbehind x hx
        simp only [mayStandBehind, endsType, Bool.and_eq_true, Bool.not_eq_true'] at this
        exact this.1
    have hname := (@matches_name_iff .token
      ⟨offset, name.toList ++ ((mark required).toList ++ behind)⟩
      ⟨offset + name.toList.length, (mark required).toList ++ behind⟩ _).mpr
        ⟨name.toList, h, rfl, rfl, hend, rfl⟩
    have hmark := @matches_mark required behind (by
      rintro rfl x hx
      have := hbehind x hx
      simp only [mayStandBehind, endsType, Bool.and_eq_true, bne_iff_ne] at this
      exact this.2) (offset + name.toList.length)
    simp only [text, String.toList_append, List.append_assoc, List.length_append, ← Nat.add_assoc]
    exact matches_seq_iff.mpr ⟨_, _, _, matches_choice_iff.mpr (.inl hname), hmark, rfl⟩
  | list member required ih =>
    have hopen : sdl.Fails .token (.rule .name)
        ⟨offset, '[' :: (member.text.toList ++ (']' :: ((mark required).toList ++ behind)))⟩ := by
      refine fails_rule_iff.mpr (fails_seq_iff.mpr (.inl (fails_charWhere_iff.mpr ?_)))
      rintro x ⟨⟩
      decide
    have hmember := @ih h (']' :: ((mark required).toList ++ behind)) (by
      rintro x ⟨⟩
      exact mayStandBehind_of_endsType member (by decide)) (offset + 1)
    have hrule : sdl.Matches .token (.rule .typeRef) _ _ [] :=
      matches_rule_iff.mpr ⟨[], hmember, rfl⟩
    have hclose : sdl.Matches .token (word "]")
        ⟨offset + 1 + member.text.toList.length, ']' :: ((mark required).toList ++ behind)⟩
        ⟨offset + 1 + member.text.toList.length + 1, (mark required).toList ++ behind⟩ [] :=
      matches_text_iff.mpr ⟨rfl, rfl, rfl⟩
    have hmark := @matches_mark required behind (by
      rintro rfl x hx
      have := hbehind x hx
      simpa [mayStandBehind] using this) (offset + 1 + member.text.toList.length + 1)
    have hbetween : sdl.Matches .token (between "[" "]" (.rule .typeRef))
        ⟨offset, '[' :: (member.text.toList ++ (']' :: ((mark required).toList ++ behind)))⟩ _ _ :=
      matches_seq_iff.mpr ⟨_, _, _, matches_text_iff.mpr ⟨rfl, rfl, rfl⟩,
        matches_seq_iff.mpr ⟨_, _, _, hrule, hclose, rfl⟩, rfl⟩
    have hall : sdl.Matches .token (body .typeRef) _ _ _ := matches_seq_iff.mpr
      ⟨_, _, _, matches_choice_iff.mpr (.inr ⟨hopen, hbetween⟩), hmark, rfl⟩
    have hoffset : offset + 1 + member.text.toList.length + 1 + (mark required).toList.length =
        offset + (TypeRef.list member required).text.toList.length := by
      simp only [text, String.toList_append, List.length_append]
      simp
      omega
    rw [hoffset] at hall
    simpa [text, String.toList_append] using hall

/-- What is matched as a type reference is the text of one. -/
theorem exists_of_matches {c d : Cursor} {ts : List (Tree Rule)}
    (h : sdl.Matches .token (body .typeRef) c d ts) :
    ∃ type : TypeRef, type.IsNamed ∧ c.rest = type.text.toList ++ d.rest ∧ ts = [] ∧
      ∀ x, d.rest.head? = some x → type.mayStandBehind x := by
  induction hlength : c.rest.length using Nat.strong_induction_on generalizing c d ts with
  | _ n ih =>
    subst hlength
    obtain ⟨m, us, vs, hinner, hmark, rfl⟩ := matches_seq_iff.mp h
    obtain ⟨required, hm, rfl, hend⟩ := exists_mark hmark
    change m.rest = _ at hm
    rcases matches_choice_iff.mp hinner with hname | ⟨-, hlist⟩
    · obtain ⟨name, hname, hrest, -, hpart, rfl⟩ := matches_name_iff.mp hname
      refine ⟨.named (String.ofList name) required, ?_, ?_, rfl, fun x hx => ?_⟩
      · rwa [IsNamed, isIdentifier, String.toList_ofList]
      · rw [hrest, hm, text, String.toList_append, String.toList_ofList, List.append_assoc]
      · cases required with
        | true => rfl
        | false =>
          have hx' : m.rest.head? = some x := by rw [hm]; exact hx
          simp [mayStandBehind, endsType, hpart x hx', hend rfl x hx]
    · obtain ⟨o, _, _, hopen, hrest, rfl⟩ := matches_seq_iff.mp hlist
      obtain ⟨e, ws, _, hmember, hclose, rfl⟩ := matches_seq_iff.mp hrest
      obtain ⟨ho, -, rfl⟩ := matches_text_iff.mp hopen
      obtain ⟨he, -, rfl⟩ := matches_text_iff.mp hclose
      obtain ⟨xs, hbody, rfl⟩ := matches_rule_iff.mp hmember
      change e.rest = _ at he
      have hshorter : (o.skip .token).rest.length < c.rest.length := by
        change o.rest.length < _
        rw [ho]
        simp
      obtain ⟨member, hnamed, hbetween, rfl, -⟩ := ih _ hshorter hbody rfl
      change o.rest = _ at hbetween
      refine ⟨.list member required, hnamed, ?_, rfl, fun x hx => ?_⟩
      · rw [ho, hbetween, he, hm]
        simp [text, String.toList_append]
      · cases required with
        | true => rfl
        | false => simpa [mayStandBehind] using hend rfl x hx

theorem spells_text {type : TypeRef} (h : type.IsNamed) {behind : List Char}
    (hbehind : ∀ x, behind.head? = some x → endsType x) :
    Spells (.rule .typeRef) type.text.toList behind := fun offset =>
  ⟨_, _, .token rfl (matches_rule_iff.mpr ⟨[], matches_body h
    (fun x hx => mayStandBehind_of_endsType type (hbehind x hx)) offset, rfl⟩), rfl, rfl⟩

end TypeRef

end Sdl
end EntitySdl
