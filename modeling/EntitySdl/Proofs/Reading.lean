import EntitySdl.Proofs.Fuel
import EntitySdl.Sdl.Grammar

/-! # Derivations of documents

In the grammar of documents, names, type references, numbers, strings, values of
enumerations and a few words are lexemes, and all other rules allow blanks and
comments between their parts.  A reading is a derivation down to lexemes.  The grammar
needs little fuel, so that each of its expressions matches or fails.
-/
namespace EntitySdl
namespace Sdl

namespace Rule

theorem mem_all (r : Rule) : r ∈ all := by
  cases r <;> decide

/-- What holds of all rules is checked one by one. -/
theorem forall_iff {p : Rule → Prop} : (∀ r, p r) ↔ ∀ r ∈ all, p r :=
  ⟨fun h r _ => h r, fun h r => h r (mem_all r)⟩

/-- Whether nothing may stand between the parts of a rule. -/
def isLexeme : Rule → Bool
  | typeRef | number | string | blockStringContent | stringContent | enumValue
  | directiveLocation | operationType | name => true
  | _ => false

end Rule

namespace Grammar

open Rule

@[simp] theorem sdl_body (r : Rule) : (sdl r).body = body r := by
  cases r <;> rfl

theorem sdl_modeIn {r : Rule} (h : r.isLexeme = false) (outer : Mode) :
    (sdl r).modeIn outer = outer := by
  cases r <;> first | rfl | cases h

theorem sdl_node_spaced (r : Rule) (c d : Cursor) (ts : List (Tree Rule)) :
    (sdl r).node r .spaced c d ts = [.node r c.offset (c.textTo d) ts] := by
  cases r <;> rfl

/-- A derivation down to lexemes. -/
abbrev Reads (goal : Goal Rule) (c d : Cursor) (ts : List (Tree Rule)) : Prop :=
  sdl.Derives isLexeme .spaced goal c d ts

theorem Reads.rule {r : Rule} {c d : Cursor} {ts : List (Tree Rule)} (hr : r.isLexeme = false)
    (h : Reads (.one (body r)) c d ts) :
    Reads (.one (.rule r)) c d [.node r c.offset (c.textTo d) ts] := by
  have hrule := @Derives.rule _ sdl _ .spaced _ _ _ _ hr (by
    rw [sdl_modeIn hr, sdl_body]
    exact h)
  rwa [sdl_node_spaced r c d ts] at hrule

/-- A first part that leaves no nodes adds none. -/
theorem Reads.seq_nil {first second : Peg Rule} {c m d : Cursor} {ts : List (Tree Rule)}
    (hfirst : Reads (.one first) c m []) (hsecond : Reads (.one second) (m.skip .spaced) d ts) :
    Reads (.one (.seq first second)) c d ts := hfirst.seq hsecond

/-- The cases of a reading. -/
@[elab_as_elim]
theorem Reads.induct {motive : ∀ goal c d ts, Reads goal c d ts → Prop}
    (text : ∀ {chars c d} (hrest : c.rest = chars ++ d.rest)
      (hoffset : d.offset = c.offset + chars.length),
        motive (.one (.text chars)) c d [] (.text hrest hoffset))
    (charWhere : ∀ {accepts c d x} (hx : accepts x) (hrest : c.rest = x :: d.rest)
      (hoffset : d.offset = c.offset + 1),
        motive (.one (.charWhere accepts)) c d [] (.charWhere hx hrest hoffset))
    (finish : ∀ {c} (hrest : c.rest = []), motive (.one .finish) c c [] (.finish hrest))
    (lexeme : ∀ {r c d ts} (hr : r.isLexeme) (h : sdl.Matches .spaced (.rule r) c d ts),
      motive (.one (.rule r)) c d ts (.token hr h))
    (rule : ∀ {r c d ts} (hr : r.isLexeme = false) (h : Reads (.one (body r)) c d ts),
      motive (.one (body r)) c d ts h →
        motive (.one (.rule r)) c d [.node r c.offset (c.textTo d) ts] (.rule hr h))
    (seq : ∀ {first second c m d ts us} (hfirst : Reads (.one first) c m ts)
      (hsecond : Reads (.one second) (m.skip .spaced) d us), motive _ _ _ _ hfirst →
        motive _ _ _ _ hsecond → motive (.one (.seq first second)) c d (ts ++ us)
          (.seq hfirst hsecond))
    (left : ∀ {first second c d ts} (h : Reads (.one first) c d ts), motive _ _ _ _ h →
      motive (.one (.choice first second)) c d ts (.left h))
    (right : ∀ {first second c d ts} (h : Reads (.one second) c d ts), motive _ _ _ _ h →
      motive (.one (.choice first second)) c d ts (.right h))
    (present : ∀ {e c d ts} (h : Reads (.one e) c d ts), motive _ _ _ _ h →
      motive (.one (.optional e)) c d ts (.present h))
    (absent : ∀ {e c}, motive (.one (.optional e)) c c [] .absent)
    (none : ∀ {e c}, motive (.one (.many e)) c c [] .none)
    (some : ∀ {e c m d ts us} (hfirst : Reads (.one e) c m ts) (hmore : Reads (.more e) m d us),
      motive _ _ _ _ hfirst → motive _ _ _ _ hmore →
        motive (.one (.many e)) c d (ts ++ us) (.some hfirst hmore))
    (stop : ∀ {e c}, motive (.more e) c c [] .stop)
    (again : ∀ {e c m d ts us} (hfirst : Reads (.one e) (c.skip .spaced) m ts)
      (hmore : Reads (.more e) m d us), motive _ _ _ _ hfirst → motive _ _ _ _ hmore →
        motive (.more e) c d (ts ++ us) (.again hfirst hmore))
    (never : ∀ {e c}, motive (.one (.never e)) c c [] .never)
    {goal : Goal Rule} {c d : Cursor} {ts : List (Tree Rule)} (h : Reads goal c d ts) :
    motive goal c d ts h := by
  have hall : ∀ mode goal c d ts, sdl.Derives Rule.isLexeme mode goal c d ts → mode = .spaced →
      ∀ h : Reads goal c d ts, motive goal c d ts h := by
    clear h
    intro mode goal c d ts h
    induction h with
    | text hrest hoffset => exact fun _ _ => text hrest hoffset
    | charWhere hx hrest hoffset => exact fun _ _ => charWhere hx hrest hoffset
    | finish hrest => exact fun _ _ => finish hrest
    | token htoken h =>
      rintro rfl _
      exact lexeme htoken h
    | @rule mode r c d ts htoken h ih =>
      rintro rfl
      rw [sdl_modeIn htoken, sdl_body] at h ih
      rw [sdl_node_spaced r c d ts]
      exact fun _ => rule htoken h (ih rfl h)
    | seq hfirst hsecond ihfirst ihsecond =>
      rintro rfl _
      exact seq hfirst hsecond (ihfirst rfl hfirst) (ihsecond rfl hsecond)
    | left h ih =>
      rintro rfl _
      exact left h (ih rfl h)
    | right h ih =>
      rintro rfl _
      exact right h (ih rfl h)
    | present h ih =>
      rintro rfl _
      exact present h (ih rfl h)
    | absent => exact fun _ _ => absent
    | none => exact fun _ _ => none
    | some hfirst hmore ihfirst ihmore =>
      rintro rfl _
      exact some hfirst hmore (ihfirst rfl hfirst) (ihmore rfl hmore)
    | stop => exact fun _ _ => stop
    | again hfirst hmore ihfirst ihmore =>
      rintro rfl _
      exact again hfirst hmore (ihfirst rfl hfirst) (ihmore rfl hmore)
    | never => exact fun _ _ => never
  exact hall .spaced goal c d ts h rfl h

/-- A rule that is no lexeme is read as its expression. -/
theorem reads_rule_iff {r : Rule} (hr : r.isLexeme = false) {c d : Cursor}
    {ts : List (Tree Rule)} : Reads (.one (.rule r)) c d ts ↔
      ∃ us, Reads (.one (body r)) c d us ∧ ts = [.node r c.offset (c.textTo d) us] := by
  constructor
  · rintro (_ | _ | _ | ⟨htoken, -⟩ | ⟨-, h⟩)
    · rw [hr] at htoken
      cases htoken
    · rw [sdl_modeIn hr, sdl_body] at h
      refine ⟨_, h, ?_⟩
      exact sdl_node_spaced r c d _
  · rintro ⟨us, h, rfl⟩
    exact Reads.rule hr h

section Parts

variable {e first second : Peg Rule} {c d : Cursor} {ts : List (Tree Rule)}

theorem reads_text_iff {chars : List Char} : Reads (.one (.text chars)) c d ts ↔
    c.rest = chars ++ d.rest ∧ d.offset = c.offset + chars.length ∧ ts = [] := by
  constructor
  · rintro (⟨hrest, hoffset⟩ | _)
    exact ⟨hrest, hoffset, rfl⟩
  · rintro ⟨hrest, hoffset, rfl⟩
    exact .text hrest hoffset

theorem reads_finish_iff : Reads (.one .finish) c d ts ↔ c.rest = [] ∧ d = c ∧ ts = [] := by
  constructor
  · intro h
    cases h with
    | finish hrest => exact ⟨hrest, rfl, rfl⟩
  · rintro ⟨hrest, rfl, rfl⟩
    exact .finish hrest

theorem reads_seq_iff : Reads (.one (.seq first second)) c d ts ↔
    ∃ m us vs, Reads (.one first) c m us ∧ Reads (.one second) (m.skip .spaced) d vs ∧
      ts = us ++ vs := by
  constructor
  · intro h
    cases h with
    | seq hfirst hsecond => exact ⟨_, _, _, hfirst, hsecond, rfl⟩
  · rintro ⟨m, us, vs, hfirst, hsecond, rfl⟩
    exact .seq hfirst hsecond

theorem reads_choice_iff : Reads (.one (.choice first second)) c d ts ↔
    Reads (.one first) c d ts ∨ Reads (.one second) c d ts := by
  constructor
  · intro h
    cases h with
    | left h => exact .inl h
    | right h => exact .inr h
  · rintro (h | h)
    · exact .left h
    · exact .right h

theorem reads_many_iff : Reads (.one (.many e)) c d ts ↔
    (∃ m us vs, Reads (.one e) c m us ∧ Reads (.more e) m d vs ∧ ts = us ++ vs) ∨
      (d = c ∧ ts = []) := by
  constructor
  · intro h
    cases h with
    | none => exact .inr ⟨rfl, rfl⟩
    | some hfirst hmore => exact .inl ⟨_, _, _, hfirst, hmore, rfl⟩
  · rintro (⟨m, us, vs, hfirst, hmore, rfl⟩ | ⟨rfl, rfl⟩)
    · exact .some hfirst hmore
    · exact .none

theorem reads_more_iff : Reads (.more e) c d ts ↔
    (∃ m us vs, Reads (.one e) (c.skip .spaced) m us ∧ Reads (.more e) m d vs ∧
      ts = us ++ vs) ∨ (d = c ∧ ts = []) := by
  constructor
  · intro h
    cases h with
    | stop => exact .inr ⟨rfl, rfl⟩
    | again hfirst hmore => exact .inl ⟨_, _, _, hfirst, hmore, rfl⟩
  · rintro (⟨m, us, vs, hfirst, hmore, rfl⟩ | ⟨rfl, rfl⟩)
    · exact .again hfirst hmore
    · exact .stop

/-- A place at which a goal is tried: for an expression, blanks and comments have been
passed over. -/
def Starts : Goal Rule → Cursor → Prop
  | .one _, c => c.skip .spaced = c
  | .more _, _ => True

/-- Further repetitions are read from behind the blanks and comments too. -/
theorem reads_at_skip {goal : Goal Rule} (h : Reads goal c d ts) (hc : Starts goal c) :
    ∃ d', Reads goal (c.skip .spaced) d' ts ∧ d'.skip .spaced = d.skip .spaced := by
  cases goal with
  | one e =>
    rw [show c.skip .spaced = c from hc]
    exact ⟨d, h, rfl⟩
  | more e =>
    rcases reads_more_iff.mp h with ⟨m, us, vs, hfirst, hmore, rfl⟩ | ⟨rfl, rfl⟩
    · refine ⟨d, .again ?_ hmore, rfl⟩
      rwa [Cursor.skip_skip]
    · exact ⟨_, .stop, Cursor.skip_skip _⟩

end Parts

/-- The rules that may match the empty text. -/
def mayBeEmptyRule : Rule → Bool
  | .finish | .repeatable | .blockStringContent | .stringContent => true
  | _ => false

/-- What a rule needs before the first character, through so many levels of
rules. -/
def weightTo : Nat → Rule → Nat
  | 0, _ => 0
  | levels + 1, r => need mayBeEmptyRule (weightTo levels) (body r)

/-- Whether an expression of documents takes a bounded amount of fuel. -/
def isModest (e : Peg Rule) : Bool := isBounded mayBeEmptyRule (weightTo 5) 1024 e

theorem sdl_bounded : Bounded mayBeEmptyRule (weightTo 5) sdl 1024 where
  pos := by decide
  empties := Rule.forall_iff.mpr (by decide +kernel)
  weights := Rule.forall_iff.mpr (by decide +kernel)
  parts := Rule.forall_iff.mpr (by decide +kernel)

end Grammar
end Sdl
end EntitySdl
