import EntitySdl.Proofs.Ignored
import EntitySdl.Proofs.Matching

/-! # Derivations

A derivation reads a grammar as rules for writing texts: every branch of a choice
may be taken, a repetition may end anywhere, and a lookahead asks for nothing.
Some rules may be set apart as tokens, which are matched as they stand.  Each
match is a derivation.
-/
namespace EntitySdl
namespace Sdl

variable {ρ : Type}

/-- What is derived: an expression, or further repetitions of one. -/
inductive Goal (ρ : Type) where
  /-- An expression. -/
  | one (e : Peg ρ)
  /-- Repetitions of an expression behind a match of it. -/
  | more (e : Peg ρ)

namespace Grammar

/-- Derivations between two places, with the nodes in them. -/
inductive Derives (g : Grammar ρ) (isToken : ρ → Bool) :
    Mode → Goal ρ → Cursor → Cursor → List (Tree ρ) → Prop where
  /-- A fixed text is there. -/
  | text {mode chars c d} (hrest : c.rest = chars ++ d.rest)
      (hoffset : d.offset = c.offset + chars.length) :
      Derives g isToken mode (.one (.text chars)) c d []
  /-- A character passes the test. -/
  | charWhere {mode accepts c d x} (hx : accepts x) (hrest : c.rest = x :: d.rest)
      (hoffset : d.offset = c.offset + 1) :
      Derives g isToken mode (.one (.charWhere accepts)) c d []
  /-- The input ends. -/
  | finish {mode c} (hrest : c.rest = []) : Derives g isToken mode (.one .finish) c c []
  /-- A token matches. -/
  | token {mode name c d ts} (htoken : isToken name) (h : g.Matches mode (.rule name) c d ts) :
      Derives g isToken mode (.one (.rule name)) c d ts
  /-- The expression of a rule is derived. -/
  | rule {mode name c d ts} (htoken : isToken name = false)
      (h : Derives g isToken ((g name).modeIn mode) (.one (g name).body) c d ts) :
      Derives g isToken mode (.one (.rule name)) c d ((g name).node name mode c d ts)
  /-- Both parts are derived. -/
  | seq {mode first second c m d ts us} (hfirst : Derives g isToken mode (.one first) c m ts)
      (hsecond : Derives g isToken mode (.one second) (m.skip mode) d us) :
      Derives g isToken mode (.one (.seq first second)) c d (ts ++ us)
  /-- The first branch is derived. -/
  | left {mode first second c d ts} (h : Derives g isToken mode (.one first) c d ts) :
      Derives g isToken mode (.one (.choice first second)) c d ts
  /-- The second branch is derived. -/
  | right {mode first second c d ts} (h : Derives g isToken mode (.one second) c d ts) :
      Derives g isToken mode (.one (.choice first second)) c d ts
  /-- What is optional is there. -/
  | present {mode e c d ts} (h : Derives g isToken mode (.one e) c d ts) :
      Derives g isToken mode (.one (.optional e)) c d ts
  /-- What is optional is not there. -/
  | absent {mode e c} : Derives g isToken mode (.one (.optional e)) c c []
  /-- There is no repetition. -/
  | none {mode e c} : Derives g isToken mode (.one (.many e)) c c []
  /-- There is a repetition. -/
  | some {mode e c m d ts us} (hfirst : Derives g isToken mode (.one e) c m ts)
      (hmore : Derives g isToken mode (.more e) m d us) :
      Derives g isToken mode (.one (.many e)) c d (ts ++ us)
  /-- There are no further repetitions. -/
  | stop {mode e c} : Derives g isToken mode (.more e) c c []
  /-- There is a further repetition. -/
  | again {mode e c m d ts us} (hfirst : Derives g isToken mode (.one e) (c.skip mode) m ts)
      (hmore : Derives g isToken mode (.more e) m d us) :
      Derives g isToken mode (.more e) c d (ts ++ us)
  /-- A lookahead takes nothing. -/
  | never {mode e c} : Derives g isToken mode (.one (.never e)) c c []

variable {g : Grammar ρ} {isToken : ρ → Bool} {mode : Mode}

section Run

variable {fuel : Nat} {c d : Cursor} {ts : List (Tree ρ)}

/-- The runs with some fuel are derivations. -/
structure RunsDerive (g : Grammar ρ) (isToken : ρ → Bool) (fuel : Nat) : Prop where
  /-- A run of an expression is one. -/
  one : ∀ {mode e c d ts}, g.run fuel mode e c = .matched d ts →
    g.Derives isToken mode (.one e) c d ts
  /-- So are further repetitions. -/
  more : ∀ {mode e c d ts}, g.repeatFrom fuel mode e c [] = .matched d ts →
    g.Derives isToken mode (.more e) c d ts

theorem RunsDerive.rule (hruns : RunsDerive g isToken fuel) {name : ρ}
    (h : g.run (fuel + 1) mode (.rule name) c = .matched d ts) :
    g.Derives isToken mode (.one (.rule name)) c d ts := by
  -- a token is matched as a whole, any other rule through its body
  by_cases htoken : isToken name
  · exact .token htoken ⟨_, h⟩
  · rw [run] at h
    cases hbody : g.run fuel ((g name).modeIn mode) (g name).body c with
    | matched m us =>
      simp only [hbody, Outcome.matched.injEq] at h
      obtain ⟨rfl, rfl⟩ := h
      exact .rule (by simpa using htoken) (hruns.one hbody)
    | failed => simp [hbody] at h
    | exhausted => simp [hbody] at h

theorem RunsDerive.seq (hruns : RunsDerive g isToken fuel) {first second : Peg ρ}
    (h : g.run (fuel + 1) mode (.seq first second) c = .matched d ts) :
    g.Derives isToken mode (.one (.seq first second)) c d ts := by
  rw [run] at h
  cases hfirst : g.run fuel mode first c with
  | matched m us =>
    simp only [hfirst] at h
    cases hsecond : g.run fuel mode second (m.skip mode) with
    | matched m' vs =>
      simp only [hsecond, Outcome.matched.injEq] at h
      obtain ⟨rfl, rfl⟩ := h
      exact .seq (hruns.one hfirst) (hruns.one hsecond)
    | failed => simp [hsecond] at h
    | exhausted => simp [hsecond] at h
  | failed => simp [hfirst] at h
  | exhausted => simp [hfirst] at h

theorem RunsDerive.repeats (hruns : RunsDerive g isToken fuel) {e : Peg ρ}
    (h : g.repeatFrom (fuel + 1) mode e c [] = .matched d ts) :
    g.Derives isToken mode (.more e) c d ts := by
  rw [repeatFrom] at h
  cases he : g.run fuel mode e (c.skip mode) with
  | matched m us =>
    simp only [he] at h
    obtain ⟨vs, hrest, rfl⟩ := repeatFrom_nil_of_matched h
    exact .again (hruns.one he) (hruns.more hrest)
  | failed =>
    simp only [he, Outcome.matched.injEq] at h
    obtain ⟨rfl, rfl⟩ := h
    exact .stop
  | exhausted => simp [he] at h

/-- One more unit of fuel is one more step of a derivation. -/
theorem RunsDerive.succ (hruns : RunsDerive g isToken fuel) :
    RunsDerive g isToken (fuel + 1) := by
  refine ⟨fun {mode e c d ts} h => ?_, hruns.repeats⟩
  cases e with
  | text chars =>
    obtain ⟨hrest, hoffset, rfl⟩ := matches_text_iff.mp ⟨_, h⟩
    exact .text hrest hoffset
  | charWhere accepts =>
    obtain ⟨x, hx, hrest, hoffset, rfl⟩ := matches_charWhere_iff.mp ⟨_, h⟩
    exact .charWhere hx hrest hoffset
  | finish =>
    obtain ⟨hrest, rfl, rfl⟩ := matches_finish_iff.mp ⟨_, h⟩
    exact .finish hrest
  | rule name => exact hruns.rule h
  | seq first second => exact hruns.seq h
  | choice first second =>
    rw [run] at h
    cases hfirst : g.run fuel mode first c with
    | matched m us =>
      simp only [hfirst] at h
      exact .left (hruns.one (hfirst.trans h))
    | failed =>
      simp only [hfirst] at h
      exact .right (hruns.one h)
    | exhausted => simp [hfirst] at h
  | optional e =>
    rw [run] at h
    cases he : g.run fuel mode e c with
    | matched m us =>
      simp only [he] at h
      exact .present (hruns.one (he.trans h))
    | failed =>
      simp only [he, Outcome.matched.injEq] at h
      obtain ⟨rfl, rfl⟩ := h
      exact .absent
    | exhausted => simp [he] at h
  | many e =>
    rw [run] at h
    cases he : g.run fuel mode e c with
    | matched m us =>
      simp only [he] at h
      obtain ⟨vs, hrest, rfl⟩ := repeatFrom_nil_of_matched h
      exact .some (hruns.one he) (hruns.more hrest)
    | failed =>
      simp only [he, Outcome.matched.injEq] at h
      obtain ⟨rfl, rfl⟩ := h
      exact .none
    | exhausted => simp [he] at h
  | never e =>
    obtain ⟨-, rfl, rfl⟩ := matches_never_iff.mp ⟨_, h⟩
    exact .never

/-- Every match is a derivation. -/
theorem runsDerive (g : Grammar ρ) (isToken : ρ → Bool) (fuel : Nat) :
    RunsDerive g isToken fuel := by
  induction fuel with
  | zero => constructor <;> simp [run, repeatFrom]
  | succ fuel ih => exact ih.succ

end Run

theorem Matches.derives {e : Peg ρ} {c d : Cursor} {ts : List (Tree ρ)}
    (h : g.Matches mode e c d ts) : g.Derives isToken mode (.one e) c d ts := by
  obtain ⟨n, h⟩ := h
  exact (runsDerive g isToken n).one h

/-- A derivation goes forward, if the matches of tokens do. -/
theorem Derives.reaches_of_tokens
    (htokens : ∀ {mode name c d ts}, isToken name → g.Matches mode (.rule name) c d ts →
      c.Reaches d) {goal : Goal ρ} {c d : Cursor} {ts : List (Tree ρ)}
    (h : g.Derives isToken mode goal c d ts) : c.Reaches d := by
  induction h with
  | text hrest hoffset => exact ⟨_, hrest, hoffset⟩
  | charWhere hx hrest hoffset => exact ⟨[_], hrest, hoffset⟩
  | token htoken h => exact htokens htoken h
  | rule _ _ ih | left _ ih | right _ ih | present _ ih => exact ih
  | seq _ _ ihfirst ihsecond => exact (ihfirst.trans (Cursor.skip_reaches _ _)).trans ihsecond
  | some _ _ ihfirst ihmore => exact ihfirst.trans ihmore
  | again _ _ ihfirst ihmore => exact ((Cursor.skip_reaches _ _).trans ihfirst).trans ihmore
  | finish | absent | none | stop | never => exact Cursor.Reaches.refl _

theorem Matches.reaches {e : Peg ρ} {c d : Cursor} {ts : List (Tree ρ)}
    (h : g.Matches mode e c d ts) : c.Reaches d :=
  (@Matches.derives _ _ (fun _ => false) _ _ _ _ _ h).reaches_of_tokens (by simp)

theorem Derives.reaches {goal : Goal ρ} {c d : Cursor} {ts : List (Tree ρ)}
    (h : g.Derives isToken mode goal c d ts) : c.Reaches d :=
  h.reaches_of_tokens fun _ => Matches.reaches

section Empty

variable (empty : ρ → Bool)

/-- Whether an expression may match the empty text, given the rules that may. -/
def mayBeEmpty : Peg ρ → Bool
  | .text chars => chars.isEmpty
  | .charWhere _ => false
  | .rule name => empty name
  | .seq first second => mayBeEmpty first && mayBeEmpty second
  | .choice first second => mayBeEmpty first || mayBeEmpty second
  | .finish | .optional _ | .many _ | .never _ => true

variable {empty} (hempty : ∀ name, mayBeEmpty empty (g name).body → empty name)

include hempty

/-- What cannot be empty takes at least one character. -/
theorem Derives.length_lt {goal : Goal ρ} {c d : Cursor} {ts : List (Tree ρ)}
    (h : g.Derives (fun _ => false) mode goal c d ts) (e : Peg ρ) (hgoal : goal = .one e)
    (he : mayBeEmpty empty e = false) : d.rest.length < c.rest.length := by
  induction h generalizing e with
  | text hrest _ =>
    cases hgoal
    rw [hrest, List.length_append]
    have := List.length_pos_iff.mpr (List.isEmpty_eq_false_iff.mp he)
    omega
  | charWhere _ hrest _ =>
    rw [hrest]
    simp
  | token htoken => simp at htoken
  | @rule mode name c d ts _ h ih =>
    cases hgoal
    refine ih _ rfl ?_
    cases hbody : mayBeEmpty empty (g name).body with
    | false => rfl
    | true => exact absurd (hempty name hbody) (by simpa [mayBeEmpty] using he)
  | @seq mode first second c m d ts us hfirst hsecond ihfirst ihsecond =>
    cases hgoal
    have hle := hfirst.reaches.length_le
    have hle' := hsecond.reaches.length_le
    have hskip := (Cursor.skip_reaches m mode).length_le
    simp only [mayBeEmpty, Bool.and_eq_false_iff] at he
    rcases he with he | he
    · have := ihfirst first rfl he
      omega
    · have := ihsecond second rfl he
      omega
  | @left mode first second c d ts _ ih =>
    cases hgoal
    simp only [mayBeEmpty, Bool.or_eq_false_iff] at he
    exact ih first rfl he.1
  | @right mode first second c d ts _ ih =>
    cases hgoal
    simp only [mayBeEmpty, Bool.or_eq_false_iff] at he
    exact ih second rfl he.2
  | finish | present | absent | none | some | never =>
    cases hgoal
    simp [mayBeEmpty] at he
  | stop | again => cases hgoal

theorem Matches.length_lt {e : Peg ρ} {c d : Cursor} {ts : List (Tree ρ)}
    (h : g.Matches mode e c d ts) (he : mayBeEmpty empty e = false) :
    d.rest.length < c.rest.length :=
  h.derives.length_lt hempty e rfl he

end Empty

end Grammar
end Sdl
end EntitySdl
