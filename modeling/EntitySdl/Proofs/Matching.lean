import EntitySdl.Sdl.Peg

/-! # Matching without fuel

An expression matches or fails when some amount of fuel shows it; more fuel does
not change the result.  Both are described here by the parts of the expression,
one lemma for each way of putting expressions together, so that no later proof
speaks of fuel.
-/
namespace EntitySdl
namespace Sdl

variable {ρ : Type}

/-- An outcome with further nodes before its own. -/
def Outcome.prepend (trees : List (Tree ρ)) : Outcome ρ → Outcome ρ
  | .matched cursor more => .matched cursor (trees ++ more)
  | .failed => .failed
  | .exhausted => .exhausted

@[simp] theorem Outcome.prepend_prepend (first second : List (Tree ρ)) (outcome : Outcome ρ) :
    (outcome.prepend second).prepend first = outcome.prepend (first ++ second) := by
  cases outcome <;> simp [Outcome.prepend]

namespace Grammar

section Equations

-- derives the equations of the two functions here, once for all the proofs that rewrite with them
attribute [local simp] run repeatFrom

end Equations

variable (g : Grammar ρ) {mode : Mode}

/-- The nodes found before only stand before those that are found. -/
theorem repeatFrom_eq_prepend (fuel : Nat) (mode : Mode) (e : Peg ρ) (c : Cursor)
    (trees : List (Tree ρ)) :
    g.repeatFrom fuel mode e c trees = (g.repeatFrom fuel mode e c []).prepend trees := by
  induction fuel generalizing c trees with
  | zero => simp [repeatFrom, Outcome.prepend]
  | succ fuel ih =>
    simp only [repeatFrom]
    cases g.run fuel mode e (c.skip mode) with
    | matched next more =>
      simp only
      rw [ih next (trees ++ more), ih next ([] ++ more)]
      simp
    | failed => simp [Outcome.prepend]
    | exhausted => simp [Outcome.prepend]

/-- Nodes that are found behind others are found without them. -/
theorem repeatFrom_nil_of_matched {g : Grammar ρ} {fuel : Nat} {e : Peg ρ} {c d : Cursor}
    {us ts : List (Tree ρ)} (h : g.repeatFrom fuel mode e c us = .matched d ts) :
    ∃ vs, g.repeatFrom fuel mode e c [] = .matched d vs ∧ ts = us ++ vs := by
  rw [repeatFrom_eq_prepend] at h
  cases hrest : g.repeatFrom fuel mode e c [] with
  | matched d' vs =>
    rw [hrest] at h
    cases h
    exact ⟨vs, rfl, rfl⟩
  | failed => rw [hrest] at h; cases h
  | exhausted => rw [hrest] at h; cases h

/-- The second outcome is the first, unless the first had too little fuel. -/
def Settles (less more : Outcome ρ) : Prop := less = .exhausted ∨ more = less

/-- One more unit of fuel changes neither matches nor failures. -/
theorem settles_succ (fuel : Nat) :
    (∀ mode e c, Settles (g.run fuel mode e c) (g.run (fuel + 1) mode e c)) ∧
      ∀ mode e c trees, Settles (g.repeatFrom fuel mode e c trees)
        (g.repeatFrom (fuel + 1) mode e c trees) := by
  induction fuel with
  | zero =>
    exact ⟨fun mode e c => .inl (by rw [run]), fun mode e c trees => .inl (by rw [repeatFrom])⟩
  | succ fuel ih =>
    obtain ⟨ihrun, ihrepeat⟩ := ih
    unfold Settles at ihrun ihrepeat ⊢
    constructor
    · intro mode e c
      cases e with
      | text chars =>
        rw [run, run]
        exact .inr rfl
      | charWhere accepts =>
        rw [run, run]
        exact .inr rfl
      | finish =>
        rw [run, run]
        exact .inr rfl
      | rule name =>
        rw [run, run]
        rcases ihrun ((g name).modeIn mode) (g name).body c with h | h <;> simp [h]
      | seq first second =>
        rw [run, run]
        rcases ihrun mode first c with h | h
        · simp [h]
        · simp only [h]
          cases g.run fuel mode first c with
          | matched m ts => rcases ihrun mode second (m.skip mode) with h | h <;> simp [h]
          | failed => exact .inr rfl
          | exhausted => exact .inr rfl
      | choice first second =>
        rw [run, run]
        rcases ihrun mode first c with h | h
        · simp [h]
        · simp only [h]
          cases g.run fuel mode first c with
          | matched m ts => exact .inr rfl
          | failed => exact ihrun mode second c
          | exhausted => exact .inr rfl
      | optional inner =>
        rw [run, run]
        rcases ihrun mode inner c with h | h <;> simp [h]
      | many inner =>
        rw [run, run]
        rcases ihrun mode inner c with h | h
        · simp [h]
        · simp only [h]
          cases g.run fuel mode inner c with
          | matched m ts => exact ihrepeat mode inner m ts
          | failed => exact .inr rfl
          | exhausted => exact .inr rfl
      | never inner =>
        rw [run, run]
        rcases ihrun mode inner c with h | h <;> simp [h]
    · intro mode e c trees
      rw [repeatFrom, repeatFrom]
      rcases ihrun mode e (c.skip mode) with h | h
      · simp [h]
      · simp only [h]
        cases g.run fuel mode e (c.skip mode) with
        | matched m ts => exact ihrepeat mode e m (trees ++ ts)
        | failed => exact .inr rfl
        | exhausted => exact .inr rfl

variable {g}

theorem run_eq_of_le {less more : Nat} (hle : less ≤ more) {e : Peg ρ} {c : Cursor}
    {outcome : Outcome ρ} (h : g.run less mode e c = outcome) (hne : outcome ≠ .exhausted) :
    g.run more mode e c = outcome := by
  induction hle with
  | refl => exact h
  | step _ ih =>
    rcases (settles_succ g _).1 mode e c with hexhausted | hsame
    · exact absurd (ih.symm.trans hexhausted) hne
    · rw [hsame, ih]

theorem repeatFrom_eq_of_le {less more : Nat} (hle : less ≤ more) {e : Peg ρ} {c : Cursor}
    {trees : List (Tree ρ)} {outcome : Outcome ρ}
    (h : g.repeatFrom less mode e c trees = outcome) (hne : outcome ≠ .exhausted) :
    g.repeatFrom more mode e c trees = outcome := by
  induction hle with
  | refl => exact h
  | step _ ih =>
    rcases (settles_succ g _).2 mode e c trees with hexhausted | hsame
    · exact absurd (ih.symm.trans hexhausted) hne
    · rw [hsame, ih]

variable (g mode)

/-- An expression matches between two places, with the nodes in the match. -/
def Matches (e : Peg ρ) (c d : Cursor) (trees : List (Tree ρ)) : Prop :=
  ∃ fuel, g.run fuel mode e c = .matched d trees

/-- An expression fails at a place. -/
def Fails (e : Peg ρ) (c : Cursor) : Prop := ∃ fuel, g.run fuel mode e c = .failed

/-- Further repetitions of an expression behind a match of it. -/
def Repeats (e : Peg ρ) (c d : Cursor) (trees : List (Tree ρ)) : Prop :=
  ∃ fuel, g.repeatFrom fuel mode e c [] = .matched d trees

variable {g mode}

/-- An expression does not match in two ways. -/
theorem Matches.unique {e : Peg ρ} {c d d' : Cursor} {ts ts' : List (Tree ρ)}
    (h : g.Matches mode e c d ts) (h' : g.Matches mode e c d' ts') : d = d' ∧ ts = ts' := by
  obtain ⟨n, h⟩ := h
  obtain ⟨n', h'⟩ := h'
  have := (run_eq_of_le (Nat.le_max_left n n') h (by simp)).symm.trans
    (run_eq_of_le (Nat.le_max_right n n') h' (by simp))
  simpa using this

theorem Matches.not_fails {e : Peg ρ} {c d : Cursor} {ts : List (Tree ρ)}
    (h : g.Matches mode e c d ts) : ¬ g.Fails mode e c := by
  rintro ⟨n', h'⟩
  obtain ⟨n, h⟩ := h
  have := (run_eq_of_le (Nat.le_max_left n n') h (by simp)).symm.trans
    (run_eq_of_le (Nat.le_max_right n n') h' (by simp))
  simp at this

theorem matches_iff_succ {e : Peg ρ} {c d : Cursor} {ts : List (Tree ρ)} :
    g.Matches mode e c d ts ↔ ∃ fuel, g.run (fuel + 1) mode e c = .matched d ts :=
  ⟨fun ⟨n, h⟩ => ⟨n, run_eq_of_le (Nat.le_succ n) h (by simp)⟩, fun ⟨n, h⟩ => ⟨n + 1, h⟩⟩

theorem fails_iff_succ {e : Peg ρ} {c : Cursor} :
    g.Fails mode e c ↔ ∃ fuel, g.run (fuel + 1) mode e c = .failed :=
  ⟨fun ⟨n, h⟩ => ⟨n, run_eq_of_le (Nat.le_succ n) h (by simp)⟩, fun ⟨n, h⟩ => ⟨n + 1, h⟩⟩

/-- Two runs can be given the fuel of the longer. -/
theorem exists_fuel {mode' : Mode} {e e' : Peg ρ} {c c' : Cursor} {outcome outcome' : Outcome ρ}
    (h : ∃ fuel, g.run fuel mode e c = outcome) (hne : outcome ≠ .exhausted)
    (h' : ∃ fuel, g.run fuel mode' e' c' = outcome') (hne' : outcome' ≠ .exhausted) :
    ∃ fuel, g.run fuel mode e c = outcome ∧ g.run fuel mode' e' c' = outcome' := by
  obtain ⟨n, h⟩ := h
  obtain ⟨n', h'⟩ := h'
  exact ⟨max n n', run_eq_of_le (Nat.le_max_left n n') h hne,
    run_eq_of_le (Nat.le_max_right n n') h' hne'⟩

section Texts

variable {chars : List Char} {accepts : Char → Bool} {c d : Cursor} {ts : List (Tree ρ)}

theorem matches_text_iff : g.Matches mode (.text chars) c d ts ↔
    c.rest = chars ++ d.rest ∧ d.offset = c.offset + chars.length ∧ ts = [] := by
  rw [matches_iff_succ]
  simp only [run]
  constructor
  · rintro ⟨-, h⟩
    split at h
    · rename_i rest hrest
      cases h
      exact ⟨Text.eq_append_of_dropStart? hrest, rfl, rfl⟩
    · cases h
  · rintro ⟨hrest, hoffset, rfl⟩
    refine ⟨0, ?_⟩
    rw [hrest, Text.dropStart?_append, ← hoffset]

theorem fails_text_iff : g.Fails mode (.text chars) c ↔ ¬ chars <+: c.rest := by
  rw [fails_iff_succ]
  simp only [run]
  constructor
  · rintro ⟨-, h⟩ ⟨rest, hrest⟩
    rw [← hrest, Text.dropStart?_append] at h
    cases h
  · intro h
    refine ⟨0, ?_⟩
    cases hrest : Text.dropStart? chars c.rest with
    | none => rfl
    | some rest => exact absurd ⟨rest, (Text.eq_append_of_dropStart? hrest).symm⟩ h

theorem matches_charWhere_iff : g.Matches mode (.charWhere accepts) c d ts ↔
    ∃ x, accepts x ∧ c.rest = x :: d.rest ∧ d.offset = c.offset + 1 ∧ ts = [] := by
  rw [matches_iff_succ]
  simp only [run]
  constructor
  · rintro ⟨-, h⟩
    split at h
    · rename_i x rest hrest
      split at h
      · cases h
        exact ⟨x, by assumption, hrest, rfl, rfl⟩
      · cases h
    · cases h
  · rintro ⟨x, hx, hrest, hoffset, rfl⟩
    refine ⟨0, ?_⟩
    simp only [hrest, hx, if_true, ← hoffset]

theorem fails_charWhere_iff : g.Fails mode (.charWhere accepts) c ↔
    ∀ x, c.rest.head? = some x → accepts x = false := by
  rw [fails_iff_succ]
  simp only [run]
  cases c.rest with
  | nil => simp
  | cons x rest => cases hx : accepts x <;> simp [hx]

theorem matches_finish_iff : g.Matches mode .finish c d ts ↔ c.rest = [] ∧ d = c ∧ ts = [] := by
  rw [matches_iff_succ]
  simp only [run]
  cases c.rest with
  | nil => simp [eq_comm]
  | cons x rest => simp

end Texts

section Parts

variable {e first second : Peg ρ} {name : ρ} {c d : Cursor} {ts : List (Tree ρ)}

theorem matches_rule_iff : g.Matches mode (.rule name) c d ts ↔
    ∃ us, g.Matches ((g name).modeIn mode) (g name).body c d us ∧
      ts = (g name).node name mode c d us := by
  rw [matches_iff_succ]
  simp only [run]
  constructor
  · rintro ⟨n, h⟩
    split at h
    · rename_i hbody
      cases h
      exact ⟨_, ⟨n, hbody⟩, rfl⟩
    · rename_i hbody
      exact absurd h (by rw [h] at hbody; exact (hbody _ _ rfl).elim)
  · rintro ⟨us, ⟨n, h⟩, rfl⟩
    exact ⟨n, by rw [h]⟩

theorem fails_rule_iff : g.Fails mode (.rule name) c ↔
    g.Fails ((g name).modeIn mode) (g name).body c := by
  rw [fails_iff_succ]
  simp only [run]
  constructor
  · rintro ⟨n, h⟩
    split at h
    · cases h
    · exact ⟨n, h⟩
  · rintro ⟨n, h⟩
    exact ⟨n, by rw [h]⟩

theorem matches_seq_iff : g.Matches mode (.seq first second) c d ts ↔
    ∃ m us vs, g.Matches mode first c m us ∧ g.Matches mode second (m.skip mode) d vs ∧
      ts = us ++ vs := by
  rw [matches_iff_succ]
  simp only [run]
  constructor
  · rintro ⟨n, h⟩
    split at h
    · rename_i m us hfirst
      split at h
      · rename_i hsecond
        cases h
        exact ⟨m, us, _, ⟨n, hfirst⟩, ⟨n, hsecond⟩, rfl⟩
      · rename_i hsecond
        exact (hsecond _ _ h).elim
    · rename_i hfirst
      exact (hfirst _ _ h).elim
  · rintro ⟨m, us, vs, hfirst, hsecond, rfl⟩
    obtain ⟨n, hfirst, hsecond⟩ := exists_fuel hfirst (by simp) hsecond (by simp)
    exact ⟨n, by simp only [hfirst, hsecond]⟩

theorem fails_seq_iff : g.Fails mode (.seq first second) c ↔
    g.Fails mode first c ∨
      ∃ m us, g.Matches mode first c m us ∧ g.Fails mode second (m.skip mode) := by
  rw [fails_iff_succ]
  simp only [run]
  constructor
  · rintro ⟨n, h⟩
    split at h
    · rename_i m us hfirst
      split at h
      · cases h
      · exact .inr ⟨m, us, ⟨n, hfirst⟩, ⟨n, h⟩⟩
    · exact .inl ⟨n, h⟩
  · rintro (⟨n, h⟩ | ⟨m, us, hfirst, hsecond⟩)
    · exact ⟨n, by rw [h]⟩
    · obtain ⟨n, hfirst, hsecond⟩ := exists_fuel hfirst (by simp) hsecond (by simp)
      exact ⟨n, by simp only [hfirst, hsecond]⟩

theorem matches_choice_iff : g.Matches mode (.choice first second) c d ts ↔
    g.Matches mode first c d ts ∨ (g.Fails mode first c ∧ g.Matches mode second c d ts) := by
  rw [matches_iff_succ]
  simp only [run]
  constructor
  · rintro ⟨n, h⟩
    split at h
    · rename_i hfirst
      exact .inr ⟨⟨n, hfirst⟩, ⟨n, h⟩⟩
    · exact .inl ⟨n, h⟩
  · rintro (⟨n, h⟩ | ⟨hfirst, hsecond⟩)
    · exact ⟨n, by rw [h]⟩
    · obtain ⟨n, hfirst, hsecond⟩ := exists_fuel hfirst (by simp) hsecond (by simp)
      exact ⟨n, by simp only [hfirst, hsecond]⟩

theorem fails_choice_iff : g.Fails mode (.choice first second) c ↔
    g.Fails mode first c ∧ g.Fails mode second c := by
  rw [fails_iff_succ]
  simp only [run]
  constructor
  · rintro ⟨n, h⟩
    split at h
    · rename_i hfirst
      exact ⟨⟨n, hfirst⟩, ⟨n, h⟩⟩
    · rename_i hfirst
      exact (hfirst h).elim
  · rintro ⟨hfirst, hsecond⟩
    obtain ⟨n, hfirst, hsecond⟩ := exists_fuel hfirst (by simp) hsecond (by simp)
    exact ⟨n, by simp only [hfirst, hsecond]⟩

theorem matches_optional_iff : g.Matches mode (.optional e) c d ts ↔
    g.Matches mode e c d ts ∨ (g.Fails mode e c ∧ d = c ∧ ts = []) := by
  rw [matches_iff_succ]
  simp only [run]
  constructor
  · rintro ⟨n, h⟩
    split at h
    · rename_i he
      cases h
      exact .inr ⟨⟨n, he⟩, rfl, rfl⟩
    · exact .inl ⟨n, h⟩
  · rintro (⟨n, h⟩ | ⟨⟨n, h⟩, rfl, rfl⟩)
    · exact ⟨n, by rw [h]⟩
    · exact ⟨n, by rw [h]⟩

theorem matches_many_iff : g.Matches mode (.many e) c d ts ↔
    (∃ m us vs, g.Matches mode e c m us ∧ g.Repeats mode e m d vs ∧ ts = us ++ vs) ∨
      (g.Fails mode e c ∧ d = c ∧ ts = []) := by
  rw [matches_iff_succ]
  simp only [run]
  constructor
  · rintro ⟨n, h⟩
    split at h
    · rename_i m us he
      obtain ⟨vs, hrest, hts⟩ := repeatFrom_nil_of_matched h
      exact .inl ⟨m, us, vs, ⟨n, he⟩, ⟨n, hrest⟩, hts⟩
    · rename_i he
      cases h
      exact .inr ⟨⟨n, he⟩, rfl, rfl⟩
    · cases h
  · rintro (⟨m, us, vs, ⟨n, he⟩, ⟨n', hrest⟩, rfl⟩ | ⟨⟨n, h⟩, rfl, rfl⟩)
    · refine ⟨max n n', ?_⟩
      rw [run_eq_of_le (Nat.le_max_left n n') he (by simp)]
      simp only
      rw [repeatFrom_eq_prepend, repeatFrom_eq_of_le (Nat.le_max_right n n') hrest (by simp)]
      rfl
    · exact ⟨n, by rw [h]⟩

/-- Repetitions end at the first place where the expression fails. -/
theorem repeats_iff : g.Repeats mode e c d ts ↔
    (∃ m us vs, g.Matches mode e (c.skip mode) m us ∧ g.Repeats mode e m d vs ∧ ts = us ++ vs) ∨
      (g.Fails mode e (c.skip mode) ∧ d = c ∧ ts = []) := by
  constructor
  · rintro ⟨n, h⟩
    cases n with
    | zero => rw [repeatFrom] at h; cases h
    | succ n =>
      rw [repeatFrom] at h
      split at h
      · rename_i m us he
        obtain ⟨vs, hrest, hts⟩ := repeatFrom_nil_of_matched h
        exact .inl ⟨m, us, vs, ⟨n, he⟩, ⟨n, hrest⟩, hts⟩
      · rename_i he
        cases h
        exact .inr ⟨⟨n, he⟩, rfl, rfl⟩
      · cases h
  · rintro (⟨m, us, vs, ⟨n, he⟩, ⟨n', hrest⟩, rfl⟩ | ⟨⟨n, h⟩, rfl, rfl⟩)
    · refine ⟨max n n' + 1, ?_⟩
      rw [repeatFrom, run_eq_of_le (Nat.le_max_left n n') he (by simp)]
      simp only
      rw [repeatFrom_eq_prepend, repeatFrom_eq_of_le (Nat.le_max_right n n') hrest (by simp)]
      rfl
    · exact ⟨n + 1, by rw [repeatFrom, h]⟩

/-- What holds where an expression fails, and behind each match of it if it holds behind
the next one, holds behind repetitions. -/
theorem Repeats.induct {motive : Cursor → List (Tree ρ) → Prop}
    (stop : g.Fails mode e (d.skip mode) → motive d [])
    (again : ∀ {c m us vs}, g.Matches mode e (c.skip mode) m us → motive m vs →
      motive c (us ++ vs)) (h : g.Repeats mode e c d ts) : motive c ts := by
  obtain ⟨n, h⟩ := h
  induction n generalizing c ts with
  | zero =>
    rw [repeatFrom] at h
    cases h
  | succ n ih =>
    rw [repeatFrom] at h
    split at h
    · rename_i m us he
      obtain ⟨vs, hrest, rfl⟩ := repeatFrom_nil_of_matched h
      exact again ⟨n, he⟩ (ih hrest)
    · rename_i he
      cases h
      exact stop ⟨n, he⟩
    · cases h

theorem matches_never_iff : g.Matches mode (.never e) c d ts ↔
    g.Fails mode e c ∧ d = c ∧ ts = [] := by
  rw [matches_iff_succ]
  simp only [run]
  constructor
  · rintro ⟨n, h⟩
    split at h
    · cases h
    · rename_i he
      cases h
      exact ⟨⟨n, he⟩, rfl, rfl⟩
    · cases h
  · rintro ⟨⟨n, h⟩, rfl, rfl⟩
    exact ⟨n, by rw [h]⟩

theorem fails_never_iff : g.Fails mode (.never e) c ↔ ∃ d ts, g.Matches mode e c d ts := by
  rw [fails_iff_succ]
  simp only [run]
  constructor
  · rintro ⟨n, h⟩
    split at h
    · rename_i he
      exact ⟨_, _, n, he⟩
    · cases h
    · cases h
  · rintro ⟨d, ts, n, h⟩
    exact ⟨n, by rw [h]⟩

end Parts

end Grammar
end Sdl
end EntitySdl
