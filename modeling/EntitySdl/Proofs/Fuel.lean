import EntitySdl.Proofs.Derivation

/-! # Enough fuel

Between two characters of the input a run only goes down into expressions that
may start there.  When the grammar bounds how far that is, fuel for each
character of the input suffices, and every expression matches or fails.
-/
namespace EntitySdl
namespace Sdl
namespace Grammar

variable {ρ : Type} (empty : ρ → Bool) (weight : ρ → Nat)

/-- The fuel that an expression takes before the first character, given what the
rules take. -/
def need : Peg ρ → Nat
  | .text _ | .charWhere _ | .finish => 1
  | .rule name => weight name + 1
  | .seq first second =>
    max (need first) (if mayBeEmpty empty first then need second else 0) + 1
  | .choice first second => max (need first) (need second) + 1
  | .optional inner | .many inner | .never inner => need inner + 1

/-- Whether what comes behind a first character takes no more than a bound, and
every repetition takes a character. -/
def isBounded (bound : Nat) : Peg ρ → Bool
  | .text _ | .charWhere _ | .finish | .rule _ => true
  | .seq first second =>
    isBounded bound first && isBounded bound second && decide (need empty weight second ≤ bound)
  | .choice first second => isBounded bound first && isBounded bound second
  | .many inner => isBounded bound inner && !mayBeEmpty empty inner
  | .optional inner | .never inner => isBounded bound inner

/-- A grammar in which the fuel for a character is bounded. -/
structure Bounded (g : Grammar ρ) (bound : Nat) : Prop where
  /-- A character gives some fuel. -/
  pos : 0 < bound
  /-- The rules that may be empty are known. -/
  empties : ∀ name, mayBeEmpty empty (g name).body → empty name
  /-- No rule takes more than is set down for it. -/
  weights : ∀ name, need empty weight (g name).body ≤ weight name
  /-- No part of a rule takes more than the bound. -/
  parts : ∀ name, isBounded empty weight bound (g name).body

variable {empty weight} {g : Grammar ρ} {bound : Nat}

theorem need_pos (e : Peg ρ) : 0 < need empty weight e := by
  cases e <;> simp [need]

/-- Fuel that does not run out, if there is the bound for each character and what an
expression takes before the first one. -/
structure Suffices (empty : ρ → Bool) (weight : ρ → Nat) (g : Grammar ρ) (bound fuel : Nat) :
    Prop where
  /-- In a run of an expression. -/
  run : ∀ mode e c, isBounded empty weight bound e →
    bound * c.rest.length + need empty weight e ≤ fuel → g.run fuel mode e c ≠ .exhausted
  /-- In a repetition of what is not empty. -/
  again : ∀ mode e c ts, isBounded empty weight bound e → mayBeEmpty empty e = false →
    bound * c.rest.length + need empty weight e + 1 ≤ fuel →
      g.repeatFrom fuel mode e c ts ≠ .exhausted

section Step

variable {fuel : Nat} {mode : Mode} {c m : Cursor} {ts : List (Tree ρ)}

/-- A match of what is not empty leaves fuel for a whole character. -/
theorem Bounded.spares_of_matches (h : Bounded empty weight g bound) {e : Peg ρ}
    (hm : g.Matches mode e c m ts) (hempty : mayBeEmpty empty e = false) :
    bound * m.rest.length + bound ≤ bound * c.rest.length := by
  rw [← Nat.mul_succ]
  exact Nat.mul_le_mul_left bound (hm.length_lt h.empties hempty)

theorem mul_skip_le (bound : Nat) (mode : Mode) (m : Cursor) :
    bound * (m.skip mode).rest.length ≤ bound * m.rest.length :=
  Nat.mul_le_mul_left bound (Cursor.skip_reaches m mode).length_le

theorem Suffices.seq (hs : Suffices empty weight g bound fuel) (h : Bounded empty weight g bound)
    {first second : Peg ρ} (hbounded : isBounded empty weight bound (.seq first second))
    (hfuel : bound * c.rest.length + need empty weight (.seq first second) ≤ fuel + 1) :
    g.run (fuel + 1) mode (.seq first second) c ≠ .exhausted := by
  rw [Grammar.run]
  simp only [need] at hfuel
  simp only [isBounded, Bool.and_eq_true, decide_eq_true_eq] at hbounded
  obtain ⟨⟨hfirst, hsecond⟩, hneed⟩ := hbounded
  have hne := hs.run mode first c hfirst (by omega)
  split
  · rename_i m us hm
    have hle : bound * m.rest.length ≤ bound * c.rest.length :=
      Nat.mul_le_mul_left bound (Matches.reaches ⟨_, hm⟩).length_le
    have := mul_skip_le bound mode m
    have hne' : g.run fuel mode second (m.skip mode) ≠ .exhausted := by
      refine hs.run mode second _ hsecond ?_
      -- the second part comes before the first character only if the first may be empty
      cases hempty : mayBeEmpty empty first with
      | true => simp only [hempty, if_true] at hfuel; omega
      | false =>
        have := h.spares_of_matches ⟨_, hm⟩ hempty
        omega
    split
    · simp
    · exact hne'
  · exact hne

theorem Suffices.many (hs : Suffices empty weight g bound fuel)
    (h : Bounded empty weight g bound) {e : Peg ρ}
    (hbounded : isBounded empty weight bound (.many e))
    (hfuel : bound * c.rest.length + need empty weight (.many e) ≤ fuel + 1) :
    g.run (fuel + 1) mode (.many e) c ≠ .exhausted := by
  rw [Grammar.run]
  simp only [need] at hfuel
  simp only [isBounded, Bool.and_eq_true, Bool.not_eq_true'] at hbounded
  have hne := hs.run mode e c hbounded.1 (by omega)
  split
  · rename_i m us hm
    have := h.spares_of_matches ⟨_, hm⟩ hbounded.2
    have := h.pos
    have := @need_pos _ empty weight e
    refine hs.again mode e m us hbounded.1 hbounded.2 ?_
    omega
  · simp
  · rename_i hm
    exact absurd hm hne

theorem Suffices.repeats (hs : Suffices empty weight g bound fuel)
    (h : Bounded empty weight g bound) {e : Peg ρ} (hbounded : isBounded empty weight bound e)
    (hempty : mayBeEmpty empty e = false)
    (hfuel : bound * c.rest.length + need empty weight e + 1 ≤ fuel + 1) :
    g.repeatFrom (fuel + 1) mode e c ts ≠ .exhausted := by
  rw [repeatFrom]
  have := mul_skip_le bound mode c
  have hne := hs.run mode e (c.skip mode) hbounded (by omega)
  split
  · rename_i m us hm
    have := h.spares_of_matches ⟨_, hm⟩ hempty
    have := h.pos
    refine hs.again mode e m _ hbounded hempty ?_
    omega
  · simp
  · rename_i hm
    exact absurd hm hne

/-- One step goes down into an expression, or takes a character. -/
theorem Suffices.succ (hs : Suffices empty weight g bound fuel)
    (h : Bounded empty weight g bound) : Suffices empty weight g bound (fuel + 1) := by
  refine ⟨fun mode e c hbounded hfuel => ?_, fun mode e c ts => hs.repeats h⟩
  cases e with
  | text chars => rw [Grammar.run]; split <;> simp
  | charWhere accepts =>
    rw [Grammar.run]
    split
    · split <;> simp
    · simp
  | finish => rw [Grammar.run]; split <;> simp
  | rule name =>
    rw [Grammar.run]
    simp only [need] at hfuel
    have := h.weights name
    have hbody := hs.run ((g name).modeIn mode) (g name).body c (h.parts name) (by omega)
    split
    · simp
    · exact hbody
  | seq first second => exact hs.seq h hbounded hfuel
  | choice first second =>
    rw [Grammar.run]
    simp only [need] at hfuel
    simp only [isBounded, Bool.and_eq_true] at hbounded
    have hne := hs.run mode first c hbounded.1 (by omega)
    split
    · exact hs.run mode second c hbounded.2 (by omega)
    · exact hne
  | optional inner =>
    rw [Grammar.run]
    simp only [need] at hfuel
    have hne := hs.run mode inner c hbounded (by omega)
    split
    · simp
    · exact hne
  | many inner => exact hs.many h hbounded hfuel
  | never inner =>
    rw [Grammar.run]
    simp only [need] at hfuel
    have hne := hs.run mode inner c hbounded (by omega)
    split
    · simp
    · simp
    · rename_i hm
      exact absurd hm hne

end Step

/-- With the bound for each character, fuel does not run out. -/
theorem Bounded.suffices (h : Bounded empty weight g bound) (fuel : Nat) :
    Suffices empty weight g bound fuel := by
  induction fuel with
  | zero =>
    refine ⟨fun mode e c _ hfuel => ?_, fun mode e c ts _ _ hfuel => by omega⟩
    have := @need_pos _ empty weight e
    omega
  | succ fuel ih => exact ih.succ h

/-- An expression matches or fails. -/
theorem Bounded.matches_or_fails (h : Bounded empty weight g bound) (mode : Mode) {e : Peg ρ}
    (he : isBounded empty weight bound e) (c : Cursor) :
    (∃ d ts, g.Matches mode e c d ts) ∨ g.Fails mode e c := by
  have hne := (h.suffices (bound * c.rest.length + need empty weight e)).run mode e c he
    (Nat.le_refl _)
  cases hrun : g.run (bound * c.rest.length + need empty weight e) mode e c with
  | matched d ts => exact .inl ⟨d, ts, _, hrun⟩
  | failed => exact .inr ⟨_, hrun⟩
  | exhausted => exact absurd hrun hne

/-- A run with enough fuel finds a match if there is one. -/
theorem Bounded.run_eq_matched_iff (h : Bounded empty weight g bound) {mode : Mode} {e : Peg ρ}
    (he : isBounded empty weight bound e) {c d : Cursor} {ts : List (Tree ρ)} {fuel : Nat}
    (hfuel : bound * c.rest.length + need empty weight e ≤ fuel) :
    g.run fuel mode e c = .matched d ts ↔ g.Matches mode e c d ts := by
  refine ⟨fun hrun => ⟨fuel, hrun⟩, fun hmatches => ?_⟩
  have hne := (h.suffices fuel).run mode e c he hfuel
  cases hrun : g.run fuel mode e c with
  | matched d' ts' =>
    obtain ⟨rfl, rfl⟩ := hmatches.unique ⟨fuel, hrun⟩
    rfl
  | failed => exact absurd ⟨fuel, hrun⟩ hmatches.not_fails
  | exhausted => exact absurd hrun hne

end Grammar
end Sdl
end EntitySdl
