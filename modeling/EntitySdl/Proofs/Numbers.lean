import EntitySdl.Proofs.Lexemes

/-! # Numbers laid out anew

An expression agrees with the new text if it matches there wherever it matches in the
old one, with the same text, and fails wherever it fails.  Tests for the characters of
numbers agree, and so do sequences, choices and repetitions of expressions that agree.
-/
namespace EntitySdl
namespace Sdl

open Name Text Grammar Cursor Peg Sdl.Tree

section Steps

variable {ρ : Type} {g : Grammar ρ} {mode : Mode} {e : Peg ρ} {c : Cursor}

theorem not_fails_optional : ¬ g.Fails mode (.optional e) c := by
  rw [fails_iff_succ]
  rintro ⟨n, h⟩
  rw [Grammar.run] at h
  split at h
  · cases h
  · rename_i hfailed
    exact hfailed h

theorem not_fails_many : ¬ g.Fails mode (.many e) c := by
  have hrepeat : ∀ n c ts, g.repeatFrom n mode e c ts ≠ .failed := by
    intro n
    induction n with
    | zero => simp [repeatFrom]
    | succ n ih =>
      intro c ts h
      rw [repeatFrom] at h
      split at h
      · exact ih _ _ h
      · cases h
      · cases h
  rw [fails_iff_succ]
  rintro ⟨n, h⟩
  rw [Grammar.run] at h
  split at h
  · exact hrepeat _ _ _ h
  · cases h
  · cases h

end Steps

theorem not_isBlank_of_goesOnNumber {c : Char} (h : goesOnNumber c) : isBlank c = false := by
  have hmem : c ∈ "0123456789-+.".toList := by
    simp only [goesOnNumber, Bool.or_eq_true, beq_iff_eq] at h
    rcases h with ((h | rfl) | rfl) | rfl
    · exact List.mem_append_left "-+.".toList (isAsciiDigit_mem h)
    all_goals decide
  exact (by decide : ∀ c ∈ "0123456789-+.".toList, isBlank c = false) c hmem

namespace Seam

variable {seam : Seam} {c c' d : Cursor} {ts : List (Tree Rule)} {e first second : Peg Rule}

/-- Where the texts are alike, an expression matches the same text in both, and fails in
the new one if it fails in the old one. -/
structure Agrees (seam : Seam) (e : Peg Rule) : Prop where
  /-- What matches, matches again. -/
  matched : ∀ {c c' d ts}, seam.Alike c.rest c'.rest → sdl.Matches .token e c d ts →
    ∃ d', sdl.Matches .token e c' d' ts ∧ seam.SameText c d c' d'
  /-- What fails, fails again. -/
  failed : ∀ {c c'}, seam.Alike c.rest c'.rest → sdl.Fails .token e c → sdl.Fails .token e c'

/-- A character that is no blank is the same in both texts, unless it begins the token
behind the cut. -/
theorem Alike.step {x : Char} {r k : List Char} (h : seam.Alike (x :: r) k)
    (hx : isBlank x = false) :
    (∃ r', k = x :: r' ∧ seam.Alike r r') ∨ (seam.resume = x :: r ∧ k = seam.tail) := by
  generalize hold : x :: r = old at h
  cases h with
  | edge =>
    rw [Seam.edge] at hold
    cases hshade : seam.shade with
    | nil =>
      exact .inr ⟨by rw [Seam.edge, hshade, List.nil_append], rfl⟩
    | cons y shade =>
      rw [hshade, List.cons_append] at hold
      have := seam.blank y (by rw [hshade]; rfl)
      rw [← (List.cons.inj hold).1, hx] at this
      cases this
  | char h =>
    cases hold
    exact .inl ⟨_, rfl, h⟩
  | @gap blanks r₁ r₁' _ hblanks hfeed _ =>
    cases blanks with
    | nil => cases hfeed
    | cons y blanks =>
      have := hblanks y List.mem_cons_self
      rw [← (List.cons.inj hold).1, hx] at this
      cases this

/-- A character of a number is the same in both texts. -/
theorem Alike.step_number {x : Char} {r k : List Char} (h : seam.Alike (x :: r) k)
    (hx : goesOnNumber x) : ∃ r', k = x :: r' ∧ seam.Alike r r' := by
  refine (h.step (not_isBlank_of_goesOnNumber hx)).resolve_right fun ⟨hresume, _⟩ => ?_
  have := seam.number x (by rw [hresume]; rfl)
  rw [hx] at this
  cases this

theorem sameText_character {x : Char} {r' : List Char} (hrest : c.rest = x :: d.rest)
    (hoffset : d.offset = c.offset + 1) (hrest' : c'.rest = x :: r') (h : seam.Alike d.rest r') :
    seam.SameText c d c' ⟨c'.offset + 1, r'⟩ := ⟨[x], hrest, hoffset, hrest', rfl, h⟩

theorem agrees_character {accepts : Char → Bool} (haccepts : ∀ x, accepts x → goesOnNumber x) :
    seam.Agrees (.charWhere accepts) where
  matched halike h := by
    obtain ⟨x, hx, hrest, hoffset, rfl⟩ := matches_charWhere_iff.mp h
    rw [hrest] at halike
    obtain ⟨r', hrest', h'⟩ := halike.step_number (haccepts x hx)
    exact ⟨_, matches_charWhere_iff.mpr ⟨x, hx, hrest', rfl, rfl⟩,
      sameText_character hrest hoffset hrest' h'⟩
  failed halike h := by
    have hfeed : accepts '\n' = false := by
      cases hx : accepts '\n' with
      | false => rfl
      | true => exact absurd (haccepts _ hx) (by decide)
    exact fails_charWhere_iff.mpr (halike.head_rejects hfeed (fails_charWhere_iff.mp h))

theorem agrees_mark {x : Char} (hx : goesOnNumber x) : seam.Agrees (.text [x]) where
  matched halike h := by
    obtain ⟨hrest, hoffset, rfl⟩ := matches_text_iff.mp h
    rw [hrest] at halike
    obtain ⟨r', hrest', h'⟩ := Alike.step_number halike hx
    exact ⟨⟨_, r'⟩, matches_text_iff.mpr ⟨hrest', rfl, rfl⟩,
      sameText_character hrest hoffset hrest' h'⟩
  failed halike h := by
    refine fails_text_iff.mpr fun hpre => fails_text_iff.mp h (halike.prefix_of_new ?_ hpre)
    simpa using not_isBlank_of_goesOnNumber hx

theorem Agrees.seq (hfirst : seam.Agrees first) (hsecond : seam.Agrees second) :
    seam.Agrees (.seq first second) where
  matched halike h := by
    obtain ⟨m, us, vs, h₁, h₂, rfl⟩ := matches_seq_iff.mp h
    obtain ⟨m', h₁', hsame⟩ := hfirst.matched halike h₁
    obtain ⟨d', h₂', hsame'⟩ := hsecond.matched hsame.alike h₂
    exact ⟨d', matches_seq_iff.mpr ⟨m', us, vs, h₁', h₂', rfl⟩, hsame.trans hsame'⟩
  failed halike h := by
    rcases fails_seq_iff.mp h with h₁ | ⟨m, us, h₁, h₂⟩
    · exact fails_seq_iff.mpr (.inl (hfirst.failed halike h₁))
    · obtain ⟨m', h₁', hsame⟩ := hfirst.matched halike h₁
      exact fails_seq_iff.mpr (.inr ⟨m', us, h₁', hsecond.failed hsame.alike h₂⟩)

theorem Agrees.choice (hfirst : seam.Agrees first) (hsecond : seam.Agrees second) :
    seam.Agrees (.choice first second) where
  matched halike h := by
    rcases matches_choice_iff.mp h with h₁ | ⟨h₁, h₂⟩
    · obtain ⟨d', h₁', hsame⟩ := hfirst.matched halike h₁
      exact ⟨d', matches_choice_iff.mpr (.inl h₁'), hsame⟩
    · obtain ⟨d', h₂', hsame⟩ := hsecond.matched halike h₂
      exact ⟨d', matches_choice_iff.mpr (.inr ⟨hfirst.failed halike h₁, h₂'⟩), hsame⟩
  failed halike h := by
    obtain ⟨h₁, h₂⟩ := fails_choice_iff.mp h
    exact fails_choice_iff.mpr ⟨hfirst.failed halike h₁, hsecond.failed halike h₂⟩

theorem Agrees.optional (h : seam.Agrees e) : seam.Agrees (.optional e) where
  matched halike hmatches := by
    rcases matches_optional_iff.mp hmatches with he | ⟨hfails, rfl, rfl⟩
    · obtain ⟨d', he', hsame⟩ := h.matched halike he
      exact ⟨d', matches_optional_iff.mpr (.inl he'), hsame⟩
    · exact ⟨_, matches_optional_iff.mpr (.inr ⟨h.failed halike hfails, rfl, rfl⟩), .refl halike⟩
  failed _ hfails := absurd hfails not_fails_optional

theorem Agrees.many (h : seam.Agrees e) : seam.Agrees (.many e) where
  matched {c c' d ts} halike hmatches := by
    -- by the repetitions in the old text, for any place in the new one
    have hall : ∀ c', seam.Alike c.rest c'.rest →
        ∃ d', sdl.Repeats .token e c' d' ts ∧ seam.SameText c d c' d' := by
      refine Repeats.induct (motive := fun c ts => ∀ c', seam.Alike c.rest c'.rest →
        ∃ d', sdl.Repeats .token e c' d' ts ∧ seam.SameText c d c' d') ?_ ?_
        (exists_repeats_of_many (by decide) hmatches)
      · intro hfails c' halike
        exact ⟨c', repeats_iff.mpr (.inr ⟨h.failed halike hfails, rfl, rfl⟩), .refl halike⟩
      · intro c m us vs hfirst ih c' halike
        obtain ⟨m', hfirst', hsame⟩ := h.matched (c := c.skip .token) halike hfirst
        obtain ⟨d', hrest, hsame'⟩ := ih m' hsame.alike
        exact ⟨d', repeats_iff.mpr (.inl ⟨m', us, vs, hfirst', hrest, rfl⟩), hsame.trans hsame'⟩
    obtain ⟨d', hrepeats, hsame⟩ := hall c' halike
    exact ⟨d', matches_many_of_repeats (by decide) hrepeats, hsame⟩
  failed _ hfails := absurd hfails not_fails_many

theorem agrees_digit : seam.Agrees digit := agrees_character fun x hx => by
  rw [goesOnNumber, hx]
  rfl

theorem agrees_digits : seam.Agrees (Peg.oneOrMore digit) := agrees_digit.seq agrees_digit.many

theorem agrees_whole : seam.Agrees whole := by
  refine (agrees_mark (by decide)).optional.seq ((agrees_mark (by decide)).choice ?_)
  refine (agrees_character fun x hx => ?_).seq agrees_digit.many
  rw [Bool.and_eq_true] at hx
  rw [goesOnNumber, hx.1]
  rfl

theorem agrees_fraction : seam.Agrees fraction := (agrees_mark (by decide)).seq agrees_digits

/-- The sign and the digits of an exponent. -/
def power : Peg Rule :=
  .seq (.optional (.charWhere fun c => c == '+' || c == '-')) (Peg.oneOrMore digit)

theorem goesOnNumber_of_sign {x : Char} (hx : x == '+' || x == '-') : goesOnNumber x := by
  rw [Bool.or_eq_true, beq_iff_eq, beq_iff_eq] at hx
  rcases hx with rfl | rfl <;> decide

theorem agrees_power : seam.Agrees power :=
  (agrees_character fun _ => goesOnNumber_of_sign).optional.seq agrees_digits

theorem power_begins (h : sdl.Matches .token power c d ts) :
    ∃ x rest, c.rest = x :: rest ∧ goesOnNumber x := by
  obtain ⟨m, _, _, hsign, hdigits, -⟩ := matches_seq_iff.mp h
  rcases matches_optional_iff.mp hsign with hsign | ⟨-, rfl, -⟩
  · obtain ⟨x, hx, hrest, -⟩ := matches_charWhere_iff.mp hsign
    exact ⟨x, _, hrest, goesOnNumber_of_sign hx⟩
  · obtain ⟨x, rest, hx, hrest, -⟩ := (matches_character_seq_iff (by decide)).mp hdigits
    exact ⟨x, rest, hrest, by rw [goesOnNumber, hx]; rfl⟩

theorem not_isBlank_of_exponentMark {x : Char} (hx : x == 'E' || x == 'e') : isBlank x = false := by
  rw [Bool.or_eq_true, beq_iff_eq, beq_iff_eq] at hx
  rcases hx with rfl | rfl <;> decide

/-- The token behind the cut may begin like an exponent, but does not go on like one. -/
theorem agrees_exponent : seam.Agrees Grammar.exponent where
  matched {c c' d ts} halike h := by
    obtain ⟨x, r, hx, hc, hr⟩ :=
      (@matches_character_seq_iff _ _ _ .token power _ (by decide)).mp h
    rw [hc] at halike
    rcases halike.step (not_isBlank_of_exponentMark hx) with ⟨r', hc', h'⟩ | ⟨hresume, -⟩
    · obtain ⟨d', hr', hsame⟩ := @Agrees.matched _ _ agrees_power _ ⟨c'.offset + 1, r'⟩ _ _ h' hr
      exact ⟨d', (matches_character_seq_iff (by decide)).mpr ⟨x, r', hx, hc', hr'⟩,
        (sameText_character (d := ⟨c.offset + 1, r⟩) hc rfl hc' h').trans hsame⟩
    · -- the mark is the first character behind the cut
      obtain ⟨y, rest, hrest, hy⟩ := power_begins hr
      change r = y :: rest at hrest
      rw [hrest] at hresume
      rw [seam.exponent x y rest hresume hx] at hy
      cases hy
  failed {c c'} halike h := by
    refine (@fails_character_seq_iff _ .token power _ (by decide)).mpr
      fun x r' hc' hx => ?_
    rw [hc'] at halike
    obtain ⟨r, hc, h'⟩ := halike.step_new (by rintro rfl; cases hx)
    refine agrees_power.failed (c := ⟨c.offset + 1, r⟩) h' ?_
    exact (fails_character_seq_iff (by decide)).mp h x r hc hx

/-- A number is the same in both texts. -/
theorem number_relaid {mode : Mode} (h : sdl.Matches mode (.rule .number) c d ts)
    (halike : seam.Alike c.rest c'.rest) :
    ∃ d' us, sdl.Matches mode (.rule .number) c' d' us ∧ seam.Alike d.rest d'.rest ∧
      seam.SameTrees us ts := by
  have hfractions : seam.Agrees (firstOf [.seq fraction Grammar.exponent, fraction,
      Grammar.exponent]) :=
    (agrees_fraction.seq agrees_exponent).choice (agrees_fraction.choice agrees_exponent)
  have hdigits := (agrees_whole.seq hfractions).choice agrees_whole
  obtain ⟨xs, hbody, rfl⟩ := matches_rule_iff.mp h
  obtain ⟨m, us, vs, hnumber, hnever, rfl⟩ := matches_seq_iff.mp hbody
  obtain ⟨hfails, rfl, rfl⟩ := matches_never_iff.mp hnever
  obtain ⟨d', hnumber', hsame⟩ := hdigits.matched halike hnumber
  have hend : sdl.Fails .token (.charWhere isNameStart) d' :=
    fails_charWhere_iff.mpr (hsame.alike.head_rejects (by decide) (fails_charWhere_iff.mp hfails))
  exact ⟨d', _, matches_rule_iff.mpr ⟨_, matches_seq_iff.mpr
      ⟨d', us, [], hnumber', matches_never_iff.mpr ⟨hend, rfl, rfl⟩, rfl⟩, rfl⟩,
    hsame.alike, hsame.sameTrees (.refl _)⟩

end Seam

end Sdl
end EntitySdl
