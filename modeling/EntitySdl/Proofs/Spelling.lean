import EntitySdl.Proofs.Definitions
import EntitySdl.Sdl.Document
import Mathlib.Data.List.TakeWhile

/-! # Texts that spell an expression

A text spells an expression when it is read as the expression wherever it stands,
provided that a certain text stands behind it.  Spellings are put together from
those of parts, with blanks between them; blanks at the end may or may not be part
of what is read.
-/
namespace EntitySdl
namespace Sdl

open Name Text

namespace Cursor

/-- A text of blanks that may stand between tokens. -/
def IsGap (cs : List Char) : Prop := ∀ c ∈ cs, isSeparator c

/-- A gap is recognised character by character. -/
instance (cs : List Char) : Decidable (IsGap cs) :=
  inferInstanceAs (Decidable (∀ c ∈ cs, isSeparator c))

theorem skip_gap {gap cs : List Char} (h : IsGap gap) (offset : Nat) :
    Cursor.skip ⟨offset, gap ++ cs⟩ .spaced = Cursor.skip ⟨offset + gap.length, cs⟩ .spaced := by
  induction gap generalizing offset with
  | nil => rfl
  | cons c gap ih =>
    have hrest := ih (fun d hd => h d (List.mem_cons_of_mem _ hd)) (offset + 1)
    simp only [skip] at hrest ⊢
    rw [List.cons_append, behindIgnored, if_pos (h c List.mem_cons_self), hrest, List.length_cons]
    congr 1
    omega

theorem skip_solid {cs : List Char} (h : isSolidStart cs) (offset : Nat) :
    Cursor.skip ⟨offset, cs⟩ .spaced = ⟨offset, cs⟩ :=
  skip_eq_self_iff.mpr h

/-- A blank before a solid text is passed over. -/
theorem skip_blank {c : Char} {cs : List Char} (hc : isSeparator c) (h : isSolidStart cs)
    (offset : Nat) : Cursor.skip ⟨offset, c :: cs⟩ .spaced = ⟨offset + 1, cs⟩ :=
  (@skip_gap [c] _ (by simpa [IsGap] using hc) offset).trans (skip_solid h _)

/-- A text begins with a character that is neither a blank nor a comment. -/
def IsSolid (cs : List Char) : Prop := ∃ c rest, cs = c :: rest ∧ isSolidStart cs

theorem IsSolid.append {cs : List Char} (h : IsSolid cs) (ds : List Char) :
    IsSolid (cs ++ ds) := by
  obtain ⟨c, rest, rfl, hc⟩ := h
  exact ⟨c, rest ++ ds, rfl, hc⟩

theorem IsSolid.start {cs : List Char} (h : IsSolid cs) : isSolidStart cs := by
  obtain ⟨c, rest, -, hc⟩ := h
  exact hc

end Cursor

namespace Grammar

open Cursor Peg

section Characters

variable {ρ : Type} {g : Grammar ρ} {accepts : Char → Bool}

theorem repeats_characters {cs : List Char} (hcs : ∀ c ∈ cs, accepts c) {c : Cursor}
    (hc : ∀ x, c.rest.head? = some x → accepts x = false) (offset : Nat)
    (hoffset : c.offset = offset + cs.length) :
    g.Repeats .token (.charWhere accepts) ⟨offset, cs ++ c.rest⟩ c [] := by
  induction cs generalizing offset with
  | nil =>
    refine repeats_iff.mpr (.inr ⟨fails_charWhere_iff.mpr hc, ?_, rfl⟩)
    cases c
    simp_all
  | cons x cs ih =>
    rw [List.forall_mem_cons] at hcs
    refine repeats_iff.mpr (.inl ⟨⟨offset + 1, cs ++ c.rest⟩, [], [], ?_, ?_, rfl⟩)
    · exact matches_charWhere_iff.mpr ⟨x, hcs.1, rfl, rfl, rfl⟩
    · refine ih hcs.2 (offset + 1) ?_
      rw [hoffset, List.length_cons]
      omega

/-- Repetitions of a character take as many characters as there are. -/
theorem matches_characters {cs : List Char} (hcs : ∀ c ∈ cs, accepts c) {c : Cursor}
    (hc : ∀ x, c.rest.head? = some x → accepts x = false) (offset : Nat)
    (hoffset : c.offset = offset + cs.length) :
    g.Matches .token (.many (.charWhere accepts)) ⟨offset, cs ++ c.rest⟩ c [] := by
  cases cs with
  | nil =>
    refine matches_many_iff.mpr (.inr ⟨fails_charWhere_iff.mpr hc, ?_, rfl⟩)
    cases c
    simp_all
  | cons x cs =>
    rw [List.forall_mem_cons] at hcs
    refine matches_many_iff.mpr (.inl ⟨⟨offset + 1, cs ++ c.rest⟩, [], [], ?_, ?_, rfl⟩)
    · exact matches_charWhere_iff.mpr ⟨x, hcs.1, rfl, rfl, rfl⟩
    · refine repeats_characters hcs.2 hc (offset + 1) ?_
      rw [hoffset, List.length_cons]
      omega

/-- Repetitions of a character end before the first character that is different. -/
theorem exists_of_characters {c d : Cursor} {ts : List (Tree ρ)}
    (h : g.Matches .token (.many (.charWhere accepts)) c d ts) :
    ∃ cs, (∀ x ∈ cs, accepts x) ∧ c.rest = cs ++ d.rest ∧ ts = [] ∧
      ∀ x, d.rest.head? = some x → accepts x = false := by
  have hend : ∀ x, (c.rest.dropWhile accepts).head? = some x → accepts x = false := by
    intro x hx
    have := List.head?_dropWhile_not accepts c.rest
    rw [hx] at this
    simpa using this
  have hfound := @matches_characters _ g _ (c.rest.takeWhile accepts)
    (fun x hx => List.mem_takeWhile_imp hx)
    ⟨c.offset + (c.rest.takeWhile accepts).length, c.rest.dropWhile accepts⟩ hend c.offset rfl
  rw [List.takeWhile_append_dropWhile] at hfound
  obtain ⟨rfl, rfl⟩ := h.unique hfound
  exact ⟨_, fun x hx => List.mem_takeWhile_imp hx, List.takeWhile_append_dropWhile.symm, rfl, hend⟩

end Characters

section Names

variable {mode : Mode} {c d : Cursor} {ts : List (Tree Rule)}

/-- A name is matched up to the first character that cannot be part of it. -/
theorem matches_name_iff : sdl.Matches mode (.rule .name) c d ts ↔
    ∃ name, isIdentifierText name ∧ c.rest = name ++ d.rest ∧
      d.offset = c.offset + name.length ∧ (∀ x, d.rest.head? = some x → isNamePart x = false) ∧
      ts = (sdl .name).node .name mode c d [] := by
  rw [matches_rule_iff]
  constructor
  · rintro ⟨us, h, rfl⟩
    obtain ⟨m, _, _, hstart, hparts, rfl⟩ := matches_seq_iff.mp h
    obtain ⟨x, hx, hm, hoffset, rfl⟩ := matches_charWhere_iff.mp hstart
    obtain ⟨cs, hcs, hrest, rfl, hend⟩ := exists_of_characters hparts
    have hreaches := hparts.reaches.offset_add
    change m.rest = cs ++ d.rest at hrest
    change d.offset + d.rest.length = m.offset + m.rest.length at hreaches
    refine ⟨x :: cs, ?_, ?_, ?_, hend, rfl⟩
    · simpa [isIdentifierText] using ⟨hx, hcs⟩
    · rw [hm, hrest, List.cons_append]
    · rw [hrest, List.length_append] at hreaches
      rw [List.length_cons]
      omega
  · rintro ⟨name, hname, hrest, hoffset, hend, rfl⟩
    cases name with
    | nil => cases hname
    | cons x cs =>
      simp only [isIdentifierText, Bool.and_eq_true, List.all_eq_true] at hname
      refine ⟨[], matches_seq_iff.mpr ⟨⟨c.offset + 1, cs ++ d.rest⟩, [], [], ?_, ?_, rfl⟩, rfl⟩
      · exact matches_charWhere_iff.mpr ⟨x, hname.1, hrest, rfl, rfl⟩
      · refine matches_characters hname.2 hend (c.offset + 1) ?_
        rw [hoffset, List.length_cons]
        omega

theorem matches_name {name behind : List Char} (hname : isIdentifierText name)
    (hbehind : ∀ x, behind.head? = some x → isNamePart x = false) (offset : Nat) :
    sdl.Matches .spaced (.rule .name) ⟨offset, name ++ behind⟩ ⟨offset + name.length, behind⟩
      [.node .name offset name []] := by
  refine matches_name_iff.mpr ⟨name, hname, rfl, rfl, hbehind, ?_⟩
  rw [sdl_node_spaced]
  simp [Cursor.textTo]

end Names

/-- A text is read as an expression wherever it stands before another text, up to
blanks and comments behind it, and its numbers are in range. -/
def Spells (e : Peg Rule) (text behind : List Char) : Prop :=
  ∀ offset, ∃ d ts, Reads (.one e) ⟨offset, text ++ behind⟩ d ts ∧
    d.skip .spaced = Cursor.skip ⟨offset + text.length, behind⟩ .spaced ∧
      (Tree.textsOfAll .number ts).all isInRange

section Spellings

variable {first second e : Peg Rule} {text gap more behind : List Char}

theorem textsOfAll_append (r : Rule) (ts us : List (Tree Rule)) :
    Tree.textsOfAll r (ts ++ us) = Tree.textsOfAll r ts ++ Tree.textsOfAll r us := by
  induction ts with
  | nil => rfl
  | cons t ts ih => rw [List.cons_append, Tree.textsOfAll, Tree.textsOfAll, ih, List.append_assoc]

theorem spells_word (word : List Char) : Spells (.text word) word behind := fun _ =>
  ⟨_, [], .text rfl rfl, rfl, rfl⟩

theorem spells_name {name : List Char} (hname : isIdentifierText name)
    (hbehind : ∀ x, behind.head? = some x → isNamePart x = false) :
    Spells (.rule .name) name behind := fun offset =>
  ⟨_, _, .token rfl (matches_name hname hbehind offset), rfl, rfl⟩

/-- Two parts are spelled with a gap between them. -/
theorem Spells.seq (hfirst : Spells first text (gap ++ (more ++ behind)))
    (hsecond : Spells second more behind) (hgap : IsGap gap) (hsolid : IsSolid more) :
    Spells (.seq first second) (text ++ (gap ++ more)) behind := by
  intro offset
  obtain ⟨m, ts, hreads, hm, hnumbers⟩ := hfirst offset
  obtain ⟨d, us, hreads', hd, hnumbers'⟩ := hsecond (offset + text.length + gap.length)
  rw [skip_gap hgap, skip_solid (hsolid.append behind).start] at hm
  refine ⟨d, ts ++ us, ?_, ?_, ?_⟩
  · rw [← hm] at hreads'
    simpa using hreads.seq hreads'
  · simp only [List.length_append, ← Nat.add_assoc]
    exact hd
  · rw [textsOfAll_append, List.all_append, hnumbers, hnumbers']
    rfl

/-- What may be absent is absent behind a part. -/
theorem Spells.seq_absent (hfirst : Spells first text behind)
    (habsent : ∀ c, c.skip .spaced = c → Reads (.one second) c c []) :
    Spells (.seq first second) text behind := by
  intro offset
  obtain ⟨m, ts, hreads, hm, hnumbers⟩ := hfirst offset
  refine ⟨m.skip .spaced, ts ++ [], hreads.seq (habsent _ (skip_skip m)), ?_, ?_⟩
  · rw [skip_skip, hm]
  · rwa [List.append_nil]

/-- What may be absent is absent before a part. -/
theorem Spells.absent_seq (hsecond : Spells second text behind) (hsolid : IsSolid text)
    (habsent : ∀ c, Reads (.one first) c c []) : Spells (.seq first second) text behind := by
  intro offset
  obtain ⟨d, ts, hreads, hd, hnumbers⟩ := hsecond offset
  refine ⟨d, [] ++ ts, (habsent _).seq ?_, hd, hnumbers⟩
  rwa [skip_solid (hsolid.append behind).start]

theorem Spells.present (h : Spells e text behind) : Spells (.optional e) text behind := by
  intro offset
  obtain ⟨d, ts, hreads, hd, hnumbers⟩ := h offset
  exact ⟨d, ts, .present hreads, hd, hnumbers⟩

theorem Spells.left (h : Spells first text behind) : Spells (.choice first second) text behind := by
  intro offset
  obtain ⟨d, ts, hreads, hd, hnumbers⟩ := h offset
  exact ⟨d, ts, .left hreads, hd, hnumbers⟩

theorem Spells.right (h : Spells second text behind) :
    Spells (.choice first second) text behind := by
  intro offset
  obtain ⟨d, ts, hreads, hd, hnumbers⟩ := h offset
  exact ⟨d, ts, .right hreads, hd, hnumbers⟩

theorem Spells.rule {r : Rule} (hr : r.isLexeme = false) (hnumber : r ≠ .number)
    (h : Spells (body r) text behind) : Spells (.rule r) text behind := by
  intro offset
  obtain ⟨d, ts, hreads, hd, hnumbers⟩ := h offset
  refine ⟨d, _, .rule hr hreads, hd, ?_⟩
  rw [Tree.textsOfAll, Tree.textsOf, if_neg hnumber, Tree.textsOfAll, List.append_nil]
  exact hnumbers

theorem Reads.more_append {goal : Goal Rule} {c d f : Cursor} {ts us : List (Tree Rule)}
    (h : Reads goal c d ts) (hgoal : goal = .more e) (hmore : Reads (.more e) d f us) :
    Reads (.more e) c f (ts ++ us) := by
  induction h using Reads.induct with
  | stop => exact hmore
  | @again _ _ _ _ ts _ hfirst _ _ ih =>
    cases hgoal
    rw [List.append_assoc]
    exact .again hfirst (ih rfl hmore)
  | _ => cases hgoal

/-- Repetitions go on from behind a repetition and the blanks after it. -/
theorem reads_more_of_many {m d : Cursor} {ts : List (Tree Rule)}
    (h : Reads (.one (.many e)) (m.skip .spaced) d ts) :
    ∃ f, Reads (.more e) m f ts ∧ f.skip .spaced = d.skip .spaced := by
  rcases reads_many_iff.mp h with ⟨n, us, vs, hfirst, hmore, rfl⟩ | ⟨rfl, rfl⟩
  · exact ⟨d, .again hfirst hmore, rfl⟩
  · exact ⟨m, .stop, (skip_skip m).symm⟩

theorem reads_many_of_more {m d : Cursor} {ts : List (Tree Rule)} (h : Reads (.more e) m d ts) :
    ∃ f, Reads (.one (.many e)) (m.skip .spaced) f ts ∧ f.skip .spaced = d.skip .spaced := by
  rcases reads_more_iff.mp h with ⟨n, us, vs, hfirst, hmore, rfl⟩ | ⟨rfl, rfl⟩
  · exact ⟨d, .some hfirst hmore, rfl⟩
  · exact ⟨_, .none, skip_skip _⟩

/-- What is written once is the first of one or more. -/
theorem Spells.once (h : Spells e text behind) : Spells (oneOrMore e) text behind :=
  h.seq_absent fun _ _ => .none

/-- Two runs of repetitions are one. -/
theorem reads_oneOrMore_append {c d f : Cursor} {ts us : List (Tree Rule)}
    (h : Reads (.one (oneOrMore e)) c d ts)
    (h' : Reads (.one (oneOrMore e)) (d.skip .spaced) f us) :
    ∃ last, Reads (.one (oneOrMore e)) c last (ts ++ us) ∧ last.skip .spaced = f.skip .spaced := by
  obtain ⟨m, vs, ws, hone, hmany, rfl⟩ := reads_seq_iff.mp h
  obtain ⟨m', vs', ws', hone', hmany', rfl⟩ := reads_seq_iff.mp h'
  obtain ⟨g, hmore, hg⟩ := reads_more_of_many hmany
  obtain ⟨g', hmore', hg'⟩ := reads_more_of_many hmany'
  rw [← hg] at hone'
  obtain ⟨last, hall, hlast⟩ := reads_many_of_more (hmore.more_append rfl (.again hone' hmore'))
  rw [List.append_assoc]
  exact ⟨last, hone.seq hall, hlast.trans hg'⟩

/-- So are two spellings of them with a gap between them. -/
theorem Spells.oneOrMore (hfirst : Spells (oneOrMore e) text (gap ++ (more ++ behind)))
    (hsecond : Spells (oneOrMore e) more behind) (hgap : IsGap gap) (hsolid : IsSolid more) :
    Spells (oneOrMore e) (text ++ (gap ++ more)) behind := by
  intro offset
  obtain ⟨d, ts, hreads, hd, hnumbers⟩ := hfirst offset
  obtain ⟨d', ts', hreads', hd', hnumbers'⟩ := hsecond (offset + text.length + gap.length)
  rw [skip_gap hgap, skip_solid (hsolid.append behind).start] at hd
  rw [← hd] at hreads'
  obtain ⟨last, hall, hlast⟩ := reads_oneOrMore_append hreads hreads'
  refine ⟨last, ts ++ ts', by simpa using hall, ?_, ?_⟩
  · rw [hlast, hd']
    simp only [List.length_append, ← Nat.add_assoc]
  · rw [textsOfAll_append, List.all_append, hnumbers, hnumbers']
    rfl

end Spellings

end Grammar
end Sdl
end EntitySdl
