import EntitySdl.Proofs.Trimming
import EntitySdl.Proofs.Ignored
import EntitySdl.Proofs.BodyLines

/-! # Texts laid out anew

A definition that is kept, and the fields of a root type, are cut out of one text
and put into another, or stand by themselves.  Up to the cut the two texts are alike:
only the blanks around line feeds may be different, and not even these where the text
stands by itself.  Behind the cut stand blanks and comments in the one text, and a line
feed or nothing in the other.
-/
namespace EntitySdl
namespace Sdl

open Name Text Cursor

namespace Cursor

theorem ne_mark_of_isBlank {c : Char} (h : isBlank c) : (c == '#') = false := by
  rw [beq_eq_false_iff_ne]
  rintro rfl
  cases h

/-- A comment goes on up to the end of its line. -/
theorem behindIgnored_comment {body : List Char} (hbody : ∀ c ∈ body, isLineEnd c = false)
    (offset : Nat) (cs : List Char) : behindIgnored true offset (body ++ cs) =
      behindIgnored true (offset + body.length) cs := by
  induction body generalizing offset with
  | nil => rfl
  | cons x body ih =>
    rw [List.forall_mem_cons] at hbody
    rw [List.cons_append, behindIgnored, hbody.1, Bool.not_false, ih hbody.2, List.length_cons,
      Nat.add_assoc, Nat.add_comm 1]

theorem not_isLineEnd_of_mem {line : List Char} (hfeed : '\n' ∉ line) (hreturn : '\r' ∉ line) :
    ∀ c ∈ line, isLineEnd c = false := by
  intro c hc
  rw [isLineEnd, Bool.or_eq_false_iff, beq_eq_false_iff_ne, beq_eq_false_iff_ne]
  exact ⟨fun h => hfeed (h ▸ hc), fun h => hreturn (h ▸ hc)⟩

/-- Behind the line of a comment, blanks and comments are passed over as from its end
on. -/
theorem exists_flag {body : List Char} (hfeed : '\n' ∉ body)
    (hreturn : ∀ front back, body = front ++ '\r' :: back → back = []) (offset : Nat)
    (cs : List Char) : ∃ inComment, (behindIgnored true offset (body ++ cs)).rest =
      (behindIgnored inComment (offset + body.length) cs).rest := by
  by_cases hmem : '\r' ∈ body
  · -- a carriage return ends the comment
    obtain ⟨front, back, rfl, hfront⟩ := List.eq_append_cons_of_mem hmem
    obtain rfl := hreturn front back rfl
    simp only [List.mem_append, not_or] at hfeed
    refine ⟨false, ?_⟩
    rw [List.append_assoc, behindIgnored_comment (not_isLineEnd_of_mem hfeed.1 hfront),
      List.singleton_append, behindIgnored]
    exact behindIgnored_rest false _ _ cs
  · exact ⟨true, by rw [behindIgnored_comment (not_isLineEnd_of_mem hfeed hmem)]⟩

/-- Behind blanks and comments stands the next token, or a place from which it cannot
be reached. -/
theorem shade_behindIgnored {shade resume : List Char} (h : IsShade shade)
    (hreturns : ReturnsEndComments shade) (hsolid : isSolidStart resume)
    (inComment : Bool) (offset : Nat) :
    (behindIgnored inComment offset (shade ++ resume)).rest = resume ∨
      (behindIgnored inComment offset (shade ++ resume)).rest.length < resume.length ∨
        ∃ c, (behindIgnored inComment offset (shade ++ resume)).rest.head? = some c ∧
          isBlank c := by
  induction h generalizing inComment offset with
  | nil =>
    rw [List.nil_append]
    cases inComment with
    | false =>
      have := skip_eq_self_iff (c := ⟨offset, resume⟩) |>.mpr hsolid
      exact .inl (congrArg Cursor.rest this)
    | true =>
      cases resume with
      | nil => exact .inl rfl
      | cons c resume =>
        -- an open comment takes the first character of the token
        refine .inr (.inl ?_)
        have := (behindIgnored_reaches (!isLineEnd c) (offset + 1) resume).length_le
        rw [behindIgnored, List.length_cons]
        exact Nat.lt_succ_of_le this
  | @blank c cs hc _ ih =>
    have ih := fun inComment =>
      ih (@ReturnsEndComments.of_append [c] _ hreturns) inComment (offset + 1)
    cases inComment with
    | true => exact ih (!isLineEnd c)
    | false =>
      rw [List.cons_append, behindIgnored]
      by_cases hseparator : isSeparator c
      · rw [if_pos hseparator]
        exact ih false
      · rw [if_neg hseparator, if_neg (by rw [ne_mark_of_isBlank hc]; simp)]
        exact .inr (.inr ⟨c, rfl, hc⟩)
  | @comment body cs hbody _ _ ih =>
    rw [List.cons_append, List.append_assoc]
    -- inside a comment or not, the body of this one is passed over
    have hbehind : ∀ inComment, ∃ flag offset',
        (behindIgnored inComment offset ('#' :: (body ++ (cs ++ resume)))).rest =
          (behindIgnored flag offset' (cs ++ resume)).rest := by
      intro inComment
      obtain ⟨flag, hflag⟩ := exists_flag hbody (hreturns.body_ends hbody) (offset + 1) (cs ++ resume)
      refine ⟨flag, _, Eq.trans ?_ hflag⟩
      cases inComment <;> rfl
    obtain ⟨flag, offset', heq⟩ := hbehind inComment
    rw [heq]
    exact ih (@ReturnsEndComments.of_append ('#' :: body) _ hreturns) flag offset'

/-- Blanks around a line feed are passed over, unless one of them is no blank between
tokens. -/
theorem gap_behindIgnored {blanks : List Char} (hblanks : IsBlankText blanks) (cs : List Char)
    (inComment : Bool) (hfeed : inComment → '\n' ∈ blanks) (offset : Nat) :
    (behindIgnored inComment offset (blanks ++ cs)).rest = (behindIgnored false offset cs).rest ∨
      ∃ c, (behindIgnored inComment offset (blanks ++ cs)).rest.head? = some c ∧ isBlank c := by
  induction blanks generalizing inComment offset with
  | nil =>
    cases inComment with
    | false => exact .inl rfl
    | true => exact absurd (hfeed rfl) (by simp)
  | cons x blanks ih =>
    have hx := hblanks x List.mem_cons_self
    have ih := fun inComment hfeed =>
      ih (fun c hc => hblanks c (List.mem_cons_of_mem _ hc)) inComment hfeed
        (offset + 1)
    rw [behindIgnored_rest false offset (offset + 1)]
    cases inComment with
    | false =>
      rw [List.cons_append, behindIgnored]
      by_cases hseparator : isSeparator x
      · rw [if_pos hseparator]
        exact ih false (by simp)
      · rw [if_neg hseparator, if_neg (by rw [ne_mark_of_isBlank hx]; simp)]
        exact .inr ⟨x, rfl, hx⟩
    | true =>
      -- if the comment goes on, the line feed is still to come
      refine ih (!isLineEnd x) fun hline => ?_
      have hne : x ≠ '\n' := by
        rintro rfl
        cases hline
      exact (List.mem_cons.mp (hfeed rfl)).resolve_left (Ne.symm hne)

end Cursor

/-- A number goes on with a character. -/
def goesOnNumber (c : Char) : Bool := isAsciiDigit c || c == '-' || c == '+' || c == '.'

/-- Where a text is cut off: the blanks and comments behind it, the token before
which they end, and what will stand in their place. -/
structure Seam where
  /-- The blanks and comments. -/
  shade : List Char
  /-- The text from the next token on. -/
  resume : List Char
  /-- The new text from the cut on. -/
  tail : List Char
  /-- A line feed comes first in it, or there is none. -/
  feeds : ∀ c, tail.head? = some c → c = '\n'
  /-- Whether blanks around line feeds may be different before the cut. -/
  gaps : Bool
  /-- They are not, if nothing stands behind the cut. -/
  apart : gaps → tail ≠ []
  /-- Each comment ends with its line. -/
  isShade : IsShade shade
  /-- A blank comes first. -/
  blank : ∀ c, shade.head? = some c → isBlank c
  /-- Carriage returns in comments belong to line ends. -/
  returns : ReturnsEndComments shade
  /-- The next token is no blank and no comment. -/
  solid : isSolidStart resume
  /-- A number would not go on with the next token. -/
  number : ∀ c, resume.head? = some c → goesOnNumber c = false
  /-- Nor would it with an exponent. -/
  exponent : ∀ c d rest, resume = c :: d :: rest → (c == 'E' || c == 'e') → goesOnNumber d = false

namespace Seam

variable (seam : Seam)

/-- The old text from the cut on. -/
def edge : List Char := seam.shade ++ seam.resume

/-- The new text from its next token on. -/
def next : List Char := (behindIgnored false 0 seam.tail).rest

/-- Two texts are alike up to the cut, but for blanks around line feeds if these may be
different. -/
inductive Alike : List Char → List Char → Prop where
  /-- The old text is cut off. -/
  | edge : Alike seam.edge seam.tail
  /-- The same character comes first. -/
  | char {c r r'} (h : Alike r r') : Alike (c :: r) (c :: r')
  /-- Blanks around a line feed are replaced by those between two lines. -/
  | gap {blanks r r'} (hgaps : seam.gaps) (hblanks : IsBlankText blanks)
      (hfeed : '\n' ∈ blanks) (h : Alike r r') : Alike (blanks ++ r) (lineGap ++ r')

/-- Two texts are alike up to the cut, or both begin with the next token behind
it. -/
def Near (r r' : List Char) : Prop := seam.Alike r r' ∨ (r = seam.resume ∧ r' = seam.next)

/-- A place from which the next token behind the cut cannot be reached. -/
def Off (r : List Char) : Prop :=
  r.length < seam.resume.length ∨ ∃ c, r.head? = some c ∧ isBlank c

variable {seam} {r r' : List Char}

theorem Alike.exists_edge (h : seam.Alike r r') : ∃ before, r = before ++ seam.edge := by
  induction h with
  | edge => exact ⟨[], rfl⟩
  | @char c _ _ _ ih =>
    obtain ⟨before, rfl⟩ := ih
    exact ⟨c :: before, rfl⟩
  | @gap blanks _ _ _ _ _ _ ih =>
    obtain ⟨before, rfl⟩ := ih
    exact ⟨blanks ++ before, (List.append_assoc ..).symm⟩

theorem Alike.edge_le (h : seam.Alike r r') : seam.edge.length ≤ r.length := by
  obtain ⟨before, rfl⟩ := h.exists_edge
  simp

/-- The new text ends, or begins with a line feed, or as the old one does. -/
theorem Alike.head_rejects (h : seam.Alike r r') {accepts : Char → Bool}
    (hfeed : accepts '\n' = false) (hr : ∀ c, r.head? = some c → accepts c = false) :
    ∀ c, r'.head? = some c → accepts c = false := by
  cases h with
  | edge =>
    rintro c hc
    rwa [seam.feeds c hc]
  | char h => exact hr
  | gap _ _ _ _ =>
    rintro c ⟨⟩
    exact hfeed

/-- A character of the new text other than a line feed is the same in the old one. -/
theorem Alike.step_new {x : Char} {r k : List Char} (h : seam.Alike r (x :: k)) (hx : x ≠ '\n') :
    ∃ r₁, r = x :: r₁ ∧ seam.Alike r₁ k := by
  generalize hnew : x :: k = new at h
  cases h with
  | edge => exact absurd (seam.feeds x (by rw [← hnew]; rfl)) hx
  | char h =>
    cases hnew
    exact ⟨_, rfl, h⟩
  | gap _ _ _ _ => exact absurd (List.cons.inj hnew).1 hx

/-- A text of no blanks that stands in the new text stands in the old one. -/
theorem Alike.strip_new {word k : List Char} (h : seam.Alike r (word ++ k))
    (hword : ∀ c ∈ word, isBlank c = false) : ∃ r₁, r = word ++ r₁ ∧ seam.Alike r₁ k := by
  induction word generalizing r with
  | nil => exact ⟨r, rfl, h⟩
  | cons x word ih =>
    rw [List.forall_mem_cons] at hword
    have hfeed : x ≠ '\n' := by
      rintro rfl
      exact absurd hword.1 (by decide)
    obtain ⟨r₁, rfl, h₁⟩ := h.step_new hfeed
    obtain ⟨r₂, rfl, h₂⟩ := ih h₁ hword.2
    exact ⟨r₂, rfl, h₂⟩

theorem Alike.prefix_of_new {word : List Char} (h : seam.Alike r r')
    (hword : ∀ c ∈ word, isBlank c = false) (hpre : word <+: r') : word <+: r := by
  obtain ⟨k, rfl⟩ := hpre
  obtain ⟨r₁, rfl, -⟩ := h.strip_new hword
  exact List.prefix_append word r₁

/-- A text on one line that ends with no blank stands in the new text if it stands in
the old one before the cut. -/
theorem Alike.strip {text : List Char} (h : seam.Alike (text ++ r) r') (hfeed : '\n' ∉ text)
    (hlast : ∀ c, text.getLast? = some c → isBlank c = false)
    (hr : seam.edge.length ≤ r.length) : ∃ s, r' = text ++ s ∧ seam.Alike r s := by
  induction text generalizing r' with
  | nil => exact ⟨r', rfl, h⟩
  | cons x text ih =>
    simp only [List.mem_cons, not_or] at hfeed
    generalize hold : x :: text ++ r = old at h
    cases h with
    | edge =>
      have := congrArg List.length hold
      simp only [List.cons_append, List.length_cons, List.length_append] at this
      omega
    | @char c r₁ r₁' h =>
      obtain ⟨rfl, rfl⟩ := List.cons.inj hold
      obtain ⟨s, rfl, hs⟩ := ih h hfeed.2 fun c hc => hlast c (by
        rw [List.getLast?_cons, hc]
        rfl)
      exact ⟨s, rfl, hs⟩
    | @gap blanks r₁ r₁' _ hblanks hmem h =>
      rcases List.append_eq_append_iff.mp hold with ⟨more, hblank, -⟩ | ⟨more, htext, -⟩
      · have hlast' : ∃ c, (x :: text).getLast? = some c := by simp [List.getLast?_cons]
        obtain ⟨c, hc⟩ := hlast'
        have := hblanks c (by
          rw [hblank]
          exact List.mem_append_left _ (List.mem_of_getLast? hc))
        rw [hlast c hc] at this
        cases this
      · have hmem' : '\n' ∈ x :: text := by
          rw [htext]
          exact List.mem_append_left _ hmem
        exact absurd (List.mem_cons.mp hmem') (not_or.mpr hfeed)

/-- A text without blanks does not reach over the cut, if it ends before the next
token. -/
theorem Alike.edge_le_of_ink {text : List Char} (h : seam.Alike (text ++ r) r')
    (hink : ∀ c ∈ text, isBlank c = false) (hr : seam.resume.length ≤ r.length) :
    seam.edge.length ≤ r.length := by
  obtain ⟨before, hbefore⟩ := h.exists_edge
  rcases List.append_eq_append_iff.mp hbefore with ⟨more, -, hmore⟩ | ⟨more, htext, hmore⟩
  · rw [hmore, List.length_append]
    omega
  · cases more with
    | nil =>
      rw [List.nil_append] at hmore
      rw [hmore]
    | cons c more =>
      -- the first character behind the cut is a blank, but the text has none
      rw [Seam.edge] at hmore ⊢
      cases hshade : seam.shade with
      | nil =>
        rw [hshade, List.nil_append] at hmore
        simpa using hr
      | cons x shade =>
        rw [hshade, List.cons_append, List.cons_append] at hmore
        have hblank := seam.blank x (by rw [hshade]; rfl)
        rw [(List.cons.inj hmore).1, hink c (by simp [htext])] at hblank
        cases hblank

theorem Alike.strip_ink {text : List Char} (h : seam.Alike (text ++ r) r')
    (hink : ∀ c ∈ text, isBlank c = false) (hr : seam.resume.length ≤ r.length) :
    ∃ s, r' = text ++ s ∧ seam.Alike r s := by
  refine h.strip (fun hmem => ?_) (fun c hc => hink c (List.mem_of_getLast? hc))
    (h.edge_le_of_ink hink hr)
  have := hink _ hmem
  rw [isBlank_of_lineFeed] at this
  cases this

section Skipping

/-- Behind the cut the new text goes on with its next token, inside a comment or not. -/
theorem behindIgnored_tail (inComment : Bool) (offset : Nat) :
    (Cursor.behindIgnored inComment offset seam.tail).rest = seam.next := by
  rw [next]
  cases htail : seam.tail with
  | nil => cases inComment <;> rfl
  | cons x tail =>
    obtain rfl := seam.feeds x (by rw [htail]; rfl)
    cases inComment <;> exact behindIgnored_rest _ _ _ _

/-- Where the texts are alike, passing over blanks and comments ends where they are alike
again, or at the next token behind the cut. -/
theorem Alike.behindIgnored (h : seam.Alike r r') (inComment : Bool) (offset offset' : Nat) :
    seam.Near (Cursor.behindIgnored inComment offset r).rest
        (Cursor.behindIgnored inComment offset' r').rest ∨
      seam.Off (Cursor.behindIgnored inComment offset r).rest := by
  induction h generalizing inComment offset offset' with
  | edge =>
    rcases shade_behindIgnored seam.isShade seam.returns seam.solid inComment offset with h | h
    · exact .inl (.inr ⟨h, behindIgnored_tail inComment offset'⟩)
    · exact .inr h
  | @char c r r' h ih =>
    cases inComment with
    | true => exact ih (!isLineEnd c) _ _
    | false =>
      rw [Cursor.behindIgnored, Cursor.behindIgnored]
      by_cases hseparator : isSeparator c
      · rw [if_pos hseparator, if_pos hseparator]
        exact ih false _ _
      · rw [if_neg hseparator, if_neg hseparator]
        by_cases hmark : c == '#'
        · rw [if_pos hmark, if_pos hmark]
          exact ih true _ _
        · rw [if_neg hmark, if_neg hmark]
          exact .inl (.inl (.char h))
  | @gap blanks r r' _ hblanks hfeed _ ih =>
    have hgap : (Cursor.behindIgnored inComment offset' (lineGap ++ r')).rest =
        (Cursor.behindIgnored false (offset' + 3) r').rest := by
      cases inComment <;> rfl
    rcases gap_behindIgnored hblanks r inComment (fun _ => hfeed) offset with h | h
    · rw [hgap, h]
      exact ih false _ _
    · exact .inr (.inr h)

/-- If a comment goes on behind the cut in the old text, the new one goes on with its next
token. -/
theorem Alike.behindIgnored_beyond (h : seam.Alike r r') {inComment : Bool} {offset : Nat}
    (hbeyond : (Cursor.behindIgnored inComment offset r).rest.length < seam.resume.length)
    (hink : ∀ c, (Cursor.behindIgnored inComment offset r).rest.head? = some c →
      isBlank c = false) (offset' : Nat) :
    (Cursor.behindIgnored inComment offset' r').rest = seam.next := by
  induction h generalizing inComment offset offset' with
  | edge => exact behindIgnored_tail inComment offset'
  | @char c r r' h ih =>
    cases inComment with
    | true => exact ih hbeyond hink _
    | false =>
      rw [Cursor.behindIgnored] at hbeyond hink ⊢
      by_cases hseparator : isSeparator c
      · rw [if_pos hseparator] at hbeyond hink ⊢
        exact ih hbeyond hink _
      · rw [if_neg hseparator] at hbeyond hink ⊢
        by_cases hmark : c == '#'
        · rw [if_pos hmark] at hbeyond hink ⊢
          exact ih hbeyond hink _
        · -- the old text stops before the cut
          have hle := h.edge_le
          rw [if_neg hmark, List.length_cons] at hbeyond
          rw [Seam.edge, List.length_append] at hle
          omega
  | @gap blanks r r' _ hblanks hfeed _ ih =>
    have hgap : (Cursor.behindIgnored inComment offset' (lineGap ++ r')).rest =
        (Cursor.behindIgnored false (offset' + 3) r').rest := by
      cases inComment <;> rfl
    rcases gap_behindIgnored hblanks r inComment (fun _ => hfeed) offset with heq | ⟨c, hc, hblank⟩
    · rw [heq] at hbeyond hink
      rw [hgap]
      exact ih hbeyond hink _
    · rw [hink c hc] at hblank
      cases hblank

theorem isSolidStart_next : isSolidStart seam.next := behindIgnored_isSolidStart _ _ _

/-- So it is with places at which the texts are near. -/
theorem Near.skip {c c' : Cursor} (h : seam.Near c.rest c'.rest) :
    seam.Near (c.skip .spaced).rest (c'.skip .spaced).rest ∨ seam.Off (c.skip .spaced).rest := by
  rcases h with h | ⟨hold, hnew⟩
  · exact h.behindIgnored false c.offset c'.offset
  · rw [skip_eq_self_iff.mpr (by rw [hold]; exact seam.solid),
      skip_eq_self_iff.mpr (by rw [hnew]; exact isSolidStart_next)]
    exact .inl (.inr ⟨hold, hnew⟩)

/-- At a token, the new text begins with the next token if the old one does. -/
theorem Near.eq_next (h : seam.Near seam.resume r') (hsolid : isSolidStart r') :
    r' = seam.next := by
  rcases h with h | ⟨-, h⟩
  · generalize hold : seam.resume = old at h
    cases h with
    | edge => exact (congrArg Cursor.rest (skip_eq_self_iff (c := ⟨0, seam.tail⟩).mpr hsolid)).symm
    | char h =>
      have := h.edge_le
      rw [Seam.edge, List.length_append, hold, List.length_cons] at this
      omega
    | @gap blanks r r' _ _ hfeed h =>
      have := h.edge_le
      have := List.length_pos_of_mem hfeed
      rw [Seam.edge, List.length_append, hold, List.length_append] at *
      omega
  · exact h

end Skipping

end Seam

end Sdl
end EntitySdl
