import EntitySdl.Name.InflectionRules
import EntitySdl.Proofs.TypeRefs
import Mathlib.Data.List.Forall2

/-! # The forms of a pattern

A pattern without repetition has finitely many forms: rows of slots, each of which
takes one character.  What a search for the pattern finds in a name is a text that
fits one of the forms, and it finds something wherever such a text stands.
-/
namespace EntitySdl
namespace Name

open Text

/-- The characters of names in small letters. -/
def smallParts : List Char := "abcdefghijklmnopqrstuvwxyz0123456789_".toList

theorem fold_of_isNamePart {c : Char} (h : isNamePart c) : fold c = c.toLower := by
  simpa using @Sdl.forall_isNamePart (fun c => fold c == c.toLower) (by decide) c h

theorem toLower_mem_smallParts {c : Char} (h : isNamePart c) : c.toLower ∈ smallParts := by
  simpa using @Sdl.forall_isNamePart (fun c => smallParts.contains c.toLower) (by decide) c h

theorem fold_mem_smallParts {c : Char} (h : isNamePart c) : fold c ∈ smallParts :=
  fold_of_isNamePart h ▸ toLower_mem_smallParts h

theorem isWordCharacter_of_isNamePart {c : Char} (h : isNamePart c) : isWordCharacter c :=
  Sdl.forall_isNamePart (by decide) h

namespace Pattern

/-- Where a form may begin. -/
inductive Anchor where
  /-- Anywhere. -/
  | anywhere
  /-- At the start of the text. -/
  | start
  /-- At a place between a word character and something else. -/
  | wordEdge
  deriving DecidableEq

/-- Whether a form with the anchor may begin at a place. -/
def Anchor.holds : Anchor → Place → Bool
  | .anywhere, _ => true
  | .start, place => place.before.isEmpty
  | .wordEdge, place => place.atWordEdge

/-- One way to match a pattern. -/
structure Form where
  /-- Where it may begin. -/
  anchor : Anchor := .anywhere
  /-- The representatives that are taken, one slot for each character. -/
  slots : List (List Char) := []
  /-- The groups passed on the way: where each begins and how long it is. -/
  groups : List (Nat × Nat) := []

namespace Form

/-- One form after another. -/
def append (form next : Form) : Form where
  anchor := form.anchor
  slots := form.slots ++ next.slots
  groups := form.groups ++ next.groups.map fun group => (form.slots.length + group.1, group.2)

/-- A form whose text is kept. -/
def keep (form : Form) : Form :=
  { form with groups := form.groups ++ [(0, form.slots.length)] }

/-- A text fits the slots. -/
def Reads (form : Form) (text : List Char) : Prop :=
  List.Forall₂ (fun slot c => fold c ∈ slot) form.slots text

/-- The texts of the groups in a text. -/
def cut (form : Form) (text : List Char) : List (List Char) :=
  form.groups.map fun group => (text.drop group.1).take group.2

/-- A place is behind a text that fits the form. -/
def Leads (form : Form) (place last : Place) : Prop :=
  form.anchor.holds place ∧ ∃ text rest, place.after = text ++ rest ∧ form.Reads text ∧
    last = ⟨text.reverse ++ place.before, rest, (form.cut text).reverse ++ place.groups⟩

end Form

/-- The forms of a pattern. -/
def forms : Pattern → List Form
  | .empty | .finish => [{}]
  | .letter l => [{ slots := [[l]] }]
  | .letterWhere accepts => [{ slots := [smallParts.filter accepts] }]
  | .start => [{ anchor := .start }]
  | .wordEdge => [{ anchor := .wordEdge }]
  | .seq p q => p.forms.flatMap fun form => q.forms.map form.append
  | .either p q => p.forms ++ q.forms
  | .group p => p.forms.map Form.keep

/-- Whether a pattern looks at nothing but the characters that it takes. -/
def isFree : Pattern → Bool
  | .empty | .letter _ | .letterWhere _ => true
  | .start | .finish | .wordEdge => false
  | .seq p q | .either p q => p.isFree && q.isFree
  | .group p => p.isFree

/-- Whether a pattern looks at its surroundings at most where it begins. -/
def isPlain : Pattern → Bool
  | .empty | .letter _ | .letterWhere _ | .start | .wordEdge => true
  | .finish => false
  | .seq p q => p.isPlain && q.isFree
  | .either p q => p.isPlain && q.isPlain
  | .group p => p.isPlain

theorem isPlain_of_isFree {p : Pattern} (h : p.isFree) : p.isPlain := by
  induction p with
  | empty | letter | letterWhere => rfl
  | start | finish | wordEdge => cases h
  | seq p q ihp =>
    rw [isFree, Bool.and_eq_true] at h
    rw [isPlain, ihp h.1, h.2]
    rfl
  | either p q ihp ihq =>
    rw [isFree, Bool.and_eq_true] at h
    rw [isPlain, ihp h.1, ihq h.2]
    rfl
  | group p ih => exact ih h

/-! ## Facts about forms -/

theorem anchor_of_isFree {p : Pattern} (h : p.isFree) :
    ∀ form ∈ p.forms, form.anchor = .anywhere := by
  induction p with
  | empty | letter | letterWhere => simp [forms]
  | start | finish | wordEdge => cases h
  | seq p q ihp ihq =>
    rw [isFree, Bool.and_eq_true] at h
    simp only [forms, List.mem_flatMap, List.mem_map]
    rintro _ ⟨form, hform, next, hnext, rfl⟩
    exact ihp h.1 form hform
  | either p q ihp ihq =>
    rw [isFree, Bool.and_eq_true] at h
    exact List.forall_mem_append.mpr ⟨ihp h.1, ihq h.2⟩
  | group p ih =>
    simp only [forms, List.mem_map]
    rintro _ ⟨form, hform, rfl⟩
    exact ih h form hform

/-- A group lies within the text of its form. -/
theorem group_le {p : Pattern} :
    ∀ form ∈ p.forms, ∀ group ∈ form.groups, group.1 + group.2 ≤ form.slots.length := by
  induction p with
  | empty | letter | letterWhere | start | finish | wordEdge => simp [forms]
  | seq p q ihp ihq =>
    simp only [forms, List.mem_flatMap, List.mem_map]
    rintro _ ⟨form, hform, next, hnext, rfl⟩ group hgroup
    rw [Form.append, List.length_append]
    rcases List.mem_append.mp hgroup with hgroup | hgroup
    · exact (ihp form hform group hgroup).trans (Nat.le_add_right _ _)
    · obtain ⟨inner, hinner, rfl⟩ := List.mem_map.mp hgroup
      have := ihq next hnext inner hinner
      dsimp only
      omega
  | either p q ihp ihq => exact List.forall_mem_append.mpr ⟨ihp, ihq⟩
  | group p ih =>
    simp only [forms, List.mem_map]
    rintro _ ⟨form, hform, rfl⟩ group hgroup
    rcases List.mem_append.mp hgroup with hgroup | hgroup
    · exact ih form hform group hgroup
    · cases List.mem_singleton.mp hgroup
      simp [Form.keep]

theorem forall₂_append_left_iff {α β : Type} {R : α → β → Prop} {xs ys : List α} {us : List β} :
    List.Forall₂ R (xs ++ ys) us ↔
      ∃ left right, us = left ++ right ∧ List.Forall₂ R xs left ∧ List.Forall₂ R ys right := by
  constructor
  · intro h
    have hus := h
    rw [← List.take_append_drop xs.length us] at h
    refine ⟨us.take xs.length, us.drop xs.length, (List.take_append_drop ..).symm, ?_, ?_⟩
    · simpa using List.forall₂_take xs.length hus
    · simpa using List.forall₂_drop xs.length hus
  · rintro ⟨left, right, rfl, hleft, hright⟩
    exact List.rel_append hleft hright

namespace Form

variable {form next : Form} {text more : List Char} {place last : Place}

theorem Reads.length_eq (h : form.Reads text) : text.length = form.slots.length :=
  (List.Forall₂.length_eq h).symm

theorem cut_append (hform : ∀ group ∈ form.groups, group.1 + group.2 ≤ form.slots.length)
    (h : form.Reads text) :
    (form.append next).cut (text ++ more) = form.cut text ++ next.cut more := by
  have hlength := h.length_eq
  simp only [cut, append, List.map_append, List.map_map]
  congr 1
  · refine List.map_congr_left fun group hgroup => ?_
    have := hform group hgroup
    rw [List.drop_append_of_le_length (by omega), List.take_append_of_le_length]
    rw [List.length_drop]
    omega
  · refine List.map_congr_left fun group _ => ?_
    have hdrop : (text ++ more).drop (form.slots.length + group.1) = more.drop group.1 := by
      rw [← hlength, List.drop_length_add_append]
    exact congrArg (List.take group.2) hdrop

/-- Two forms lead to a place by way of the place between them. -/
theorem leads_append_iff (hform : ∀ group ∈ form.groups, group.1 + group.2 ≤ form.slots.length)
    (hnext : next.anchor = .anywhere) : (form.append next).Leads place last ↔
      ∃ middle, form.Leads place middle ∧ next.Leads middle last := by
  constructor
  · rintro ⟨hanchor, text, rest, hafter, htext, rfl⟩
    obtain ⟨first, second, rfl, hfirst, hsecond⟩ := forall₂_append_left_iff.mp htext
    refine ⟨⟨first.reverse ++ place.before, second ++ rest,
      (form.cut first).reverse ++ place.groups⟩, ⟨hanchor, first, second ++ rest, ?_, hfirst, rfl⟩,
      by rw [hnext]; rfl, second, rest, rfl, hsecond, ?_⟩
    · rw [hafter, List.append_assoc]
    · rw [cut_append hform hfirst]
      simp only [List.reverse_append, List.append_assoc]
  · rintro ⟨_, ⟨hanchor, first, _, hafter, hfirst, rfl⟩, -, second, rest, hsecond, hreads, rfl⟩
    dsimp only at hsecond
    subst hsecond
    refine ⟨hanchor, first ++ second, rest, ?_, List.rel_append hfirst hreads, ?_⟩
    · rw [hafter, List.append_assoc]
    · rw [cut_append hform hfirst]
      simp only [List.reverse_append, List.append_assoc]

/-- The form of a group leads where its text is kept. -/
theorem leads_keep_iff : form.keep.Leads place last ↔
    ∃ inner, form.Leads place inner ∧
      last = { inner with groups := inner.textSince place :: inner.groups } := by
  have hkept : ∀ text rest, place.after = text ++ rest → form.Reads text → ∀ before groups,
      (form.keep.cut text).reverse ++ place.groups =
        (⟨before, rest, groups⟩ : Place).textSince place ::
          ((form.cut text).reverse ++ place.groups) := by
    intro text rest hafter htext before groups
    have htake : text.take form.slots.length = text := by rw [← htext.length_eq, List.take_length]
    simp [cut, keep, Place.textSince, hafter, htake]
  constructor
  · rintro ⟨hanchor, text, rest, hafter, htext, rfl⟩
    refine ⟨_, ⟨hanchor, text, rest, hafter, htext, rfl⟩, ?_⟩
    rw [hkept text rest hafter htext]
  · rintro ⟨_, ⟨hanchor, text, rest, hafter, htext, rfl⟩, rfl⟩
    refine ⟨hanchor, text, rest, hafter, htext, ?_⟩
    rw [hkept text rest hafter htext]

/-- A form without slots leads to where it begins. -/
theorem leads_nil_iff {anchor : Anchor} :
    (Form.mk anchor [] []).Leads place last ↔ anchor.holds place ∧ last = place := by
  constructor
  · rintro ⟨hanchor, text, rest, hafter, htext, rfl⟩
    cases htext
    exact ⟨hanchor, by rw [List.nil_append] at hafter; simp [cut, ← hafter]⟩
  · rintro ⟨hanchor, rfl⟩
    exact ⟨hanchor, [], last.after, rfl, .nil, by simp [cut]⟩

/-- A form of a single slot leads behind a character in it. -/
theorem leads_slot_iff {slot : List Char} : (Form.mk .anywhere [slot] []).Leads place last ↔
    last ∈ place.step? fun c => slot.contains (fold c) := by
  constructor
  · rintro ⟨-, text, rest, hafter, htext, rfl⟩
    obtain ⟨c, _, hc, hnil, rfl⟩ := List.forall₂_cons_left_iff.mp htext
    cases hnil
    simp [Place.step?, hafter, hc, cut]
  · intro h
    unfold Place.step? at h
    split at h
    · cases h
    · rename_i c cs hafter
      split at h
      · rename_i hc
        cases List.mem_singleton.mp h
        exact ⟨rfl, [c], cs, hafter, .cons (List.contains_iff_mem.mp hc) .nil, rfl⟩
      · cases h

end Form

theorem step?_congr {place : Place} {accepts accepts' : Char → Bool}
    (h : ∀ c ∈ place.after, accepts c = accepts' c) :
    place.step? accepts = place.step? accepts' := by
  unfold Place.step?
  split
  · rfl
  · rename_i c cs hafter
    rw [h c (hafter ▸ List.mem_cons_self)]

theorem Form.Leads.after_sublist {form : Form} {place last : Place} (h : form.Leads place last) :
    ∀ c ∈ last.after, c ∈ place.after := by
  obtain ⟨-, text, rest, hafter, -, rfl⟩ := h
  intro c hc
  rw [hafter]
  exact List.mem_append_right _ hc

/-- **The forms of a pattern are all its matches.**  A place is reached when it is behind
a text that fits one of the forms. -/
theorem mem_reach_iff {p : Pattern} (hp : p.isPlain) {place last : Place}
    (hafter : ∀ c ∈ place.after, isNamePart c) :
    last ∈ p.reach place ↔ ∃ form ∈ p.forms, form.Leads place last := by
  -- on the pattern; the place is any, since the second part of two starts behind the first
  induction p generalizing place last with
  | empty => simp [reach, forms, Form.leads_nil_iff, Anchor.holds]
  | letter l =>
    have hstep : place.step? (fold · == l) = place.step? fun c => [l].contains (fold c) :=
      step?_congr fun c _ => by simp [beq_eq_decide]
    simp only [reach, forms, List.mem_singleton, exists_eq_left, Form.leads_slot_iff, hstep]
  | letterWhere accepts =>
    have hstep : (place.step? fun c => accepts (fold c)) =
        place.step? fun c => (smallParts.filter accepts).contains (fold c) := by
      refine step?_congr fun c hc => ?_
      rw [List.contains_eq_mem, Bool.eq_iff_iff, decide_eq_true_iff, List.mem_filter]
      exact (and_iff_right (fold_mem_smallParts (hafter c hc))).symm
    simp only [reach, forms, List.mem_singleton, exists_eq_left, Form.leads_slot_iff, hstep]
  | start | wordEdge =>
    simp only [reach, forms, List.mem_singleton, exists_eq_left, Form.leads_nil_iff, Anchor.holds]
    split <;> simp_all
  | finish => cases hp
  | seq p q ihp ihq =>
    rw [isPlain, Bool.and_eq_true] at hp
    -- only the first part may be anchored, so two forms make one
    have hfree := anchor_of_isFree hp.2
    simp only [reach, forms, List.mem_flatMap, List.mem_map]
    constructor
    · rintro ⟨middle, hmiddle, hlast⟩
      obtain ⟨form, hform, hleads⟩ := (ihp hp.1 hafter).mp hmiddle
      obtain ⟨next, hnext, hleads'⟩ := (ihq (isPlain_of_isFree hp.2)
        fun c hc => hafter c (hleads.after_sublist c hc)).mp hlast
      exact ⟨_, ⟨form, hform, next, hnext, rfl⟩,
        (Form.leads_append_iff (group_le form hform) (hfree next hnext)).mpr
          ⟨middle, hleads, hleads'⟩⟩
    · rintro ⟨_, ⟨form, hform, next, hnext, rfl⟩, hleads⟩
      obtain ⟨middle, hleads, hleads'⟩ :=
        (Form.leads_append_iff (group_le form hform) (hfree next hnext)).mp hleads
      exact ⟨middle, (ihp hp.1 hafter).mpr ⟨form, hform, hleads⟩,
        (ihq (isPlain_of_isFree hp.2) fun c hc => hafter c (hleads.after_sublist c hc)).mpr
          ⟨next, hnext, hleads'⟩⟩
  | either p q ihp ihq =>
    rw [isPlain, Bool.and_eq_true] at hp
    simp only [reach, forms, List.mem_append, ihp hp.1 hafter, ihq hp.2 hafter, or_and_right,
      exists_or]
  | group p ih =>
    simp only [reach, forms, List.mem_map, exists_exists_and_eq_and, Form.leads_keep_iff]
    constructor
    · rintro ⟨inner, hinner, rfl⟩
      obtain ⟨form, hform, hleads⟩ := (ih hp hafter).mp hinner
      exact ⟨form, hform, inner, hleads, rfl⟩
    · rintro ⟨form, hform, inner, hleads, rfl⟩
      exact ⟨inner, (ih hp hafter).mpr ⟨form, hform, hleads⟩, rfl⟩

/-! ## Searches -/

/-- What is found stands at some place of the text. -/
theorem findFrom_eq_some {p : Pattern} {before after : List Char} {m : Match}
    (h : p.findFrom before after = some m) :
    ∃ passed rest last, after = passed ++ rest ∧
      last ∈ p.reach ⟨passed.reverse ++ before, rest, []⟩ ∧
        m = ⟨(passed.reverse ++ before).reverse,
          last.textSince ⟨passed.reverse ++ before, rest, []⟩, last.groups.reverse, last.after⟩ := by
  induction after generalizing before with
  | nil =>
    unfold findFrom at h
    split at h
    · rename_i last _ hreach
      cases h
      exact ⟨[], [], last, rfl, hreach ▸ List.mem_cons_self, rfl⟩
    · cases h
  | cons c cs ih =>
    unfold findFrom at h
    split at h
    · rename_i last _ hreach
      cases h
      exact ⟨[], c :: cs, last, rfl, hreach ▸ List.mem_cons_self, rfl⟩
    · obtain ⟨passed, rest, last, rfl, hlast, rfl⟩ := ih h
      exact ⟨c :: passed, rest, last, rfl, by simpa using hlast, by simp⟩

/-- Where nothing is found, no place of the text begins a match. -/
theorem reach_eq_nil_of_findFrom {p : Pattern} {passed rest before : List Char}
    (h : p.findFrom before (passed ++ rest) = none) :
    p.reach ⟨passed.reverse ++ before, rest, []⟩ = [] := by
  induction passed generalizing before with
  | nil =>
    rw [List.nil_append] at h
    unfold findFrom at h
    split at h
    · cases h
    · assumption
  | cons c passed ih =>
    rw [List.cons_append] at h
    unfold findFrom at h
    split at h
    · cases h
    · simpa using ih h

end Pattern
end Name
end EntitySdl
