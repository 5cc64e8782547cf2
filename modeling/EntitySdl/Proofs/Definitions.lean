import EntitySdl.Proofs.Keywords
import EntitySdl.Proofs.Success
import EntitySdl.Sdl.Document

/-! # Documents are sequences of definitions

A text matches the grammar exactly when definitions can be read in it one after
the other, with nothing but blanks and comments around them.  Each definition is
the one that matching finds, whatever follows it.
-/
namespace EntitySdl
namespace Sdl
namespace Grammar

open Peg

section Choices

variable {c d : Cursor} {ts : List (Tree Rule)}

theorem reads_firstOf_iff {es : List (Peg Rule)} :
    Reads (.one (firstOf es)) c d ts ↔ ∃ e ∈ es, Reads (.one e) c d ts := by
  induction es with
  | nil =>
    simp only [List.not_mem_nil, false_and, exists_false, iff_false]
    intro h
    cases h with
    | charWhere hx _ _ => cases hx
  | cons e rest ih =>
    cases rest with
    | nil => simp [firstOf]
    | cons e' rest =>
      have hchoice : firstOf (e :: e' :: rest) = .choice e (firstOf (e' :: rest)) := rfl
      rw [hchoice, reads_choice_iff, ih]
      simp only [List.mem_cons, exists_eq_or_imp]

/-- The first of several expressions that matches is an expression before which
all fail. -/
theorem matches_firstOf {before : List (Peg Rule)} {e : Peg Rule} {behind : List (Peg Rule)}
    (hbefore : ∀ other ∈ before, sdl.Fails .spaced other c) (h : sdl.Matches .spaced e c d ts) :
    sdl.Matches .spaced (firstOf (before ++ e :: behind)) c d ts := by
  induction before with
  | nil =>
    cases behind with
    | nil => exact h
    | cons other behind => exact matches_choice_iff.mpr (.inl h)
  | cons other before ih =>
    have hrest := ih fun e he => hbefore e (List.mem_cons_of_mem _ he)
    have hother := hbefore other List.mem_cons_self
    cases hbehind : before ++ e :: behind with
    | nil => simp at hbehind
    | cons e' rest =>
      rw [hbehind] at hrest
      rw [List.cons_append, hbehind]
      exact matches_choice_iff.mpr (.inr ⟨hother, hrest⟩)

theorem fails_firstOf {es : List (Peg Rule)} (h : ∀ e ∈ es, sdl.Fails .spaced e c) :
    sdl.Fails .spaced (firstOf es) c := by
  induction es with
  | nil => exact fails_charWhere_iff.mpr fun _ _ => rfl
  | cons e rest ih =>
    have hrest := ih fun e he => h e (List.mem_cons_of_mem _ he)
    cases rest with
    | nil => exact h e List.mem_cons_self
    | cons => exact fails_choice_iff.mpr ⟨h e List.mem_cons_self, hrest⟩

end Choices

section Definitions

variable {c d : Cursor} {ts : List (Tree Rule)}

theorem matches_rule_of_body {r : Rule} (hr : r.isLexeme = false)
    (h : sdl.Matches .spaced (body r) c d ts) :
    sdl.Matches .spaced (.rule r) c d [.node r c.offset (c.textTo d) ts] := by
  refine matches_rule_iff.mpr ⟨ts, ?_, ?_⟩
  · rw [sdl_modeIn hr, sdl_body]
    exact h
  · rw [sdl_node_spaced r c d ts]

theorem mem_keywordRules {r : Rule} (hr : r ∈ typeRules) : r ∈ keywordRules :=
  List.mem_cons_of_mem _ (List.mem_cons_of_mem _ hr)

/-- A rule with a keyword is found where it is read. -/
theorem keywordRule_found {r : Rule} (hr : r ∈ keywordRules) (hc : c.skip .spaced = c)
    (h : Reads (.one (.rule r)) c d ts) (hd : Follows definitionHeads d) :
    sdl.Matches .spaced (.rule r) c d ts := by
  have hpredictive : ∀ r ∈ keywordRules, isPredictive definitionHeads (.rule r) := by
    decide +kernel
  exact Reads.found h (hpredictive r hr) hd hc

/-- A type is found by the first rule for types that matches. -/
theorem matches_typeDefinition {r : Rule} (hr : r ∈ typeRules) (hc : c.skip .spaced = c)
    (hannounces : Announces (keyword r) c) (h : sdl.Matches .spaced (.rule r) c d ts) :
    sdl.Matches .spaced (.rule .typeDefinition) c d
      [.node .typeDefinition c.offset (c.textTo d) ts] := by
  refine matches_rule_of_body rfl ?_
  have hfirst : body .typeDefinition = firstOf (typeRules.map .rule) := rfl
  obtain ⟨before, behind, hsplit⟩ := List.append_of_mem hr
  rw [hfirst, hsplit, List.map_append, List.map_cons]
  refine matches_firstOf (fun other hother => ?_) h
  obtain ⟨r', hr'', rfl⟩ := List.mem_map.mp hother
  have hmem : r' ∈ typeRules := by
    rw [hsplit]
    exact List.mem_append_left _ hr''
  have hne : r ≠ r' := by
    rintro rfl
    have hnodup : typeRules.Nodup := by decide
    rw [hsplit] at hnodup
    exact (List.nodup_append.mp hnodup).2.2 r hr'' r List.mem_cons_self rfl
  exact hannounces.fails_rule (mem_keywordRules hr) (mem_keywordRules hmem) hne hc

theorem typeDefinition_found (hc : c.skip .spaced = c)
    (h : Reads (.one (.rule .typeDefinition)) c d ts) (hd : Follows definitionHeads d) :
    sdl.Matches .spaced (.rule .typeDefinition) c d ts := by
  obtain ⟨us, hbody, rfl⟩ := (reads_rule_iff rfl).mp h
  obtain ⟨e, he, h⟩ := (@reads_firstOf_iff _ _ _ (typeRules.map .rule)).mp hbody
  obtain ⟨r, hr, rfl⟩ := List.mem_map.mp he
  have hr' := mem_keywordRules hr
  exact matches_typeDefinition hr hc (announces_of_reads hr' hc h) (keywordRule_found hr' hc h hd)

theorem typeDefinition_fails {r : Rule} (hr : r ∈ keywordRules) (hr' : r ∉ typeRules)
    (hc : c.skip .spaced = c) (h : Announces (keyword r) c) :
    sdl.Fails .spaced (.rule .typeDefinition) c := by
  refine fails_rule_iff.mpr (@fails_firstOf _ (typeRules.map .rule) fun e he => ?_)
  obtain ⟨r', hmem, rfl⟩ := List.mem_map.mp he
  refine h.fails_rule hr (mem_keywordRules hmem) ?_ hc
  rintro rfl
  exact hr' hmem

theorem announces_of_typeDefinition (hc : c.skip .spaced = c)
    (h : Reads (.one (.rule .typeDefinition)) c d ts) :
    ∃ r ∈ typeRules, Announces (keyword r) c := by
  obtain ⟨us, h, -⟩ := (reads_rule_iff rfl).mp h
  obtain ⟨e, he, h⟩ := (@reads_firstOf_iff _ _ _ (typeRules.map .rule)).mp h
  obtain ⟨r, hr, rfl⟩ := List.mem_map.mp he
  exact ⟨r, hr, announces_of_reads (mem_keywordRules hr) hc h⟩

/-- A definition of a type is found behind the rule for schemas, which fails. -/
theorem matches_definition_of_type {r : Rule} (hr : r ∈ typeRules) (hc : c.skip .spaced = c)
    (hannounces : Announces (keyword r) c)
    (h : sdl.Matches .spaced (.rule .typeDefinition) c d ts) :
    sdl.Matches .spaced (.rule .definition) c d [.node .definition c.offset (c.textTo d) ts] := by
  refine matches_rule_of_body rfl (@matches_firstOf _ _ _ [.rule .schemaDefinition] _
    [.rule .directiveDefinition] ?_ h)
  simp only [List.mem_singleton, forall_eq]
  refine hannounces.fails_rule (mem_keywordRules hr) (by decide) ?_ hc
  rintro rfl
  exact absurd hr (by decide)

/-- A definition is found where it is read. -/
theorem definition_found (hc : c.skip .spaced = c) (h : Reads (.one (.rule .definition)) c d ts)
    (hd : Follows definitionHeads d) : sdl.Matches .spaced (.rule .definition) c d ts := by
  obtain ⟨us, hbody, rfl⟩ := (reads_rule_iff rfl).mp h
  have hfirst : body .definition = firstOf
      [.rule .schemaDefinition, .rule .typeDefinition, .rule .directiveDefinition] := rfl
  rw [hfirst] at hbody
  obtain ⟨e, he, h⟩ := reads_firstOf_iff.mp hbody
  simp only [List.mem_cons, List.not_mem_nil, or_false] at he
  rcases he with rfl | rfl | rfl
  · exact matches_rule_of_body rfl (@matches_firstOf _ _ _ [] _
      [.rule .typeDefinition, .rule .directiveDefinition] (by simp)
        (keywordRule_found (by decide) hc h hd))
  · obtain ⟨r, hr, hannounces⟩ := announces_of_typeDefinition hc h
    exact matches_definition_of_type hr hc hannounces (typeDefinition_found hc h hd)
  · have hannounces := announces_of_reads (r := .directiveDefinition) (by decide) hc h
    refine matches_rule_of_body rfl (@matches_firstOf _ _ _
      [.rule .schemaDefinition, .rule .typeDefinition] _ [] ?_
        (keywordRule_found (by decide) hc h hd))
    simp only [List.mem_cons, List.not_mem_nil, or_false, forall_eq_or_imp, forall_eq]
    exact ⟨hannounces.fails_rule (by decide) (by decide) (by decide) hc,
      typeDefinition_fails (r := .directiveDefinition) (by decide) (by decide) hc hannounces⟩

theorem definition_begins (hc : c.skip .spaced = c)
    (h : Reads (.one (.rule .definition)) c d ts) : definitionHeads.Begin c.rest :=
  Heads.begin_of_within (h := heads (.rule .definition)) (by decide +kernel)
    (Reads.begins h hc rfl)

/-- Definitions that stand one behind the other up to the end of the text, from a
place without blanks or comments on. -/
inductive Definitions : Cursor → List (Tree Rule) → Prop where
  /-- The text ends. -/
  | done {c : Cursor} (hend : c.rest = []) : Definitions c []
  /-- A definition is read, and others behind it. -/
  | next {c d : Cursor} {t ts} (h : Reads (.one (.rule .definition)) c d [t])
      (hrest : Definitions (d.skip .spaced) ts) : Definitions c (t :: ts)

theorem Definitions.follows (h : Definitions (d.skip .spaced) ts) : Follows definitionHeads d := by
  cases h with
  | done hend => exact .inl hend
  | next h _ => exact .inr (definition_begins (Cursor.skip_skip d) h)

theorem definition_fails_at_end (hc : c.rest = []) : sdl.Fails .spaced (.rule .definition) c := by
  refine fails_of_not_begin (by decide +kernel) rfl ?_ ?_
  · rw [Cursor.skip_eq_self_iff, hc]
    rfl
  · rw [hc]
    exact Heads.not_begin_nil

theorem Definitions.repeats (h : Definitions (c.skip .spaced) ts) :
    ∃ d, sdl.Repeats .spaced (.rule .definition) c d ts ∧ (d.skip .spaced).rest = [] := by
  generalize hplace : c.skip .spaced = place at h
  induction h generalizing c with
  | done hend =>
    refine ⟨c, repeats_iff.mpr (.inr ⟨?_, rfl, rfl⟩), by rw [hplace, hend]⟩
    rw [hplace]
    exact definition_fails_at_end hend
  | @next place m t ts h hrest ih =>
    obtain ⟨d, hrepeats, hend⟩ := ih rfl
    subst hplace
    have hfound := definition_found (Cursor.skip_skip c) h hrest.follows
    exact ⟨d, repeats_iff.mpr (.inl ⟨m, [t], ts, hfound, hrepeats, rfl⟩), hend⟩

theorem Definitions.many (h : Definitions c ts) (hc : c.skip .spaced = c) :
    ∃ d, sdl.Matches .spaced (.many (.rule .definition)) c d ts ∧
      (d.skip .spaced).rest = [] := by
  cases h with
  | done hend =>
    refine ⟨c, matches_many_iff.mpr (.inr ⟨definition_fails_at_end hend, rfl, rfl⟩), ?_⟩
    rw [hc, hend]
  | @next _ m t ts h hrest =>
    obtain ⟨d, hrepeats, hend⟩ := hrest.repeats
    have hfound := definition_found hc h hrest.follows
    exact ⟨d, matches_many_iff.mpr (.inl ⟨m, [t], ts, hfound, hrepeats, rfl⟩), hend⟩

/-- Further definitions, read as repetitions up to the end of the text. -/
theorem Definitions.of_more {goal : Goal Rule} (h : Reads goal c d ts)
    (hgoal : goal = .more (.rule .definition)) (hend : (d.skip .spaced).rest = []) :
    Definitions (c.skip .spaced) ts := by
  induction h using Reads.induct with
  | stop => exact .done hend
  | again hfirst _ _ ihmore =>
    cases hgoal
    obtain ⟨us, -, hts⟩ := (reads_rule_iff rfl).mp hfirst
    subst hts
    exact .next hfirst (ihmore rfl hend)
  | _ => cases hgoal

theorem Definitions.of_many (h : Reads (.one (.many (.rule .definition))) c d ts)
    (hc : c.skip .spaced = c) (hend : (d.skip .spaced).rest = []) : Definitions c ts := by
  rcases reads_many_iff.mp h with ⟨m, us, vs, hfirst, hmore, rfl⟩ | ⟨rfl, rfl⟩
  · obtain ⟨_, -, hus⟩ := (reads_rule_iff rfl).mp hfirst
    subst hus
    exact .next hfirst (.of_more hmore rfl hend)
  · rw [hc] at hend
    exact .done hend

theorem definition_rule {t : Tree Rule} (h : Reads (.one (.rule .definition)) c d [t]) :
    t.rule = .definition := by
  obtain ⟨us, -, hts⟩ := (reads_rule_iff rfl).mp h
  cases hts
  rfl

theorem Definitions.rules (h : Definitions c ts) : ∀ t ∈ ts, t.rule = .definition := by
  induction h with
  | done => simp
  | next h _ ih =>
    simp only [List.mem_cons, forall_eq_or_imp]
    exact ⟨definition_rule h, ih⟩

/-- The definitions in a document are its children but the end. -/
theorem childrenOf_definition {start : Nat} {text : List Char} {finish : Tree Rule}
    (hts : ∀ t ∈ ts, t.rule = .definition) (hfinish : finish.rule = .finish) :
    (Tree.node .document start text (ts ++ [finish])).childrenOf .definition = ts := by
  simp only [Tree.childrenOf, Tree.children, List.filter_append]
  rw [List.filter_eq_self.mpr fun t ht => by simp [hts t ht]]
  simp [hfinish]

end Definitions

/-- **Documents are sequences of definitions.**  A text matches as a document with
certain definitions exactly when these can be read in it one behind the other. -/
theorem matches_document_iff {source : List Char} {ts : List (Tree Rule)} :
    (∃ d trees, sdl.Matches .spaced (.rule .document) ⟨0, source⟩ d trees ∧
        trees.flatMap (·.childrenOf .definition) = ts) ↔
      ts ≠ [] ∧ Definitions (Cursor.skip ⟨0, source⟩ .spaced) ts := by
  constructor
  · rintro ⟨d, trees, h, rfl⟩
    obtain ⟨us, hbody, rfl⟩ := (reads_rule_iff rfl).mp (Matches.derives h)
    obtain ⟨s, _, _, hempty, hrest, rfl⟩ := reads_seq_iff.mp hbody
    obtain ⟨hempty, hoffset, rfl⟩ := reads_text_iff.mp hempty
    obtain rfl : s = ⟨0, source⟩ := by
      cases s
      simp_all
    obtain ⟨e, _, _, hdefinitions, hfinish, rfl⟩ := reads_seq_iff.mp hrest
    obtain ⟨finish, hfinished, rfl⟩ := (reads_rule_iff rfl).mp hfinish
    obtain ⟨m, _, ts, hfirst, hmany, rfl⟩ := reads_seq_iff.mp hdefinitions
    obtain ⟨first, -, hnode⟩ := (reads_rule_iff rfl).mp hfirst
    subst hnode
    have hend := (reads_finish_iff.mp hfinished).1
    have hall := Definitions.next hfirst (.of_many hmany (Cursor.skip_skip m) hend)
    have hchildren : ∀ start text (finish : Tree Rule), finish.rule = .finish →
        (Tree.node .document start text ([] ++ ([_] ++ ts ++ [finish]))).childrenOf .definition =
          _ :: ts := fun start text finish hfinish =>
      childrenOf_definition hall.rules hfinish
    rw [List.flatMap_cons, List.flatMap_nil, List.append_nil, hchildren _ _ _ rfl]
    exact ⟨by simp, hall⟩
  · rintro ⟨hne, h⟩
    cases h with
    | done => exact absurd rfl hne
    | @next _ m t ts h hrest =>
      have hfound := definition_found (Cursor.skip_skip _) h hrest.follows
      obtain ⟨d, hmany, hend⟩ := hrest.many (Cursor.skip_skip m)
      have hfinish := matches_rule_of_body (r := .finish) rfl
        (matches_finish_iff.mpr ⟨hend, rfl, rfl⟩)
      have hdocument := matches_rule_of_body (r := .document) (c := ⟨0, source⟩) rfl
        (matches_seq_iff.mpr ⟨_, _, _, matches_text_iff.mpr ⟨rfl, rfl, rfl⟩,
          matches_seq_iff.mpr ⟨_, _, _, matches_seq_iff.mpr ⟨_, _, _, hfound, hmany, rfl⟩,
            hfinish, rfl⟩, rfl⟩)
      refine ⟨_, _, hdocument, ?_⟩
      rw [List.flatMap_cons, List.flatMap_nil, List.append_nil]
      refine @childrenOf_definition (t :: ts) _ _ _ ?_ rfl
      simp only [List.mem_cons, forall_eq_or_imp]
      exact ⟨definition_rule h, hrest.rules⟩

end Grammar

open Grammar

theorem matchDocument_eq_matched_iff {source : List Char} {d : Cursor} {trees : List (Tree Rule)} :
    matchDocument source = .matched d trees ↔
      sdl.Matches .spaced (.rule .document) ⟨0, source⟩ d trees := by
  refine sdl_bounded.run_eq_matched_iff rfl ?_
  have hneed : need mayBeEmptyRule (weightTo 5) (.rule .document) ≤ 1024 := by decide +kernel
  rw [fuelFor, Nat.mul_succ]
  exact Nat.add_le_add_left hneed _

/-- A document is accepted when it is a sequence of definitions that obey the further
rules. -/
theorem parseDocument_eq_ok_iff {source : List Char} {ts : List (Tree Rule)} :
    parseDocument source = .ok ts ↔
      ts ≠ [] ∧ Definitions (Cursor.skip ⟨0, source⟩ .spaced) ts ∧
        ∀ t ∈ ts, checkDefinition t = .ok () := by
  rw [← and_assoc, ← matches_document_iff]
  simp only [← matchDocument_eq_matched_iff]
  unfold parseDocument
  constructor
  · intro h
    split at h
    · rename_i d trees hmatched
      obtain ⟨_, hchecks, h⟩ := bind_eq_ok_iff.mp h
      cases h
      exact ⟨⟨d, trees, hmatched, rfl⟩, forM_eq_ok_iff.mp hchecks⟩
    · cases h
  · rintro ⟨⟨d, trees, hmatched, rfl⟩, hchecks⟩
    rw [hmatched]
    exact bind_eq_ok_iff.mpr ⟨(), forM_eq_ok_iff.mpr hchecks, rfl⟩

end Sdl
end EntitySdl
