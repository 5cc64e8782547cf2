import EntitySdl.Proofs.Changes

/-! # What an emission does

The files of an emission are dealt with one after the other, up to the first that fails.
Each of them is written or kept, and recorded as such.  What stands on the disk afterwards
follows from these marks: nothing has changed but where files were written, and what is
read there is the text of one of them.  Where files may be replaced it is the last that
leads there.  Where they may not it is the first, and nothing that was there is lost.

The latter needs paths that do not go up further than they led.  Whether something is at
`new/../a` is asked while `new` is missing, and the answer is no.  Writing the file then
creates `new`, and replaces `a`.
-/
namespace EntitySdl

namespace Tree

/-- The text of the file at a place, if there is one. -/
def text? (tree : Tree) (place : Place) : Option String :=
  match tree.node? place with
  | some (.file text) => some text
  | _ => none

variable {tree later : Tree} {place : Place} {text : String}

theorem text?_eq_some_iff : tree.text? place = some text ↔
    tree.node? place = some (.file text) := by
  unfold text?
  split
  · rename_i h
    rw [h, Option.some.injEq, Option.some.injEq, Node.file.injEq]
  · rename_i h
    exact ⟨nofun, fun hnode => absurd hnode (h text)⟩

theorem text?_congr (h : tree.node? place = later.node? place) :
    tree.text? place = later.text? place := by
  unfold text?
  rw [h]

theorem text?_put (hplace : place ≠ []) (spot : Place) :
    (tree.put place (.file text)).text? spot =
      if spot = place then some text else tree.text? spot := by
  split
  · rename_i h
    rw [text?_eq_some_iff, node?_put hplace, if_pos h]
  · rename_i h
    exact text?_congr ((node?_put hplace spot).trans (if_neg h))

end Tree

namespace World

variable {world later : World} {path text : String} {place : Place} {paths : List String}

/-- New directories leave all texts as they are. -/
theorem Grows.text? (h : Grows paths world later) (place : Place) :
    later.tree.text? place = world.tree.text? place := by
  rcases h.nodes place with hsame | ⟨hnone, hnew, -⟩
  · exact Tree.text?_congr hsame
  · rw [Tree.text?, Tree.text?, hnone, hnew]

/-- A file is read where the path leads. -/
theorem HasFile.read (h : world.HasFile path place) (htext : world.tree.text? place = some text) :
    world.read path = .ok text := by
  have hfind : world.find path = .ok (place, .file text) :=
    find_eq_ok_iff.mpr ⟨h.1, Tree.text?_eq_some_iff.mp htext, fun _ => h.2.2⟩
  exact bind_eq_ok_iff.mpr ⟨_, hfind, rfl⟩

end World

namespace Generate

/-- Whether a file has been written. -/
def Delivery.isWritten : Delivery → Bool
  | written _ => true
  | kept _ => false

namespace Emitter

open World

variable {emitter : Emitter} {file : OutputFile} {files : List OutputFile}
  {marked : List (OutputFile × Bool)} {world between later : World} {place : Place}
  {deliveries all : Deliveries} {delivery : Delivery} {paths : List String}

/-! ### Marks -/

/-- Files are emitted one after the other, each of them written (`true`) or kept.  A file
that fails behind them may leave new directories at some paths. -/
inductive Delivers (emitter : Emitter) (paths : List String) :
    List (OutputFile × Bool) → World → World → Prop where
  | stop {world later : World} (hgrows : Grows paths world later) :
      Delivers emitter paths [] world later
  | step {file : OutputFile} {marked : List (OutputFile × Bool)} {delivery : Delivery}
      {world between later : World}
      (hemit : Runs (emitter.emit file) world (.ok delivery) between)
      (hrest : Delivers emitter paths marked between later) :
      Delivers emitter paths ((file, delivery.isWritten) :: marked) world later

/-- The paths of the files with a mark. -/
def pathsMarked (emitter : Emitter) (mark : Bool) (marked : List (OutputFile × Bool)) :
    List String :=
  (marked.filter (·.2 == mark)).map fun entry => emitter.pathOf entry.1

/-- What an emission records. -/
def recorded (emitter : Emitter) (deliveries : Deliveries) (marked : List (OutputFile × Bool)) :
    Deliveries where
  written := deliveries.written ++ emitter.pathsMarked true marked
  kept := deliveries.kept ++ emitter.pathsMarked false marked

/-- What has become of a file is known from its mark. -/
theorem add_delivery (h : Emits emitter file world (.ok delivery) later) :
    emitter.recorded (deliveries.add delivery) marked =
      emitter.recorded deliveries ((file, delivery.isWritten) :: marked) := by
  cases h <;> simp [recorded, pathsMarked, Deliveries.add, Delivery.isWritten]

/-- An emission that ends well has dealt with all files. -/
theorem exists_delivers
    (h : Runs (emitter.emitAll files deliveries) world (.ok (), all) between)
    (hgrows : Grows paths between later) :
    ∃ marked, files = marked.map Prod.fst ∧ all = emitter.recorded deliveries marked ∧
      Delivers emitter paths marked world later := by
  induction files generalizing world deliveries with
  | nil =>
    obtain ⟨hanswer, rfl⟩ := runs_pure_iff.mp h
    cases hanswer
    exact ⟨[], rfl, by simp [recorded, pathsMarked], .stop hgrows⟩
  | cons file files ih =>
    rcases runs_emitAll_cons_iff.mp h with ⟨_, -, hanswer⟩ | ⟨delivery, next, hfile, hrest⟩
    · cases hanswer
    · obtain ⟨marked, rfl, rfl, hmarked⟩ := ih hrest
      exact ⟨_, rfl, add_delivery (emits_of_runs hfile), .step hfile hmarked⟩

namespace Delivers

theorem toExtends (h : Delivers emitter paths marked world later) : world.Extends later := by
  induction h with
  | stop hgrows => exact hgrows.toExtends
  | step hemit _ ih => exact (emits_of_runs hemit).toExtends.trans ih

/-- Files that have been written are there. -/
theorem hasFile (h : Delivers emitter paths marked world later) (hfile : (file, true) ∈ marked) :
    ∃ place, later.HasFile (emitter.pathOf file) place := by
  induction h with
  | stop => cases hfile
  | @step _ _ delivery _ _ _ hemit hrest ih =>
    rcases List.mem_cons.mp hfile with heq | hmem
    · obtain ⟨rfl, hwritten⟩ := Prod.mk.inj heq
      cases emits_of_runs hemit with
      | kept => cases hwritten
      | written _ hholder htarget =>
        exact ⟨_, hrest.toExtends.hasFile (isRewritable_put hholder htarget).file⟩
    · exact ih hmem

/-- No file is kept where all may be replaced. -/
theorem pathsMarked_false (hoverwrite : emitter.overwrite = true)
    (h : Delivers emitter paths marked world later) : emitter.pathsMarked false marked = [] := by
  induction h with
  | stop => rfl
  | step hemit _ ih =>
    cases emits_of_runs hemit with
    | kept hkept =>
      rw [hoverwrite] at hkept
      cases hkept
    | written => exact ih

/-- Nothing changes where no file is written. -/
theorem text? (h : Delivers emitter paths marked world later)
    (haway : ∀ file, (file, true) ∈ marked → later.locate (emitter.pathOf file) ≠ .ok place) :
    later.tree.text? place = world.tree.text? place := by
  induction h with
  | stop hgrows => exact hgrows.text? place
  | @step file _ _ _ _ _ hemit hrest ih =>
    rw [ih fun other hother => haway other (List.mem_cons_of_mem _ hother)]
    cases emits_of_runs hemit with
    | kept => rfl
    | @written between spot hgrows hholder htarget =>
      have hspot : IsRewritable (between.put spot (.file file.content)) (emitter.pathOf file)
        spot := isRewritable_put hholder htarget
      have hne : place ≠ spot := by
        rintro rfl
        exact haway file List.mem_cons_self (hrest.toExtends.locate hspot.file.1)
      rw [← hgrows.text? place]
      exact (Tree.text?_put (ne_nil_of_target htarget) place).trans (if_neg hne)

end Delivers

/-! ### Texts -/

/-- Whether a file's path leads to a place. -/
def leadsTo (emitter : Emitter) (world : World) (place : Place) (file : OutputFile) : Bool :=
  world.locate (emitter.pathOf file) = .ok place

/-- What stands at a place where files may be replaced: the text of the last that has been
written there. -/
theorem Delivers.text?_last (hoverwrite : emitter.overwrite = true)
    (h : Delivers emitter paths marked world later) {last : OutputFile}
    (hlast : (marked.map Prod.fst).reverse.find? (emitter.leadsTo later place) = some last) :
    later.tree.text? place = some last.content := by
  induction h with
  | stop => cases hlast
  | @step file marked _ _ _ later hemit hrest ih =>
    rw [List.map_cons, List.reverse_cons, List.find?_append] at hlast
    cases hbehind : (marked.map Prod.fst).reverse.find? (emitter.leadsTo later place) with
    | some other =>
      rw [hbehind] at hlast
      cases hlast
      exact ih hbehind
    | none =>
      -- no file behind it leads there, so its text stays
      rw [hbehind, Option.none_or, List.find?_singleton] at hlast
      split at hlast
      · rename_i hleads
        cases hlast
        rw [hrest.text? fun other hother heq => ?_]
        · cases emits_of_runs hemit with
          | kept hkept =>
            rw [hoverwrite] at hkept
            cases hkept
          | @written between spot _ hholder htarget =>
            have hspot : IsRewritable (between.put spot (.file file.content)) (emitter.pathOf file)
              spot := isRewritable_put hholder htarget
            have hlocate := hrest.toExtends.locate hspot.file.1
            rw [of_decide_eq_true hleads, Except.ok.injEq] at hlocate
            subst hlocate
            exact (Tree.text?_put (ne_nil_of_target htarget) place).trans (if_pos rfl)
        · refine List.find?_eq_none.mp hbehind other ?_ (decide_eq_true heq)
          exact List.mem_reverse.mpr (List.mem_map_of_mem hother)
      · cases hlast

/-- A file is written where nothing is, if files are kept and its path does not go up
further than it leads. -/
theorem node?_eq_none_of_written (hoverwrite : emitter.overwrite = false)
    (hclosed : world.tree.IsClosed) (hdescends : world.Descends (emitter.pathOf file))
    {path : String} (h : Runs (emitter.emit file) world (.ok (.written path)) later)
    (hlocate : later.locate (emitter.pathOf file) = .ok place) :
    world.tree.node? place = none := by
  by_contra hthere
  have hemits := emits_of_runs h
  obtain ⟨spot, node, hfind, -⟩ := hemits.exists_changesAt
  have hspot := (find_eq_ok_iff.mp hfind).1
  rw [hlocate, Except.ok.injEq] at hspot
  subst hspot
  have hhas := hdescends.has hclosed hemits.toExtends hfind (Option.isSome_iff_ne_none.mpr hthere)
  obtain ⟨hanswer, -⟩ := h.unique (runs_emit_kept hoverwrite hhas)
  cases hanswer

/-- The files that have been written where a path leads did not go up further than they
led. -/
def DescendTo (emitter : Emitter) (marked : List (OutputFile × Bool)) (world later : World)
    (place : Place) : Prop :=
  ∀ file, (file, true) ∈ marked → later.locate (emitter.pathOf file) = .ok place →
    world.Descends (emitter.pathOf file)

/-- What stands at a place where files are kept: the text that stood there, or else the
text of the first that has been written there. -/
theorem Delivers.text?_first (hoverwrite : emitter.overwrite = false)
    (hclosed : world.tree.IsClosed) (h : Delivers emitter paths marked world later)
    (hdescend : DescendTo emitter marked world later place) :
    (∀ text, world.tree.text? place = some text → later.tree.text? place = some text) ∧
    ∀ file, (file, true) ∈ marked → later.locate (emitter.pathOf file) = .ok place →
      world.tree.node? place = none ∧
      ∃ first, (marked.map Prod.fst).find? (emitter.leadsTo later place) = some first ∧
        later.tree.text? place = some first.content := by
  induction h with
  | stop hgrows => exact ⟨fun _ htext => (hgrows.text? place).trans htext, nofun⟩
  | @step file marked delivery world between later hemit hrest ih =>
    have hemits := emits_of_runs hemit
    have hextends := hemits.toExtends
    obtain ⟨hold, hfirst⟩ := ih (hemits.closed hclosed) fun other hother hlocate =>
      hextends.descends (hdescend other (List.mem_cons_of_mem _ hother) hlocate)
    rw [List.map_cons]
    cases hemits with
    | kept _ hpath =>
      refine ⟨hold, fun other hother hlocate => ?_⟩
      rcases List.mem_cons.mp hother with heq | hmem
      · cases (Prod.mk.inj heq).2
      · obtain ⟨hnone, first, hfind, htext⟩ := hfirst other hmem hlocate
        refine ⟨hnone, first, ?_, htext⟩
        -- what is kept is there, where nothing stands at the place
        obtain ⟨⟨spot, node⟩, hfound⟩ := hpath
        obtain ⟨hspot, hnode, -⟩ := find_eq_ok_iff.mp hfound
        have hne : emitter.leadsTo later place file = false := by
          refine decide_eq_false fun heq => ?_
          rw [hrest.toExtends.locate hspot, Except.ok.injEq] at heq
          subst heq
          rw [hnone] at hnode
          cases hnode
        rw [List.find?_cons_of_neg (by simp [hne]), hfind]
    | @written grown spot hgrows hholder htarget =>
      have hspot : IsRewritable (grown.put spot (.file file.content)) (emitter.pathOf file)
        spot := isRewritable_put hholder htarget
      have hlocated := hrest.toExtends.locate hspot.file.1
      have htext : ∀ other, (grown.put spot (.file file.content)).tree.text? other =
          if other = spot then some file.content else world.tree.text? other := fun other => by
        rw [← hgrows.text? other]
        exact Tree.text?_put (ne_nil_of_target htarget) other
      by_cases hplace : spot = place
      · -- this is the first file there
        subst hplace
        have hnone := node?_eq_none_of_written hoverwrite hclosed
          (hdescend file List.mem_cons_self hlocated) hemit hspot.file.1
        have hkept := hold file.content ((htext spot).trans (if_pos rfl))
        refine ⟨fun text hthere => ?_, fun _ _ _ => ⟨hnone, file, ?_, hkept⟩⟩
        · rw [Tree.text?, hnone] at hthere
          cases hthere
        · exact List.find?_cons_of_pos (decide_eq_true hlocated)
      · have hne : emitter.leadsTo later place file = false :=
          decide_eq_false fun heq => hplace (Except.ok.inj (hlocated.symm.trans heq))
        refine ⟨fun text hthere => hold text ?_, fun other hother hlocate => ?_⟩
        · exact (htext place).trans ((if_neg (Ne.symm hplace)).trans hthere)
        · rcases List.mem_cons.mp hother with heq | hmem
          · obtain ⟨rfl, -⟩ := Prod.mk.inj heq
            exact absurd (Except.ok.inj (hlocated.symm.trans hlocate)) hplace
          · obtain ⟨hnone, first, hfind, hcontent⟩ := hfirst other hmem hlocate
            refine ⟨?_, first, ?_, hcontent⟩
            · by_contra hthere
              have hlater := hextends.tree.isSome_node? (Option.isSome_iff_ne_none.mpr hthere)
              rw [hnone] at hlater
              cases hlater
            · rw [List.find?_cons_of_neg (by simp [hne]), hfind]

/-- At the path of a file, the text of the first of some files is read that lead to the same
place. -/
def HoldsFirst (emitter : Emitter) (files : List OutputFile) (world : World) (file : OutputFile) :
    Prop :=
  ∃ place first, world.locate (emitter.pathOf file) = .ok place ∧
    files.find? (emitter.leadsTo world place) = some first ∧
    world.read (emitter.pathOf file) = .ok first.content

/-- **What an emission does.**  All files have been dealt with, or those before one that
failed: each has been written or kept, and is recorded there, in order.  Nothing has
changed but where files were written.  If files may be replaced, none is kept, and the
last that leads to a place is read there.  If they may not, no text is lost that stood at
a place, and the first that leads there is read where one has been written, unless one
written there has gone up further than it led. -/
theorem emitAll_effect {answer : Except Fault Unit} (hclosed : world.tree.IsClosed)
    (h : Runs (emitter.emitAll files deliveries) world (answer, all) later) :
    ∃ marked : List (OutputFile × Bool),
      (answer = .ok () ∧ files = marked.map Prod.fst ∨
        ∃ fault failing behind between, answer = .error fault ∧
          files = marked.map Prod.fst ++ failing :: behind ∧
          Runs (emitter.emitAll (marked.map Prod.fst) deliveries) world (.ok (), all) between ∧
          Runs (emitter.emit failing) between (.error fault) later) ∧
      all.written = deliveries.written ++ emitter.pathsMarked true marked ∧
      all.kept = deliveries.kept ++ emitter.pathsMarked false marked ∧
      (∀ place,
        (∀ file, (file, true) ∈ marked → later.locate (emitter.pathOf file) ≠ .ok place) →
        later.tree.text? place = world.tree.text? place) ∧
      (emitter.overwrite = true → all.kept = deliveries.kept ∧
        ∀ file, (file, true) ∈ marked →
          emitter.HoldsFirst (marked.map Prod.fst).reverse later file) ∧
      (emitter.overwrite = false → ∀ place, emitter.DescendTo marked world later place →
        (∀ text, world.tree.text? place = some text → later.tree.text? place = some text) ∧
        ∀ file, (file, true) ∈ marked → later.locate (emitter.pathOf file) = .ok place →
          emitter.HoldsFirst (marked.map Prod.fst) later file) := by
  have hends : ∃ marked, (answer = .ok () ∧ files = marked.map Prod.fst ∨
        ∃ fault failing behind between, answer = .error fault ∧
          files = marked.map Prod.fst ++ failing :: behind ∧
          Runs (emitter.emitAll (marked.map Prod.fst) deliveries) world (.ok (), all) between ∧
          Runs (emitter.emit failing) between (.error fault) later) ∧
      all = emitter.recorded deliveries marked ∧
      ∃ paths, Delivers emitter paths marked world later := by
    cases answer with
    | ok =>
      obtain ⟨marked, hfiles, hall, hmarked⟩ := exists_delivers h (.refl [] later)
      exact ⟨marked, .inl ⟨rfl, hfiles⟩, hall, [], hmarked⟩
    | error fault =>
      obtain ⟨before, failing, behind, between, rfl, hbefore, hfailing⟩ :=
        exists_of_emitAll_error h
      cases emits_of_runs hfailing with
      | failed hgrows =>
        obtain ⟨marked, rfl, hall, hmarked⟩ := exists_delivers hbefore hgrows
        exact ⟨marked, .inr ⟨fault, failing, behind, between, rfl, rfl, hbefore, hfailing⟩, hall,
          _, hmarked⟩
  obtain ⟨marked, hend, rfl, _, hmarked⟩ := hends
  refine ⟨marked, hend, rfl, rfl, fun place => hmarked.text?, fun hoverwrite => ⟨?_, ?_⟩,
    fun hoverwrite place hdescend => ?_⟩
  · rw [recorded, hmarked.pathsMarked_false hoverwrite, List.append_nil]
  · intro file hfile
    obtain ⟨place, hthere⟩ := hmarked.hasFile hfile
    have hsome : ((marked.map Prod.fst).reverse.find? (emitter.leadsTo later place)).isSome :=
      List.find?_isSome.mpr ⟨file, List.mem_reverse.mpr (List.mem_map_of_mem hfile),
        decide_eq_true hthere.1⟩
    obtain ⟨last, hlast⟩ := Option.isSome_iff_exists.mp hsome
    exact ⟨place, last, hthere.1, hlast, hthere.read (hmarked.text?_last hoverwrite hlast)⟩
  · obtain ⟨hold, hfirst⟩ := hmarked.text?_first hoverwrite hclosed hdescend
    refine ⟨hold, fun file hfile hlocate => ?_⟩
    obtain ⟨-, first, hfind, htext⟩ := hfirst file hfile hlocate
    obtain ⟨spot, hthere⟩ := hmarked.hasFile hfile
    obtain rfl := Except.ok.inj (hlocate.symm.trans hthere.1)
    exact ⟨_, first, hlocate, hfind, hthere.read htext⟩

/-- A directory with one file. -/
def drawer : World := { tree := ⟨[(["a"], .file "old")]⟩ }

/-- Files of which the first is there already, the third repeats the second, and the last
cannot be written, since `a` is not a directory. -/
def drawerFiles : List OutputFile :=
  [⟨"a", .sdl, "new"⟩, ⟨"b", .sdl, "first"⟩, ⟨"b", .sdl, "second"⟩,
    ⟨"a/c", .sdl, "third"⟩]

theorem emitAll_drawer : drawer.tree.IsClosed ∧ ∃ fault later,
    Runs ((Emitter.mk "" false).emitAll drawerFiles {}) drawer
      (.error fault, ⟨["b"], ["a", "b"]⟩) later ∧ later.tree.text? ["a"] = some "old" := by
  have hclosed : drawer.tree.IsClosed := by decide
  have hrecords : (((Emitter.mk "" false).emitAll drawerFiles {} : StateM World _) drawer).1.2 =
      ⟨["b"], ["a", "b"]⟩ := by decide +kernel
  have hfails : (((Emitter.mk "" false).emitAll drawerFiles {} : StateM World _) drawer).1.1 ≠
      .ok () := by decide +kernel
  obtain ⟨⟨answer, all⟩, later, h⟩ := exists_runs ((Emitter.mk "" false).emitAll drawerFiles {})
    drawer
  rw [h] at hrecords hfails
  obtain rfl : all = ⟨["b"], ["a", "b"]⟩ := hrecords
  obtain ⟨marked, hend, -, -, -, -, hkeeps⟩ := emitAll_effect hclosed h
  cases answer with
  | ok => exact absurd rfl hfails
  | error fault =>
    refine ⟨hclosed, fault, later, h, (hkeeps rfl ["a"] fun file hfile _ => ?_).1 _ rfl⟩
    have hmem : file ∈ drawerFiles := by
      rcases hend with ⟨hanswer, -⟩ | ⟨_, _, _, _, -, hfiles, -⟩
      · cases hanswer
      · rw [hfiles]
        exact List.mem_append_left _ (List.mem_map_of_mem hfile)
    exact descends_of_dots ((by decide +kernel : ∀ file ∈ drawerFiles,
      ".." ∉ Tree.pieces ((Emitter.mk "" false).pathOf file)) file hmem)

/-- A path that goes up further than it leads replaces a file, even though files are
kept. -/
example : (((Emitter.mk "" false).emitAll [⟨"new/../a", .sdl, "new"⟩] {} : StateM World _)
    drawer).2.tree.text? ["a"] = some "new" := by decide +kernel

end Emitter
end Generate
end EntitySdl
