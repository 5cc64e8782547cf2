import EntitySdl.Command.Sources
import EntitySdl.Proofs.Changes
import EntitySdl.Proofs.Listings

/-! # Merging files again

A merge that ends well changes a world at one place at most, that of its output, and
adds the directories around it.  The same merge run again leaves out what stands at that
place, and finds and reads all other documents as before.  So it ends well and changes
nothing, unless the first run had merged a document from that very place.  That can be:
the output is left out where its path leads somewhere, but a path that goes up again
from a directory that is missing leads nowhere until the directory has been created.
-/
namespace EntitySdl

namespace Command

open Generate World

variable {world later : World} {place base : Place} {excluded : Option Place}
  {path output text : String} {paths documents : List String} {idScalar : IdScalar}
  {overwrite : Bool}

/-! ### Documents that are found -/

/-- Documents without those that are found at a place. -/
def without (world : World) (place : Place) (documents : List String) : List String :=
  documents.filter fun document => world.locate document ≠ .ok place

/-- The documents that a path stands for in a world. -/
inductive Collects (excluded : Option Place) (world : World) (path : String) :
    List String → Prop where
  /-- The path is that of a file. -/
  | file {place : Place} {content : String} (hfind : world.find path = .ok (place, .file content)) :
      Collects excluded world path (if excluded = some place then [] else [path])
  /-- The path is that of a directory. -/
  | directory {place : Place} (hfind : world.find path = .ok (place, .directory)) :
      Collects excluded world path
        (documentsAmong path place excluded (world.tree.filesBelow place))

theorem runs_collectOne_iff : Runs (collectOne excluded path) world (.ok documents) later ↔
    later = world ∧ Collects excluded world path documents := by
  rw [collectOne, runs_bind_iff]
  constructor
  · rintro ⟨found, _, hfound, h⟩
    obtain ⟨rfl, rfl⟩ := (runs_find path _).unique hfound
    rename_i world
    cases hfind : world.find path with
    | error why =>
      rw [hfind] at h
      cases (runs_pure_iff.mp h).1
    | ok there =>
      obtain ⟨place, node⟩ := there
      rw [hfind] at h
      cases node with
      | file content =>
        obtain ⟨hanswer, rfl⟩ := runs_pure_iff.mp h
        cases hanswer
        exact ⟨rfl, .file hfind⟩
      | directory =>
        obtain ⟨files, between, hfiles, h⟩ := runs_bind_iff.mp h
        obtain ⟨rfl, rfl⟩ := (runs_filesBelow hfind).unique hfiles
        obtain ⟨hanswer, rfl⟩ := runs_pure_iff.mp h
        cases hanswer
        exact ⟨rfl, .directory hfind⟩
  · rintro ⟨rfl, hcollects⟩
    refine ⟨_, _, runs_find path _, ?_⟩
    cases hcollects with
    | file hfind =>
      rw [hfind]
      exact runs_pure_iff.mpr ⟨rfl, rfl⟩
    | directory hfind =>
      rw [hfind]
      exact runs_bind_iff.mpr ⟨_, _, runs_filesBelow hfind, runs_pure_iff.mpr ⟨rfl, rfl⟩⟩

theorem runs_collectFrom_cons_iff :
    Runs (collectFrom excluded (path :: paths)) world (.ok documents) later ↔
      ∃ first rest, Collects excluded world path first ∧
        Runs (collectFrom excluded paths) world (.ok rest) later ∧ documents = first ++ rest := by
  rw [collectFrom, runs_bind_iff]
  constructor
  · rintro ⟨first, between, hfirst, h⟩
    cases first with
    | error => cases (runs_pure_iff.mp h).1
    | ok first =>
      obtain ⟨rfl, hcollects⟩ := runs_collectOne_iff.mp hfirst
      obtain ⟨rest, _, hrest, h⟩ := runs_bind_iff.mp h
      obtain ⟨hanswer, rfl⟩ := runs_pure_iff.mp h
      obtain ⟨rest, rfl, rfl⟩ := map_eq_ok_iff.mp hanswer.symm
      exact ⟨first, rest, hcollects, hrest, rfl⟩
  · rintro ⟨first, rest, hfirst, hrest, rfl⟩
    refine ⟨_, _, runs_collectOne_iff.mpr ⟨rfl, hfirst⟩, ?_⟩
    exact runs_bind_iff.mpr ⟨_, _, hrest, runs_pure_iff.mpr ⟨rfl, rfl⟩⟩

/-- The place that is left out when an output is given. -/
def outputPlace (world : World) (output : String) : Option Place :=
  (world.find output).toOption.map Prod.fst

theorem runs_collect_iff {answer : Except Failure (List String)} :
    Runs (collect paths (some output)) world answer later ↔
      Runs (collectFrom (outputPlace world output) paths) world answer later := by
  have hplace : ((world.find output).toOption.map fun found =>
      Found.mk found.1 found.2.kind).map (·.place) = outputPlace world output := by
    rw [Option.map_map]
    rfl
  rw [collect, runs_bind_iff, ← hplace]
  constructor
  · rintro ⟨found, between, hfound, h⟩
    obtain ⟨rfl, rfl⟩ := (runs_find output _).unique hfound
    exact h
  · exact fun h => ⟨_, _, runs_find output _, h⟩

/-! ### Documents that are found again -/

/-- The documents below a directory are found again, all but the one at the place that is
left out. -/
theorem documentsAmong_again (hclosed : later.tree.IsClosed) (hnamed : world.tree.IsNamed)
    (hchanges : ChangesAt place world later) (hexcluded : ∀ other ∈ excluded, other = place)
    (hlocate : later.locate path = .ok base) :
    documentsAmong path base (some place) (later.tree.filesBelow base) =
      without later place (documentsAmong path base excluded (world.tree.filesBelow base)) := by
  have hkept : (fun names => some place != some (base ++ names)) =
      fun names => base ++ names != place :=
    funext fun names => Bool.eq_iff_iff.mpr (by
      rw [bne_iff_ne, bne_iff_ne, ne_comm, Ne, Ne, Option.some_inj])
  rw [without, documentsAmong, documentsAmong, hkept,
    Tree.filter_filesBelow_congr hchanges.files, List.filter_filterMap,
    List.filterMap_filter, List.filterMap_filter]
  refine List.filterMap_congr fun names hnames => ?_
  have hfile := Tree.mem_filesBelow_iff.mp hnames
  have hfound : later.locate (names.foldl Path.join path) = .ok (base ++ names) := by
    refine locate_foldl_join hclosed hlocate (fun name hname => ?_) ?_
    · exact hnamed.of_mem_files hfile name (List.mem_append_right _ hname)
    · exact hchanges.kinds.tree.isSome_node? (Tree.isSome_node?_of_mem_files hfile)
  by_cases hplace : base ++ names = place
  · rw [hplace] at hfound ⊢
    by_cases hdocument : isDocument (names.foldl Path.join path) <;>
      simp [hdocument, hfound, Option.filter]
  · have hkeeps : excluded ≠ some (base ++ names) := fun h => hplace (hexcluded _ h)
    by_cases hdocument : isDocument (names.foldl Path.join path) <;>
      simp [hdocument, hfound, hplace, hkeeps, Option.filter]

/-- The documents of a path are found again, all but the one at the place that is left
out. -/
theorem Collects.again (h : Collects excluded world path documents)
    (hclosed : later.tree.IsClosed) (hnamed : world.tree.IsNamed)
    (hchanges : ChangesAt place world later) (hexcluded : ∀ other ∈ excluded, other = place) :
    Collects (some place) later path (without later place documents) := by
  cases h with
  | @file other content hfind =>
    obtain ⟨hlocate, hnode, hasks⟩ := find_eq_ok_iff.mp hfind
    have hfile : world.HasFile path other :=
      ⟨hlocate, Tree.kind?_of_node? hnode, hasks rfl⟩
    obtain ⟨hlater, hkind, -⟩ := hchanges.kinds.hasFile hfile
    obtain ⟨there, hthere⟩ := exists_file_of_kind? hkind
    have hfound : later.find path = .ok (other, .file there) :=
      find_eq_ok_iff.mpr ⟨hlater, hthere, fun _ => hasks rfl⟩
    have hdocuments : without later place (if excluded = some other then [] else [path]) =
        if some place = some other then [] else [path] := by
      by_cases hother : other = place
      · subst hother
        split <;> simp [without, hlater]
      · have hkeeps : excluded ≠ some other := fun h => hother (hexcluded _ h)
        simp [without, hlater, hother, hkeeps, Ne.symm hother]
    rw [hdocuments]
    exact .file hfound
  | @directory base hfind =>
    obtain ⟨hlocate, hnode, -⟩ := find_eq_ok_iff.mp hfind
    have hlater := hchanges.kinds.locate hlocate
    rw [← documentsAmong_again hclosed hnamed hchanges hexcluded hlater]
    exact .directory (find_eq_ok_iff.mpr ⟨hlater, hchanges.kinds.tree.directory hnode, nofun⟩)

theorem runs_collectFrom_again (h : Runs (collectFrom excluded paths) world (.ok documents) world)
    (hclosed : later.tree.IsClosed) (hnamed : world.tree.IsNamed)
    (hchanges : ChangesAt place world later) (hexcluded : ∀ other ∈ excluded, other = place) :
    Runs (collectFrom (some place) paths) later (.ok (without later place documents)) later := by
  induction paths generalizing documents with
  | nil =>
    cases (runs_pure_iff.mp h).1
    exact runs_pure_iff.mpr ⟨rfl, rfl⟩
  | cons path paths ih =>
    obtain ⟨first, rest, hfirst, hrest, rfl⟩ := runs_collectFrom_cons_iff.mp h
    exact runs_collectFrom_cons_iff.mpr ⟨_, _,
      hfirst.again hclosed hnamed hchanges hexcluded, ih hrest, List.filter_append ..⟩

/-- **Documents that are found again.**  After a change at the place that the output leads
to, the same documents are found again, without those at that place. -/
theorem runs_collect_again {node : Node}
    (h : Runs (collect paths (some output)) world (.ok documents) world)
    (hclosed : later.tree.IsClosed) (hnamed : world.tree.IsNamed)
    (hchanges : ChangesAt place world later) (hfind : later.find output = .ok (place, node)) :
    Runs (collect paths (some output)) later (.ok (without later place documents)) later := by
  rw [runs_collect_iff] at h ⊢
  have hplace : outputPlace later output = some place := by
    rw [outputPlace, hfind]
    rfl
  rw [hplace]
  refine runs_collectFrom_again h hclosed hnamed hchanges fun other hother => ?_
  -- where the output led somewhere before, it leads there still
  obtain ⟨⟨found, there⟩, hbefore, rfl⟩ := Option.map_eq_some_iff.mp hother
  cases hworld : world.find output with
  | error =>
    rw [hworld] at hbefore
    cases hbefore
  | ok =>
    rw [hworld] at hbefore
    cases hbefore
    have hlocate := hchanges.kinds.locate (find_eq_ok_iff.mp hworld).1
    rw [(find_eq_ok_iff.mp hfind).1] at hlocate
    exact (Except.ok.inj hlocate).symm

/-- Nothing is found where the output leads. -/
theorem without_eq_self {node : Node}
    (h : Runs (collect paths (some output)) world (.ok documents) world)
    (hclosed : world.tree.IsClosed) (hnamed : world.tree.IsNamed)
    (hfind : world.find output = .ok (place, node)) : without world place documents = documents := by
  have hagain := runs_collect_again h hclosed hnamed (.refl place world) hfind
  exact Except.ok.inj (h.unique hagain).1

/-! ### Documents that are read again -/

/-- A document is read from a file of a world. -/
def Reads (world : World) (path : String) (fragment : Sdl.Fragment) : Prop :=
  ∃ source, world.read path = .ok source ∧ Sdl.Fragment.parse path source = .ok fragment

theorem runs_readFragment_iff {fragment : Sdl.Fragment} :
    Runs (readFragment path) world (.ok fragment) later ↔
      later = world ∧ Reads world path fragment := by
  rw [readFragment, runs_bind_iff]
  constructor
  · rintro ⟨answer, _, hanswer, h⟩
    obtain ⟨rfl, rfl⟩ := (runs_read path _).unique hanswer
    rename_i world
    cases hsource : world.read path with
    | error =>
      rw [hsource] at h
      cases (runs_pure_iff.mp h).1
    | ok source =>
      rw [hsource] at h
      obtain ⟨hfragment, rfl⟩ := runs_pure_iff.mp h
      exact ⟨rfl, source, hsource, mapError_eq_ok_iff.mp hfragment.symm⟩
  · rintro ⟨rfl, source, hsource, hfragment⟩
    refine ⟨_, _, runs_read path _, ?_⟩
    rw [hsource]
    exact runs_pure_iff.mpr ⟨(mapError_eq_ok_iff.mpr hfragment).symm, rfl⟩

theorem runs_readFragments_iff {fragments : List Sdl.Fragment} :
    Runs (readFragments paths) world (.ok fragments) later ↔
      later = world ∧ List.Forall₂ (Reads world) paths fragments := by
  induction paths generalizing fragments with
  | nil =>
    rw [readFragments, runs_pure_iff, List.forall₂_nil_left_iff, and_comm, Except.ok.injEq]
  | cons path paths ih =>
    rw [readFragments, runs_bind_iff]
    constructor
    · rintro ⟨answer, _, hfirst, h⟩
      cases answer with
      | error => cases (runs_pure_iff.mp h).1
      | ok fragment =>
        obtain ⟨rfl, hfirst⟩ := runs_readFragment_iff.mp hfirst
        obtain ⟨answer, _, hrest, h⟩ := runs_bind_iff.mp h
        obtain ⟨hanswer, rfl⟩ := runs_pure_iff.mp h
        obtain ⟨rest, rfl, rfl⟩ := map_eq_ok_iff.mp hanswer.symm
        obtain ⟨rfl, hrest⟩ := ih.mp hrest
        exact ⟨rfl, .cons hfirst hrest⟩
    · rintro ⟨rfl, _ | ⟨hfirst, hrest⟩⟩
      refine ⟨_, _, runs_readFragment_iff.mpr ⟨rfl, hfirst⟩, ?_⟩
      exact runs_bind_iff.mpr ⟨_, _, ih.mpr ⟨rfl, hrest⟩, runs_pure_iff.mpr ⟨rfl, rfl⟩⟩

theorem runs_mergeFiles_iff : Runs (mergeFiles paths idScalar) world (.ok text) later ↔
    later = world ∧ ∃ fragments, List.Forall₂ (Reads world) paths fragments ∧
      Sdl.merge fragments idScalar = text := by
  rw [mergeFiles, runs_bind_iff]
  constructor
  · rintro ⟨answer, between, hread, h⟩
    obtain ⟨hanswer, rfl⟩ := runs_pure_iff.mp h
    obtain ⟨fragments, rfl, htext⟩ := map_eq_ok_iff.mp hanswer.symm
    obtain ⟨rfl, hfragments⟩ := runs_readFragments_iff.mp hread
    exact ⟨rfl, fragments, hfragments, htext⟩
  · rintro ⟨rfl, fragments, hfragments, rfl⟩
    exact ⟨_, _, runs_readFragments_iff.mpr ⟨rfl, hfragments⟩, runs_pure_iff.mpr ⟨rfl, rfl⟩⟩

theorem exists_reads_filter {fragments : List Sdl.Fragment} (keeps : String → Bool)
    (h : List.Forall₂ (Reads world) documents fragments) :
    ∃ kept, List.Forall₂ (fun document fragment => Reads world document fragment ∧
      keeps document = true) (documents.filter keeps) kept := by
  induction h with
  | nil => exact ⟨[], .nil⟩
  | @cons document fragment _ _ hfirst _ ih =>
    obtain ⟨kept, hkept⟩ := ih
    rw [List.filter_cons]
    split
    · rename_i hkeeps
      exact ⟨fragment :: kept, .cons ⟨hfirst, hkeeps⟩ hkept⟩
    · exact ⟨kept, hkept⟩

/-- The documents that are not at a place are merged as before, when nothing but that
place has changed. -/
theorem exists_runs_mergeFiles_again (hchanges : ChangesAt place world later)
    (h : Runs (mergeFiles documents idScalar) world (.ok text) world) :
    ∃ kept, Runs (mergeFiles (without later place documents) idScalar) world (.ok kept) world ∧
      Runs (mergeFiles (without later place documents) idScalar) later (.ok kept) later := by
  obtain ⟨-, fragments, hfragments, -⟩ := runs_mergeFiles_iff.mp h
  obtain ⟨kept, hkept⟩ :=
    exists_reads_filter (fun document => later.locate document ≠ .ok place) hfragments
  refine ⟨Sdl.merge kept idScalar, ?_, ?_⟩
  · exact runs_mergeFiles_iff.mpr ⟨rfl, kept, hkept.imp fun _ _ h => h.1, rfl⟩
  · refine runs_mergeFiles_iff.mpr ⟨rfl, kept, hkept.imp ?_, rfl⟩
    rintro document fragment ⟨⟨source, hread, hparse⟩, haway⟩
    exact ⟨source, hchanges.read (of_decide_eq_true haway) hread, hparse⟩

/-! ### Merging again -/

/-- The emitter of a merge, and the file that it writes. -/
def emitOutput (output : String) (overwrite : Bool) (text : String) :
    StateM World (Except Fault Delivery) :=
  Emitter.emit ⟨"", overwrite⟩ ⟨output, .sdl, text⟩

theorem exists_runs_deliver_iff {count : Nat} :
    (∃ report, Runs (deliver count (some output) overwrite text) world (.ok report) later) ↔
      ∃ delivery, Runs (emitOutput output overwrite text) world (.ok delivery) later := by
  constructor
  · rintro ⟨report, h⟩
    obtain ⟨answer, between, hemit, h⟩ := runs_bind_iff.mp h
    rcases answer with fault | delivery
    · cases (runs_pure_iff.mp h).1
    · cases delivery with
      | written =>
        obtain ⟨-, rfl⟩ := runs_pure_iff.mp h
        exact ⟨_, hemit⟩
      | kept =>
        obtain ⟨-, rfl⟩ := runs_pure_iff.mp h
        exact ⟨_, hemit⟩
  · rintro ⟨delivery, hemit⟩
    cases delivery with
    | written => exact ⟨_, runs_bind_iff.mpr ⟨_, _, hemit, runs_pure_iff.mpr ⟨rfl, rfl⟩⟩⟩
    | kept => exact ⟨_, runs_bind_iff.mpr ⟨_, _, hemit, runs_pure_iff.mpr ⟨rfl, rfl⟩⟩⟩

theorem eq_of_runs_collect (h : Runs (collect paths (some output)) world (.ok documents) later) :
    later = world := by
  rw [runs_collect_iff] at h
  induction paths generalizing documents with
  | nil => exact (runs_pure_iff.mp h).2
  | cons path paths ih =>
    obtain ⟨_, _, -, hrest, -⟩ := runs_collectFrom_cons_iff.mp h
    exact ih hrest

/-- A merge that ends well finds documents, reads them, and emits what they give. -/
theorem exists_runs_merge_iff :
    (∃ report, Runs (merge paths (some output) overwrite idScalar) world (.ok report) later) ↔
      ∃ documents text, Runs (collect paths (some output)) world (.ok documents) world ∧
        documents ≠ [] ∧ Runs (mergeFiles documents idScalar) world (.ok text) world ∧
        ∃ delivery, Runs (emitOutput output overwrite text) world (.ok delivery) later := by
  constructor
  · rintro ⟨report, h⟩
    obtain ⟨answer, between, hcollect, h⟩ := runs_bind_iff.mp h
    rcases answer with failure | documents
    · cases (runs_pure_iff.mp h).1
    · obtain rfl := eq_of_runs_collect hcollect
      cases documents with
      | nil => cases (runs_pure_iff.mp h).1
      | cons document documents =>
        obtain ⟨answer, _, hmerge, hdeliver⟩ := runs_bind_iff.mp h
        rcases answer with failure | text
        · cases (runs_pure_iff.mp hdeliver).1
        · obtain ⟨rfl, -⟩ := runs_mergeFiles_iff.mp hmerge
          exact ⟨_, text, hcollect, List.cons_ne_nil _ _, hmerge,
            exists_runs_deliver_iff.mp ⟨report, hdeliver⟩⟩
  · rintro ⟨documents, text, hcollect, hne, hmerge, hemit⟩
    obtain ⟨document, documents, rfl⟩ := List.exists_cons_of_ne_nil hne
    obtain ⟨report, hdeliver⟩ := exists_runs_deliver_iff.mpr hemit
    exact ⟨report, runs_bind_iff.mpr ⟨_, _, hcollect,
      runs_bind_iff.mpr ⟨_, _, hmerge, hdeliver⟩⟩⟩

/-- A merge ends well and leaves the world as it is. -/
def IsSettled (paths : List String) (output : String) (overwrite : Bool) (idScalar : IdScalar)
    (world : World) : Prop :=
  ∃ report, Runs (merge paths (some output) overwrite idScalar) world (.ok report) world

/-- What a merge that ends well leaves behind, for the next one. -/
structure Merged (paths : List String) (output : String) (overwrite : Bool)
    (idScalar : IdScalar) (world later : World) (documents : List String) (text : String)
    (place : Place) : Prop where
  /-- The documents have been found. -/
  collected : Runs (collect paths (some output)) world (.ok documents) world
  /-- There was one at least. -/
  nonempty : documents ≠ []
  /-- They have been read and merged. -/
  merged : Runs (mergeFiles documents idScalar) world (.ok text) world
  /-- The output leads to a place. -/
  leads : ∃ node, later.find output = .ok (place, node)
  /-- Nothing has changed but what stands there. -/
  changes : ChangesAt place world later
  /-- Everything still stands in a directory. -/
  closed : later.tree.IsClosed
  /-- A text is emitted again without a change if it is kept or is the same. -/
  again : ∀ other, (∃ delivery, Runs (emitOutput output overwrite other) later (.ok delivery)
    later) ↔ (overwrite = true → other = text)

theorem exists_merged {report : MergeReport} (hclosed : world.tree.IsClosed)
    (h : Runs (merge paths (some output) overwrite idScalar) world (.ok report) later) :
    ∃ documents text place, Merged paths output overwrite idScalar world later documents text
      place := by
  obtain ⟨documents, text, hcollect, hne, hmerge, delivery, hemit⟩ :=
    exists_runs_merge_iff.mp ⟨report, h⟩
  have hpath : Emitter.pathOf ⟨"", overwrite⟩ ⟨output, .sdl, text⟩ = output := by
    rw [Emitter.pathOf, Path.join]
    split
    · rfl
    · simp
  have hemits := Emitter.emits_of_runs hemit
  obtain ⟨place, node, hfind, hchanges⟩ := hemits.exists_changesAt
  rw [hpath] at hfind
  exact ⟨documents, text, place, hcollect, hne, hmerge, ⟨node, hfind⟩, hchanges,
    hemits.closed hclosed, fun other => Emitter.emit_again_iff hemit other⟩

namespace Merged

variable (h : Merged paths output overwrite idScalar world later documents text place)
include h

/-- The next merge does well if it finds a document that the last one did not write, and
if it gives the same text from these documents, where it writes that again. -/
theorem isSettled_iff (hnamed : world.tree.IsNamed) :
    IsSettled paths output overwrite idScalar later ↔ without later place documents ≠ [] ∧
      (overwrite = true →
        Runs (mergeFiles (without later place documents) idScalar) world (.ok text) world) := by
  obtain ⟨node, hfind⟩ := h.leads
  have hcollect := runs_collect_again h.collected h.closed hnamed h.changes hfind
  obtain ⟨kept, hbefore, hlater⟩ := exists_runs_mergeFiles_again h.changes h.merged
  have htext : Runs (mergeFiles (without later place documents) idScalar) world (.ok text) world ↔
      kept = text :=
    ⟨fun hruns => (Except.ok.inj (hbefore.unique hruns).1).symm, fun heq => heq ▸ hbefore⟩
  rw [IsSettled, exists_runs_merge_iff, htext, ← h.again]
  constructor
  · rintro ⟨others, other, hothers, hne, hother, hemit⟩
    obtain rfl := Except.ok.inj (hcollect.unique hothers).1
    obtain rfl := Except.ok.inj (hlater.unique hother).1
    exact ⟨hne, hemit⟩
  · exact fun ⟨hne, hemit⟩ => ⟨_, kept, hcollect, hne, hlater, hemit⟩

/-- All documents are found again, if the output led somewhere or never goes up. -/
theorem without_eq (hclosed : world.tree.IsClosed) (hnamed : world.tree.IsNamed)
    (houtput : world.Has output ∨ ".." ∉ Tree.pieces output) :
    without later place documents = documents := by
  obtain ⟨node, hfind⟩ := h.leads
  obtain ⟨-, fragments, hfragments, -⟩ := runs_mergeFiles_iff.mp h.merged
  refine List.filter_eq_self.mpr fun document hdocument => decide_eq_true fun hlocate => ?_
  obtain ⟨_, source, hread, -⟩ := forall_of_forall₂ hfragments.flip
    (fun fragment _ document hreads => Exists.intro fragment hreads) document hdocument
  obtain ⟨⟨other, there⟩, hthere, -⟩ := bind_eq_ok_iff.mp hread
  obtain ⟨hbefore, hnode, -⟩ := find_eq_ok_iff.mp hthere
  have hother := h.changes.kinds.locate hbefore
  rw [hlocate, Except.ok.injEq] at hother
  subst hother
  have hhas : world.Has output := houtput.elim id fun hdots =>
    (descends_of_dots hdots).has hclosed h.changes.kinds hfind (by rw [hnode]; rfl)
  obtain ⟨⟨found, last⟩, hfound⟩ := hhas
  have houter := h.changes.kinds.locate (find_eq_ok_iff.mp hfound).1
  rw [(find_eq_ok_iff.mp hfind).1, Except.ok.injEq] at houter
  subst houter
  have hself := without_eq_self h.collected hclosed hnamed hfound
  exact of_decide_eq_true (List.filter_eq_self.mp hself document hdocument) hbefore

end Merged

/-- **Merging again.**  A merge that ended well ends well again, and leaves every file and
directory as it is, if its output led somewhere before or its path never goes up.  In
any case, that comes down to the documents that the first run found and did not write:
there must be one, and where files are replaced, they must give the same text. -/
theorem merge_again {report : MergeReport} (hclosed : world.tree.IsClosed)
    (hnamed : world.tree.IsNamed)
    (h : Runs (merge paths (some output) overwrite idScalar) world (.ok report) later) :
    (world.Has output ∨ ".." ∉ Tree.pieces output →
      IsSettled paths output overwrite idScalar later) ∧
    ∃ documents text place, Runs (collect paths (some output)) world (.ok documents) world ∧
      Runs (mergeFiles documents idScalar) world (.ok text) world ∧
      later.locate output = .ok place ∧
      (IsSettled paths output overwrite idScalar later ↔ without later place documents ≠ [] ∧
        (overwrite = true →
          Runs (mergeFiles (without later place documents) idScalar) world (.ok text) world)) := by
  obtain ⟨documents, text, place, hmerged⟩ := exists_merged hclosed h
  have hsettled := hmerged.isSettled_iff hnamed
  obtain ⟨node, hfind⟩ := hmerged.leads
  refine ⟨fun houtput => hsettled.mpr ?_, documents, text, place, hmerged.collected,
    hmerged.merged, (find_eq_ok_iff.mp hfind).1, hsettled⟩
  rw [hmerged.without_eq hclosed hnamed houtput]
  exact ⟨hmerged.nonempty, fun _ => hmerged.merged⟩

/-- A world of one document. -/
def desk : World := { tree := { nodes := [(["a.graphql"], .file "scalar A\n")] } }

/-- The document is merged into a file below its own directory, and the next merge leaves
that out. -/
theorem merge_desk_again : desk.tree.IsClosed ∧ desk.tree.IsNamed ∧ ∃ report later,
    Runs (merge ["."] (some "out/all.graphql") true .id) desk (.ok report) later ∧
      IsSettled ["."] "out/all.graphql" true .id later := by
  have hclosed : desk.tree.IsClosed := by decide
  have hnamed : desk.tree.IsNamed := by decide
  have hends : (merge (m := StateM World) ["."] (some "out/all.graphql") true .id desk).1.isOk =
      true := by decide +kernel
  obtain ⟨answer, later, hrun⟩ :=
    exists_runs (merge ["."] (some "out/all.graphql") true .id) desk
  rw [hrun] at hends
  cases answer with
  | error => cases hends
  | ok report =>
    exact ⟨hclosed, hnamed, report, later, hrun,
      (merge_again hclosed hnamed hrun).1 (.inr (by decide))⟩

/-- An output that is spelled through a missing directory is not left out by the first run:
the document is replaced by what it gives, and the next run finds no document at all. -/
theorem not_merge_again : ¬ ∀ (world later : World) (paths : List String) (output : String)
    (overwrite : Bool) (idScalar : IdScalar) (report : MergeReport),
    world.tree.IsClosed → world.tree.IsNamed → paths ≠ [] →
    Runs (merge paths (some output) overwrite idScalar) world (.ok report) later →
    IsSettled paths output overwrite idScalar later := by
  intro h
  have hends : (merge (m := StateM World) ["a.graphql"] (some "new/../a.graphql") false .id
      desk).1.isOk = true := by decide +kernel
  have hagain : (merge (m := StateM World) ["a.graphql"] (some "new/../a.graphql") false .id
      (merge (m := StateM World) ["a.graphql"] (some "new/../a.graphql") false .id desk).2).1.isOk =
      false := by decide +kernel
  obtain ⟨answer, later, hrun⟩ :=
    exists_runs (merge ["a.graphql"] (some "new/../a.graphql") false .id) desk
  rw [hrun] at hends hagain
  cases answer with
  | error => cases hends
  | ok report =>
    obtain ⟨again, hsettled⟩ := h desk later _ _ _ _ report (by decide) (by decide) (by simp) hrun
    rw [hsettled] at hagain
    cases hagain

end Command
end EntitySdl
