import EntitySdl.Proofs.MergedFiles
import EntitySdl.Proofs.Walks

/-! # Files that are collected

What is merged is collected path by path.  The path of a file stands for itself, that of
a directory for the documents which a walk through it meets.  A path that leads to neither
stops the collection.  What leads to the place of the output is left out, however it is
spelled, and nothing else is.
-/
namespace EntitySdl

namespace Path

open EntitySdl.Tree

variable {path name : String}

/-! ### Extensions -/

/-- A path that ends in a name ends in no slash and no point that does not count. -/
theorem EndsIn.dropEnd (h : EndsIn path name) (hname : IsName name) :
    dropEnd path.toList.reverse = path.toList.reverse := by
  obtain ⟨hempty, hcurrent, -, hslash⟩ := hname
  obtain ⟨front, -, hpath⟩ := h
  have hreversed : path.toList.reverse = name.toList.reverse ++ front.reverse := by
    rw [hpath, List.reverse_append]
  rw [hreversed]
  rcases hlast : name.toList.reverse with _ | ⟨c, before⟩
  · exact absurd (String.toList_eq_nil_iff.mp (List.reverse_eq_nil_iff.mp hlast)) hempty
  · have hc : c ≠ '/' := by
      rintro rfl
      exact hslash (List.mem_reverse.mp (hlast ▸ List.mem_cons_self))
    rw [List.cons_append]
    unfold Path.dropEnd
    split
    · rename_i heq
      exact absurd (List.cons.inj heq).1 hc
    · rename_i heq
      obtain ⟨rfl, hrest⟩ := List.cons.inj heq
      cases before with
      | nil => exact absurd (String.toList_inj.mp (List.reverse_eq_iff.mp hlast)) hcurrent
      | cons d before =>
        refine absurd (List.mem_reverse.mp ?_) hslash
        rw [hlast, (List.cons.inj hrest).1]
        exact List.mem_cons_of_mem _ List.mem_cons_self
    · rfl

/-- A path that ends in a name does not ask for a directory. -/
theorem EndsIn.asksDirectory (h : EndsIn path name) (hname : IsName name) :
    asksDirectory path = false := by
  obtain ⟨hempty, -, -, hslash⟩ := hname
  obtain ⟨front, -, hpath⟩ := h
  have hne : name.toList ≠ [] := fun hnil => hempty (String.toList_eq_nil_iff.mp hnil)
  rw [Tree.asksDirectory, hpath, List.getLast?_append_of_ne_nil _ hne]
  refine beq_eq_false_iff_ne.mpr fun hlast => hslash ?_
  exact List.mem_of_getLast? hlast

/-- The name that a path ends in is its file name. -/
theorem EndsIn.fileName? (h : EndsIn path name) (hname : IsName name) :
    fileName? path = some name.toList := by
  have hdrop := h.dropEnd hname
  obtain ⟨hempty, hcurrent, hup, hslash⟩ := hname
  obtain ⟨front, hfront, hpath⟩ := h
  have hmem : ∀ c ∈ name.toList.reverse, (c != '/') = true := fun c hc =>
    bne_iff_ne.mpr (ne_of_mem_of_not_mem (List.mem_reverse.mp hc) hslash)
  have hbehind : front.reverse.takeWhile (· != '/') = [] := by
    rcases hfront with rfl | hfront
    · rfl
    · obtain ⟨outer, rfl⟩ := List.getLast?_eq_some_iff.mp hfront
      simp
  rw [Path.fileName?, hdrop, hpath, List.reverse_append,
    List.takeWhile_append_of_pos hmem, hbehind, List.append_nil]
  split
  · rename_i heq
    exact absurd (String.toList_eq_nil_iff.mp (List.reverse_eq_nil_iff.mp heq)) hempty
  · rename_i heq
    exact absurd (String.toList_inj.mp (List.reverse_eq_iff.mp heq)) hcurrent
  · rename_i heq
    exact absurd (String.toList_inj.mp (List.reverse_eq_iff.mp heq)) hup
  · rw [List.reverse_reverse]

/-- A name has an extension: that stands behind a point with something before it. -/
def HasExtension (name extension : String) : Prop :=
  ∃ stem, stem ≠ "" ∧ name = stem ++ "." ++ extension

/-- The extension of a path is that of the name which it ends in. -/
theorem EndsIn.extension?_eq_some_iff {extension : String} (h : EndsIn path name)
    (hname : IsName name) (hpoint : '.' ∉ extension.toList) :
    extension? path = some extension ↔ HasExtension name extension := by
  rw [Path.extension?, h.fileName? hname, Option.bind_eq_bind, Option.bind_some]
  dsimp only
  constructor
  · intro hextension
    have hsplit := List.takeWhile_append_dropWhile (p := (· != '.')) (l := name.toList.reverse)
    have hhead := List.head?_dropWhile_not (· != '.') name.toList.reverse
    split at hextension
    · cases hextension
    · cases hextension
    · rename_i hnone hstem
      obtain rfl := Option.some.inj hextension
      rcases hdrop : name.toList.reverse.dropWhile (· != '.') with _ | ⟨c, stem⟩
      · exact absurd hdrop hnone
      · rw [hdrop] at hhead hsplit
        obtain rfl : c = '.' := by simpa using hhead
        refine ⟨String.ofList stem.reverse, fun hempty => hstem ?_, ?_⟩
        · rw [hdrop, List.reverse_eq_nil_iff.mp (String.ofList_eq_empty_iff.mp hempty)]
        · refine String.toList_inj.mp (List.reverse_injective (hsplit.symm.trans ?_))
          simp
  · rintro ⟨stem, hstem, rfl⟩
    have hbefore : ∀ c ∈ extension.toList.reverse, (c != '.') = true := fun c hc =>
      bne_iff_ne.mpr (ne_of_mem_of_not_mem (List.mem_reverse.mp hc) hpoint)
    have hreversed : (stem ++ "." ++ extension).toList.reverse =
        extension.toList.reverse ++ '.' :: stem.toList.reverse := by
      simp [String.toList_append]
    rw [hreversed, List.dropWhile_append_of_pos hbefore, List.takeWhile_append_of_pos hbefore,
      List.dropWhile_cons_of_neg (by simp), List.takeWhile_cons_of_neg (by simp),
      List.append_nil, List.reverse_reverse, String.ofList_toList]
    split
    · rename_i heq
      cases heq
    · rename_i heq
      have hnil := List.reverse_eq_nil_iff.mp (List.cons.inj heq).2
      exact absurd (String.toList_eq_nil_iff.mp hnil) hstem
    · rfl

/-- Whether a name has an extension is decided by its end, behind the first character. -/
instance (name extension : String) : Decidable (HasExtension name extension) :=
  decidable_of_iff ('.' :: extension.toList <:+ name.toList.tail) (by
    constructor
    · rintro ⟨stem, hstem⟩
      cases hname : name.toList with
      | nil => simp [hname] at hstem
      | cons c rest =>
        refine ⟨String.ofList (c :: stem), by simp, String.toList_inj.mp ?_⟩
        rw [hname, List.tail_cons] at hstem
        rw [hname, ← hstem]
        simp [String.toList_append]
    · rintro ⟨stem, hstem, rfl⟩
      obtain ⟨c, rest, hrest⟩ := List.exists_cons_of_ne_nil
        fun hnil => hstem (String.toList_eq_nil_iff.mp hnil)
      exact ⟨rest, by simp [String.toList_append, hrest]⟩)

end Path

namespace Command

open World EntitySdl.Tree

variable {world : World} {path name : String} {excluded : Option Place} {place : Place}
  {names : List String} {paths expansion : List String} {files : List Place}

/-! ### Documents of a directory -/

/-- The last of some names has the extension of an SDL document. -/
def NamesDocument (names : List String) : Prop :=
  ∃ name ∈ names.getLast?, ∃ extension ∈ documentExtensions, Path.HasExtension name extension

/-- Only the last of the names is looked at. -/
instance (names : List String) : Decidable (NamesDocument names) :=
  inferInstanceAs (Decidable (∃ name, name ∈ names.getLast? ∧ _))

theorem endsIn_foldl_join (path : String) (outer : List String) (name : String) :
    Path.EndsIn ((outer ++ [name]).foldl Path.join path) name := by
  rw [List.foldl_append]
  exact Path.endsIn_join _ (.refl name)

/-- Whether a path below a directory is that of a document shows in its last name. -/
theorem isDocument_foldl_join_iff (h : ∃ outer name, IsName name ∧ names = outer ++ [name])
    (path : String) :
    isDocument (names.foldl Path.join path) = true ↔ NamesDocument names := by
  obtain ⟨outer, name, hname, rfl⟩ := h
  have hpoint : ∀ extension ∈ documentExtensions, '.' ∉ extension.toList := by decide
  have hend := endsIn_foldl_join path outer name
  rw [isDocument, Option.any_eq_true]
  simp only [NamesDocument, List.getLast?_concat, Option.mem_some_iff, exists_eq_left',
    List.contains_iff_mem]
  constructor
  · rintro ⟨extension, hextension, hmem⟩
    exact ⟨extension, hmem, (hend.extension?_eq_some_iff hname (hpoint _ hmem)).mp hextension⟩
  · rintro ⟨extension, hmem, hextension⟩
    exact ⟨extension, (hend.extension?_eq_some_iff hname (hpoint _ hmem)).mpr hextension, hmem⟩

/-- What a path stands for, before the output is left out. -/
inductive Expands (world : World) (path : String) : List String → Prop where
  /-- A file stands for itself. -/
  | file {place : Place} (hfile : world.HasFile path place) : Expands world path [path]
  /-- A directory stands for the documents that a walk through it meets. -/
  | directory {place : Place} {files : List Place}
      (hfind : world.find path = .ok (place, .directory)) (hwalks : Walks world.tree place files) :
      Expands world path ((files.filter fun names => NamesDocument names).map
        fun names => names.foldl Path.join path)

/-- Two paths lead to the same file or directory. -/
def Meet (world : World) (left right : String) : Prop :=
  ∃ found ∈ (world.find left).toOption, (world.find right).toOption = some found

/-- Whether paths meet is decided by following both. -/
instance (world : World) (left right : String) : Decidable (Meet world left right) :=
  inferInstanceAs (Decidable (∃ found, found ∈ _ ∧ _))

/-- A file that a walk meets has names, the last of which ends the path to it. -/
theorem find_foldl_join (htree : world.tree.WellFormed)
    (hfind : world.find path = .ok (place, .directory))
    (hfile : world.tree.kind? (place ++ names) = some .file) :
    (∃ outer name, IsName name ∧ names = outer ++ [name]) ∧
      ∃ content, world.find (names.foldl Path.join path) = .ok (place ++ names, .file content) := by
  obtain ⟨hlocate, hnode, -⟩ := find_eq_ok_iff.mp hfind
  obtain ⟨content, hcontent⟩ := exists_file_of_kind? hfile
  have hnames : ∀ name ∈ names, IsName name := fun name hname =>
    htree.named.of_mem_files (htree.mem_files_iff.mpr hfile) name (List.mem_append_right _ hname)
  have hne : names ≠ [] := by
    rintro rfl
    rw [List.append_nil, hnode] at hcontent
    cases hcontent
  obtain ⟨outer, name, rfl⟩ := (List.eq_nil_or_concat names).resolve_left hne
  rw [List.concat_eq_append] at *
  have hname := hnames name (by simp)
  refine ⟨⟨outer, name, hname, rfl⟩, content, find_eq_ok_iff.mpr ⟨?_, hcontent, fun _ => ?_⟩⟩
  · exact locate_foldl_join htree.closed hlocate hnames (by rw [hcontent]; rfl)
  · exact (endsIn_foldl_join path outer name).asksDirectory hname

/-- What a path stands for is found. -/
theorem Expands.find (h : Expands world path expansion) (htree : world.tree.WellFormed)
    {document : String} (hdocument : document ∈ expansion) :
    ∃ there content, world.find document = .ok (there, .file content) := by
  cases h with
  | file hfile =>
    obtain ⟨content, hnode⟩ := exists_file_of_kind? hfile.2.1
    rw [List.mem_singleton.mp hdocument]
    exact ⟨_, content, find_eq_ok_iff.mpr ⟨hfile.1, hnode, fun _ => hfile.2.2⟩⟩
  | directory hfind hwalks =>
    obtain ⟨names, hnames, rfl⟩ := List.mem_map.mp hdocument
    have hfile := (hwalks.mem_iff htree.closed).mp (List.mem_of_mem_filter hnames)
    obtain ⟨content, hcontent⟩ := (find_foldl_join htree hfind hfile).2
    exact ⟨_, content, hcontent⟩

/-- **Documents of a directory.**  A directory stands for all files below it whose names are
those of documents, and for each of them once. -/
theorem Expands.documents (h : Expands world path expansion) (htree : world.tree.WellFormed)
    (hfind : world.find path = .ok (place, .directory)) :
    expansion.Nodup ∧ ∀ document, document ∈ expansion ↔
      ∃ names, world.tree.kind? (place ++ names) = some .file ∧ NamesDocument names ∧
        document = names.foldl Path.join path := by
  cases h with
  | file hfile =>
    obtain ⟨hlocate, hnode, -⟩ := find_eq_ok_iff.mp hfind
    obtain ⟨hfound, hkind, -⟩ := hfile
    rw [hlocate] at hfound
    cases hfound
    rw [kind?_of_node? hnode] at hkind
    cases hkind
  | @directory there files hthere hwalks =>
    rw [hthere] at hfind
    cases hfind
    constructor
    · refine (hwalks.nodup.filter _).map_on fun left hleft right hright heq => ?_
      have hplace : ∀ names ∈ files.filter fun names => NamesDocument names,
          ∃ content, world.find (names.foldl Path.join path) =
            .ok (place ++ names, .file content) := fun names hnames =>
        (find_foldl_join htree hthere
          ((hwalks.mem_iff htree.closed).mp (List.mem_of_mem_filter hnames))).2
      obtain ⟨_, hleft⟩ := hplace left hleft
      obtain ⟨_, hright⟩ := hplace right hright
      rw [heq, hright] at hleft
      exact (List.append_cancel_left (congrArg Prod.fst (Except.ok.inj hleft))).symm
    · intro document
      simp only [List.mem_map, List.mem_filter, hwalks.mem_iff htree.closed, decide_eq_true_iff,
        and_assoc, eq_comm (a := document)]

/-- A path stands for something when it leads to a file or a directory. -/
theorem exists_expands (h : world.Has path) : ∃ expansion, Expands world path expansion := by
  obtain ⟨⟨place, node⟩, hfind⟩ := h
  obtain ⟨hlocate, hnode, hasks⟩ := find_eq_ok_iff.mp hfind
  cases node with
  | file => exact ⟨_, .file ⟨hlocate, kind?_of_node? hnode, hasks rfl⟩⟩
  | directory =>
    obtain ⟨files, hwalks⟩ := exists_walks (by rw [hnode]; rfl)
    exact ⟨_, .directory hfind hwalks⟩

/-! ### Collecting -/

/-- What a path stands for is collected from it, all but what is at the place that is left
out. -/
theorem Expands.collects (h : Expands world path expansion) (htree : world.tree.WellFormed)
    (excluded : Option Place) : Collects excluded world path
      (expansion.filter fun document => outputPlace world document ≠ excluded) := by
  cases h with
  | @file place hfile =>
    obtain ⟨content, hnode⟩ := exists_file_of_kind? hfile.2.1
    have hfind := find_eq_ok_iff.mpr ⟨hfile.1, hnode, fun _ => hfile.2.2⟩
    have hplace : outputPlace world path = some place := by
      rw [outputPlace, hfind]
      rfl
    have hdocuments : [path].filter (fun document => outputPlace world document ≠ excluded) =
        if excluded = some place then [] else [path] := by
      rw [List.filter_singleton, hplace]
      by_cases h : excluded = some place <;> simp [h, eq_comm]
    rw [hdocuments]
    exact .file hfind
  | @directory place files hfind hwalks =>
    have hdocuments : ((files.filter fun names => NamesDocument names).map
        fun names => names.foldl Path.join path).filter
          (fun document => outputPlace world document ≠ excluded) =
        documentsAmong path place excluded (world.tree.filesBelow place) := by
      rw [documentsAmong, ← hwalks.eq_filesBelow htree, ← List.filterMap_eq_map,
        List.filter_filterMap, List.filterMap_filter, List.filterMap_filter]
      refine List.filterMap_congr fun names hnames => ?_
      have hfile := (hwalks.mem_iff htree.closed).mp hnames
      obtain ⟨hlast, content, hcontent⟩ := find_foldl_join htree hfind hfile
      have hplace : outputPlace world (names.foldl Path.join path) = some (place ++ names) := by
        rw [outputPlace, hcontent]
        rfl
      have hdocument := isDocument_foldl_join_iff hlast path
      by_cases hkept : excluded = some (place ++ names)
      · simp [hkept, hplace, Option.filter]
      · by_cases h : NamesDocument names <;>
          simp [h, hkept, hdocument, hplace, Option.filter, Ne.symm hkept]
    rw [hdocuments]
    exact .directory hfind

/-- What is found is left out exactly when the output leads there too. -/
theorem outputPlace_eq_iff {document content : String} {output : Option String}
    (hfind : world.find document = .ok (place, .file content)) :
    outputPlace world document = output.bind (outputPlace world) ↔
      ∃ path ∈ output, Meet world path document := by
  have hplace : outputPlace world document = some place := by
    rw [outputPlace, hfind]
    rfl
  cases output with
  | none => simp [hplace]
  | some path =>
    rw [hplace, Option.bind_some, outputPlace, eq_comm, Option.map_eq_some_iff]
    simp only [Option.mem_some_iff, exists_eq_left', Meet, hfind]
    refine exists_congr fun found => and_congr_right fun hfound => ?_
    obtain ⟨there, node⟩ := found
    constructor
    · rintro rfl
      -- one node stands at a place
      have hnode := (find_eq_ok_iff.mp hfind).2.1
      have hpath : world.find path = .ok (there, node) := by
        cases hpath : world.find path <;> simp_all [Except.toOption]
      rw [(find_eq_ok_iff.mp hpath).2.1] at hnode
      rw [Option.some.inj hnode]
      rfl
    · exact fun heq => (congrArg Prod.fst (Option.some.inj heq)).symm

theorem Expands.collects_output (h : Expands world path expansion) (htree : world.tree.WellFormed)
    (output : Option String) : Collects (output.bind (outputPlace world)) world path
      (expansion.filter fun document => ¬ ∃ path ∈ output, Meet world path document) := by
  have hkept : expansion.filter (fun document => ¬ ∃ path ∈ output, Meet world path document) =
      expansion.filter fun document =>
        outputPlace world document ≠ output.bind (outputPlace world) := by
    refine List.filter_congr fun document hdocument => ?_
    obtain ⟨_, _, hfind⟩ := h.find htree hdocument
    simp only [Ne, outputPlace_eq_iff hfind]
  rw [hkept]
  exact h.collects htree _

/-- A path that leads nowhere stops the collection. -/
theorem runs_collectOne_missing (h : ¬ world.Has path) (excluded : Option Place) :
    Runs (collectOne excluded path) world (.error (.plain (.missingSource path))) world := by
  refine runs_bind_iff.mpr ⟨_, _, runs_find path world, ?_⟩
  cases hfind : world.find path with
  | ok found => exact absurd ⟨found, hfind⟩ h
  | error => exact runs_pure_iff.mpr ⟨rfl, rfl⟩

/-- The first path that leads nowhere is reported. -/
theorem runs_collectFrom_missing (htree : world.tree.WellFormed) {before behind : List String}
    (hbefore : ∀ other ∈ before, world.Has other) (h : ¬ world.Has path)
    (excluded : Option Place) :
    Runs (collectFrom excluded (before ++ path :: behind)) world
      (.error (.plain (.missingSource path))) world := by
  induction before with
  | nil =>
    exact runs_bind_iff.mpr ⟨_, _, runs_collectOne_missing h excluded,
      runs_pure_iff.mpr ⟨rfl, rfl⟩⟩
  | cons first before ih =>
    obtain ⟨hfirst, hbefore⟩ := List.forall_mem_cons.mp hbefore
    obtain ⟨expansion, hexpansion⟩ := exists_expands hfirst
    refine runs_bind_iff.mpr
      ⟨_, _, runs_collectOne_iff.mpr ⟨rfl, hexpansion.collects htree excluded⟩, ?_⟩
    exact runs_bind_iff.mpr ⟨_, _, ih hbefore, runs_pure_iff.mpr ⟨rfl, rfl⟩⟩

theorem runs_collect_of_collectFrom {output : Option String}
    {answer : Except Failure (List String)}
    (h : Runs (collectFrom (output.bind (outputPlace world)) paths) world answer world) :
    Runs (collect paths output) world answer world := by
  cases output with
  | none => exact h
  | some output => exact runs_collect_iff.mpr h

theorem runs_collect_expands (htree : world.tree.WellFormed) {expansions : List (List String)}
    (h : List.Forall₂ (Expands world) paths expansions) (output : Option String) :
    Runs (collect paths output) world (.ok (expansions.flatten.filter fun document =>
      ¬ ∃ path ∈ output, Meet world path document)) world := by
  refine runs_collect_of_collectFrom ?_
  induction h with
  | nil => exact runs_pure_iff.mpr ⟨rfl, rfl⟩
  | cons hfirst _ ih =>
    rw [List.flatten_cons, List.filter_append]
    exact runs_collectFrom_cons_iff.mpr ⟨_, _, hfirst.collects_output htree output, ih, rfl⟩

/-- Where one of some paths leads nowhere, there is a first that does. -/
theorem exists_first_missing (h : ∃ path ∈ paths, ¬ world.Has path) : ∃ before path behind,
    paths = before ++ path :: behind ∧ (∀ other ∈ before, world.Has other) ∧
      ¬ world.Has path := by
  induction paths with
  | nil => simp at h
  | cons first rest ih =>
    by_cases hfirst : world.Has first
    · obtain ⟨path, hpath, hmissing⟩ := h
      rcases List.mem_cons.mp hpath with rfl | hpath
      · exact absurd hfirst hmissing
      · obtain ⟨before, path, behind, rfl, hbefore, hmissing⟩ := ih ⟨path, hpath, hmissing⟩
        exact ⟨first :: before, path, behind, rfl,
          List.forall_mem_cons.mpr ⟨hfirst, hbefore⟩, hmissing⟩
    · exact ⟨[], first, rest, rfl, by simp, hfirst⟩

theorem Expands.has (h : Expands world path expansion) : world.Has path := by
  cases h with
  | file hfile => exact has_iff.mpr (.inr ⟨_, hfile⟩)
  | directory hfind => exact ⟨_, hfind⟩

theorem has_of_expansions {expansions : List (List String)}
    (h : List.Forall₂ (Expands world) paths expansions) : ∀ path ∈ paths, world.Has path := by
  induction h with
  | nil => simp
  | cons hfirst _ ih => exact List.forall_mem_cons.mpr ⟨hfirst.has, ih⟩

theorem exists_expansions (h : ∀ path ∈ paths, world.Has path) :
    ∃ expansions, List.Forall₂ (Expands world) paths expansions := by
  induction paths with
  | nil => exact ⟨[], .nil⟩
  | cons path paths ih =>
    obtain ⟨hpath, hpaths⟩ := List.forall_mem_cons.mp h
    obtain ⟨expansion, hexpansion⟩ := exists_expands hpath
    obtain ⟨expansions, hexpansions⟩ := ih hpaths
    exact ⟨_, .cons hexpansion hexpansions⟩

/-- What collecting comes to. -/
structure IsCollection (world : World) (paths : List String) (output : Option String)
    (answer : Except Failure (List String)) : Prop where
  /-- It fails when one of the paths leads to neither a file nor a directory. -/
  fails_iff : (∃ failure, answer = .error failure) ↔
    ∃ path ∈ paths, ¬ (world.HasDirectory path ∨ ∃ place, world.HasFile path place)
  /-- It reports the first of these. -/
  reports : ∀ failure, answer = .error failure → ∃ before path behind,
    paths = before ++ path :: behind ∧ (∀ other ∈ before, world.Has other) ∧
      ¬ world.Has path ∧ failure = .plain (.missingSource path)
  /-- Otherwise it gives what the paths stand for, one after the other, without what the
  output leads to. -/
  collects_iff : ∀ documents, answer = .ok documents ↔ ∃ expansions,
    List.Forall₂ (Expands world) paths expansions ∧
      documents = expansions.flatten.filter fun document =>
        ¬ ∃ path ∈ output, Meet world path document
  /-- A directory among the paths stands for all documents below it, each of them once. -/
  complete : ∀ path ∈ paths, ∀ place expansion, world.find path = .ok (place, .directory) →
    Expands world path expansion → expansion.Nodup ∧ ∀ document, document ∈ expansion ↔
      ∃ names, world.tree.kind? (place ++ names) = some .file ∧ NamesDocument names ∧
        document = names.foldl Path.join path

/-- **Collected files.**  In every world, all documents that paths stand for are collected,
in order, and only what the output leads to is left out. -/
theorem exists_isCollection (htree : world.tree.WellFormed) (paths : List String)
    (output : Option String) : ∃ answer, Runs (collect paths output) world answer world ∧
      IsCollection world paths output answer := by
  have hcomplete : ∀ path ∈ paths, ∀ place expansion, world.find path = .ok (place, .directory) →
      Expands world path expansion → _ :=
    fun _ _ _ _ hfind hexpansion => hexpansion.documents htree hfind
  by_cases hall : ∀ path ∈ paths, world.Has path
  · obtain ⟨expansions, hexpansions⟩ := exists_expansions hall
    have hruns := runs_collect_expands htree hexpansions output
    refine ⟨_, hruns, ⟨?_, fun _ hanswer => ?_, fun documents => ⟨?_, ?_⟩, hcomplete⟩⟩
    · refine iff_of_false (by simp) fun ⟨path, hpath, hmissing⟩ => hmissing ?_
      exact has_iff.mp (hall path hpath)
    · cases hanswer
    · exact fun hanswer => ⟨expansions, hexpansions, (Except.ok.inj hanswer).symm⟩
    · rintro ⟨others, hothers, rfl⟩
      exact (hruns.unique (runs_collect_expands htree hothers output)).1.symm
  · simp only [not_forall, exists_prop] at hall
    obtain ⟨before, path, behind, rfl, hbefore, hmissing⟩ := exists_first_missing hall
    have hmem : path ∈ before ++ path :: behind := by simp
    have hruns : Runs (collect (before ++ path :: behind) output) world _ world :=
      runs_collect_of_collectFrom (runs_collectFrom_missing htree hbefore hmissing _)
    refine ⟨_, hruns, ⟨iff_of_true ⟨_, rfl⟩ ⟨path, hmem, has_iff.not.mp hmissing⟩,
      fun failure hanswer => ?_, fun documents => iff_of_false nofun ?_, hcomplete⟩⟩
    · exact ⟨before, path, behind, rfl, hbefore, hmissing, (Except.error.inj hanswer).symm⟩
    · exact fun ⟨_, hexpansions, _⟩ => hmissing (has_of_expansions hexpansions path hmem)

/-- A world of documents with other files among them. -/
def shelf : World :=
  { tree := { nodes := [
      (["docs"], .directory),
      (["docs", "b.graphql"], .file ""),
      (["docs", "nested"], .directory),
      (["docs", "nested", "c.graphql"], .file ""),
      (["docs", "notes.md"], .file ""),
      (["docs", "a.gql"], .file ""),
      (["docs", "all.graphql"], .file "")] } }

/-- What a walk meets in an entry of the directory. -/
def shelfBelow (name : String) : List Place :=
  if name = "nested" then [["c.graphql"]] else [[]]

/-- A walk through the directory goes through that in it at its place among the files. -/
theorem shelf_walks : Walks shelf.tree ["docs"]
    [["a.gql"], ["all.graphql"], ["b.graphql"], ["nested", "c.graphql"], ["notes.md"]] := by
  have hinner : [["c.graphql"]] =
      ["c.graphql"].flatMap fun name => ([[]] : List Place).map (name :: ·) := rfl
  have houter : [["a.gql"], ["all.graphql"], ["b.graphql"], ["nested", "c.graphql"], ["notes.md"]] =
      ["a.gql", "all.graphql", "b.graphql", "nested", "notes.md"].flatMap fun name =>
        (shelfBelow name).map (name :: ·) := by
    simp [shelfBelow]
  have hnested : Walks shelf.tree ["docs", "nested"] [["c.graphql"]] := by
    rw [hinner]
    refine .directory (by decide +kernel) (fun name => ?_) (by decide +kernel) fun name hname => ?_
    · rw [node?, if_neg (by simp), isSome_lookup_iff]
      simp [shelf]
    · cases List.mem_singleton.mp hname
      exact @Walks.file _ _ "" (by decide +kernel)
  rw [houter]
  refine .directory (by decide +kernel) (fun name => ?_) (by decide +kernel) fun name hname => ?_
  · rw [node?, if_neg (by simp), isSome_lookup_iff]
    simp [shelf]
    tauto
  · unfold shelfBelow
    split
    · rename_i heq
      rw [heq]
      exact hnested
    · refine @Walks.file _ _ "" ?_
      revert name
      decide +kernel

/-- A directory stands for its documents in the order of their names, and a file for itself.
The output is left out, though it is spelled in another way. -/
theorem collect_shelf : shelf.tree.WellFormed ∧
    Runs (collect ["docs", "docs/notes.md"] (some "docs/nested/../all.graphql")) shelf
      (.ok ["docs/a.gql", "docs/b.graphql", "docs/nested/c.graphql", "docs/notes.md"]) shelf := by
  have htree : shelf.tree.WellFormed := by decide
  obtain ⟨answer, hruns, hanswer⟩ := exists_isCollection htree ["docs", "docs/notes.md"]
    (some "docs/nested/../all.graphql")
  have hdocs : Expands shelf "docs" _ := .directory (by decide +kernel) shelf_walks
  have hnotes : Expands shelf "docs/notes.md" _ :=
    @Expands.file _ _ ["docs", "notes.md"]
      ⟨by decide +kernel, by decide +kernel, by decide +kernel⟩
  rw [(hanswer.collects_iff _).mpr ⟨_, .cons hdocs (.cons hnotes .nil), rfl⟩] at hruns
  refine ⟨htree, ?_⟩
  convert hruns using 1
  decide +kernel

end Command
end EntitySdl
