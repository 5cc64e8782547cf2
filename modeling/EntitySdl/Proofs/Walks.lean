import EntitySdl.Proofs.Listings
import Mathlib.Data.Finset.Sort
import Mathlib.Data.String.Basic

/-! # Walks through directories

A walk goes through the entries of a directory in the order of their names.  It meets a
file where it stands, and goes through a directory before it goes on behind it.  So it
meets every file below where it starts, each of them once, in the order of their places:
two files come in the order of the names at which their places part.  That is how the
files below a directory are listed.
-/
namespace EntitySdl
namespace Tree

variable {tree : Tree} {place : Place} {node : Node} {names : List String}
  {files others : List Place}

/-! ### Trees as a file system has them -/

/-- A tree as a file system has it: whatever is in it has a name, stands in a directory, and
is alone at its place. -/
structure WellFormed (tree : Tree) : Prop where
  /-- What is in the tree stands in directories. -/
  closed : tree.IsClosed
  /-- It has names. -/
  named : tree.IsNamed
  /-- There is one node at a place. -/
  distinct : (tree.nodes.map Prod.fst).Nodup
  /-- The root is not in the tree. -/
  root : [] ∉ tree.nodes.map Prod.fst

/-- Each of these conditions can be checked on a tree. -/
instance (tree : Tree) : Decidable tree.WellFormed :=
  decidable_of_iff (tree.IsClosed ∧ tree.IsNamed ∧ (tree.nodes.map Prod.fst).Nodup ∧
      [] ∉ tree.nodes.map Prod.fst)
    ⟨fun ⟨closed, named, distinct, root⟩ => ⟨closed, named, distinct, root⟩,
      fun h => ⟨h.closed, h.named, h.distinct, h.root⟩⟩

theorem lookup_of_mem {nodes : List (Place × Node)} (h : (nodes.map Prod.fst).Nodup)
    (hmem : (place, node) ∈ nodes) : nodes.lookup place = some node := by
  obtain ⟨before, behind, rfl⟩ := List.append_of_mem hmem
  refine List.lookup_eq_some_iff.mpr ⟨before, behind, rfl, fun entry hentry => ?_⟩
  rw [List.map_append, List.map_cons] at h
  refine bne_iff_ne.mpr fun heq => ?_
  exact List.disjoint_of_nodup_append h (List.mem_map_of_mem hentry)
    (heq ▸ List.mem_cons_self)

/-- The files of a well-formed tree are the places where files stand. -/
theorem WellFormed.mem_files_iff (h : tree.WellFormed) :
    place ∈ tree.files ↔ tree.kind? place = some .file := by
  constructor
  · intro hmem
    obtain ⟨entry, hentry, rfl⟩ := List.mem_map.mp hmem
    obtain ⟨hentry, hkind⟩ := List.mem_filter.mp hentry
    have hroot : entry.1 ≠ [] := fun hroot => h.root (hroot ▸ List.mem_map_of_mem hentry)
    rw [kind?, node?, if_neg hroot, lookup_of_mem h.distinct hentry]
    exact congrArg some (of_decide_eq_true hkind)
  · intro hkind
    obtain ⟨node, hnode, hfile⟩ := Option.map_eq_some_iff.mp hkind
    rw [node?] at hnode
    split at hnode
    · cases hnode
      cases hfile
    · exact List.mem_map_of_mem (List.mem_filter.mpr
        ⟨mem_of_lookup hnode, decide_eq_true hfile⟩)

theorem WellFormed.nodup_filesBelow (h : tree.WellFormed) (base : Place) :
    (tree.filesBelow base).Nodup := by
  rw [filesBelow_eq, (List.mergeSort_perm _ _).nodup_iff]
  have hfiles : tree.files.Nodup := h.distinct.sublist (List.filter_sublist.map _)
  refine hfiles.filterMap fun left right names hleft hright => ?_
  rw [← List.isPrefixOf?_eq_some_iff_append_eq.mp hleft,
    ← List.isPrefixOf?_eq_some_iff_append_eq.mp hright]

/-! ### Walks -/

/-- A walk from a place meets files, each with the names on the way to it from there. -/
inductive Walks (tree : Tree) : Place → List Place → Prop where
  /-- At a file it meets that. -/
  | file {place : Place} {content : String} (hnode : tree.node? place = some (.file content)) :
      Walks tree place [[]]
  /-- In a directory it goes from entry to entry, in the order of their names. -/
  | directory {place : Place} {names : List String} {below : String → List Place}
      (hnode : tree.node? place = some .directory)
      (hentries : ∀ name, name ∈ names ↔ (tree.node? (place ++ [name])).isSome)
      (hsorted : names.Pairwise (· < ·))
      (hbelow : ∀ name ∈ names, Walks tree (place ++ [name]) (below name)) :
      Walks tree place (names.flatMap fun name => (below name).map (name :: ·))

/-- In a closed tree, what stands somewhere below a place stands in a directory there. -/
theorem IsClosed.directory_of_below (h : tree.IsClosed) {name : String} {rest : List String}
    (hthere : (tree.node? (place ++ name :: rest)).isSome) :
    tree.node? place = some .directory ∧ (tree.node? (place ++ [name])).isSome := by
  rw [List.append_cons] at hthere
  have hentry := h.isSome_of_below hthere
  obtain ⟨node, hnode⟩ := Option.isSome_iff_exists.mp hentry
  have hplace := isClosed_iff.mp h _ _ hnode
  rw [List.dropLast_concat] at hplace
  exact ⟨hplace, hentry⟩

/-- A walk meets the files below the place where it starts. -/
theorem Walks.mem_iff (h : Walks tree place files) (hclosed : tree.IsClosed) :
    names ∈ files ↔ tree.kind? (place ++ names) = some .file := by
  induction h generalizing names with
  | @file place content hnode =>
    cases names with
    | nil => simp [kind?, hnode, Node.kind]
    | cons name rest =>
      refine iff_of_false (by simp) fun hkind => ?_
      -- nothing stands below a file
      obtain ⟨found, hfound, -⟩ := Option.map_eq_some_iff.mp hkind
      have hplace := (hclosed.directory_of_below (by rw [hfound]; rfl)).1
      rw [hnode] at hplace
      cases hplace
  | @directory place entries below hnode hentries _ _ ih =>
    cases names with
    | nil => simp [kind?, hnode, Node.kind]
    | cons name rest =>
      have hmem : name :: rest ∈ entries.flatMap (fun name => (below name).map (name :: ·)) ↔
          name ∈ entries ∧ rest ∈ below name := by
        simp only [List.mem_flatMap, List.mem_map, List.cons.injEq]
        constructor
        · rintro ⟨_, hentry, _, hrest, rfl, rfl⟩
          exact ⟨hentry, hrest⟩
        · rintro ⟨hentry, hrest⟩
          exact ⟨name, hentry, rest, hrest, rfl, rfl⟩
      rw [hmem, List.append_cons]
      constructor
      · rintro ⟨hentry, hrest⟩
        exact (ih name hentry).mp hrest
      · intro hkind
        obtain ⟨found, hfound, -⟩ := Option.map_eq_some_iff.mp hkind
        have hthere : (tree.node? ((place ++ [name]) ++ rest)).isSome := by
          rw [hfound]
          rfl
        have hentry := (hentries name).mpr (hclosed.isSome_of_below hthere)
        exact ⟨hentry, (ih name hentry).mpr hkind⟩

/-- A walk meets files in the order of their places, and none of them twice. -/
theorem Walks.sorted (h : Walks tree place files) :
    files.Pairwise fun a b => Place.notAfter a b = true ∧ a ≠ b := by
  induction h with
  | file => exact List.pairwise_singleton _ _
  | directory _ _ hsorted _ ih =>
    rw [List.pairwise_flatMap]
    refine ⟨fun name hname => ?_, hsorted.imp fun hlt a ha b hb => ?_⟩
    · rw [List.pairwise_map]
      refine (ih name hname).imp fun ⟨horder, hne⟩ => ?_
      exact ⟨Place.notAfter_cons_iff.mpr (.inr ⟨rfl, horder⟩),
        fun heq => hne (List.cons.inj heq).2⟩
    · obtain ⟨a, -, rfl⟩ := List.mem_map.mp ha
      obtain ⟨b, -, rfl⟩ := List.mem_map.mp hb
      exact ⟨Place.notAfter_cons_iff.mpr (.inl hlt), fun heq => hlt.ne (List.cons.inj heq).1⟩

theorem Walks.nodup (h : Walks tree place files) : files.Nodup :=
  h.sorted.imp fun h => h.2

/-- Files are listed as a walk meets them. -/
theorem Walks.eq_filesBelow (h : Walks tree place files) (htree : tree.WellFormed) :
    files = tree.filesBelow place := by
  have hlisted : (tree.filesBelow place).Pairwise (Place.notAfter · · = true) := by
    rw [filesBelow_eq]
    exact @List.pairwise_mergeSort _ Place.notAfter (fun _ _ _ => Place.notAfter_trans)
      Place.notAfter_total _
  have hperm : files.Perm (tree.filesBelow place) := by
    refine (List.perm_ext_iff_of_nodup h.nodup (htree.nodup_filesBelow place)).mpr fun names => ?_
    rw [h.mem_iff htree.closed, mem_filesBelow_iff, htree.mem_files_iff]
  exact hperm.eq_of_pairwise (fun _ _ _ _ => Place.notAfter_antisymm)
    (h.sorted.imp fun h => h.1) hlisted

/-- The names of the entries of a directory, in order. -/
theorem exists_entries (tree : Tree) (place : Place) : ∃ names : List String,
    (∀ name, name ∈ names ↔ (tree.node? (place ++ [name])).isSome) ∧
      names.Pairwise (· < ·) := by
  let entries := tree.nodes.filterMap fun entry => (place.isPrefixOf? entry.1).bind List.head?
  let found := entries.toFinset.filter fun name => (tree.node? (place ++ [name])).isSome
  refine ⟨found.sort, fun name => ?_, found.sortedLT_sort.pairwise⟩
  rw [Finset.mem_sort, Finset.mem_filter, List.mem_toFinset, and_iff_right_iff_imp]
  intro hthere
  have hplace : place ++ [name] ≠ [] := by simp
  rw [node?, if_neg hplace, isSome_lookup_iff] at hthere
  obtain ⟨entry, hentry, hname⟩ := List.mem_map.mp hthere
  refine List.mem_filterMap.mpr ⟨entry, hentry, ?_⟩
  rw [hname, List.isPrefixOf?_eq_some_iff_append_eq.mpr rfl]
  rfl

/-- No place in a tree is longer than some bound. -/
theorem exists_length_le (tree : Tree) :
    ∃ bound, ∀ place, (tree.node? place).isSome → place.length ≤ bound := by
  refine ⟨(tree.nodes.map Prod.fst).toFinset.sup List.length, fun place hthere => ?_⟩
  rw [node?] at hthere
  split at hthere
  · rename_i hroot
    rw [hroot]
    exact Nat.zero_le _
  · exact Finset.le_sup (List.mem_toFinset.mpr (isSome_lookup_iff.mp hthere))

/-- A walk may start wherever something is. -/
theorem exists_walks (hthere : (tree.node? place).isSome) : ∃ files, Walks tree place files := by
  obtain ⟨bound, hbound⟩ := tree.exists_length_le
  -- from each directory on, the places get longer
  obtain ⟨count, hcount⟩ : ∃ count, bound + 1 - place.length = count := ⟨_, rfl⟩
  induction count generalizing place with
  | zero =>
    have := hbound place hthere
    omega
  | succ count ih =>
    obtain ⟨node, hnode⟩ := Option.isSome_iff_exists.mp hthere
    cases node with
    | file => exact ⟨_, .file hnode⟩
    | directory =>
      obtain ⟨names, hentries, hsorted⟩ := tree.exists_entries place
      have hbelow : ∀ name, ∃ files, name ∈ names → Walks tree (place ++ [name]) files := by
        intro name
        by_cases hname : name ∈ names
        · obtain ⟨files, hfiles⟩ := ih ((hentries name).mp hname) (by
            rw [List.length_append, List.length_singleton]
            omega)
          exact ⟨files, fun _ => hfiles⟩
        · exact ⟨[], fun h => absurd h hname⟩
      choose below hwalks using hbelow
      exact ⟨_, .directory hnode hentries hsorted hwalks⟩

/-- **Files are listed by a walk**, and by one only. -/
theorem WellFormed.walks_iff (h : tree.WellFormed) (hthere : (tree.node? place).isSome) :
    Walks tree place files ↔ files = tree.filesBelow place := by
  refine ⟨fun hwalks => hwalks.eq_filesBelow h, ?_⟩
  rintro rfl
  obtain ⟨files, hwalks⟩ := exists_walks hthere
  rwa [← hwalks.eq_filesBelow h]

end Tree
end EntitySdl
