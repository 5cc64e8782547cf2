import EntitySdl.Files.World
import EntitySdl.Proofs.Paths
import EntitySdl.Proofs.Trees
import EntitySdl.Proofs.Worlds

/-! # Listings

The files below a directory are listed in the order of their names, which is the order
of their places.  The order is total, so a listing without one of its files is the
listing of a tree without it.  A listed file is found again where the path of its
directory, followed by the names, leads.
-/
namespace EntitySdl

/-! ### The order of places -/

namespace Place

variable {a b c : Place}

theorem notAfter_cons_iff {x y : String} : notAfter (x :: a) (y :: b) = true ↔
    x < y ∨ x = y ∧ notAfter a b = true := by
  simp [notAfter]

theorem notAfter_total (a b : Place) : (notAfter a b || notAfter b a) = true := by
  rw [Bool.or_eq_true]
  induction a generalizing b with
  | nil => exact .inl rfl
  | cons x a ih =>
    cases b with
    | nil => exact .inr rfl
    | cons y b =>
      rw [notAfter_cons_iff, notAfter_cons_iff]
      rcases lt_trichotomy x y with h | rfl | h
      · exact .inl (.inl h)
      · exact (ih b).imp (fun h => .inr ⟨rfl, h⟩) fun h => .inr ⟨rfl, h⟩
      · exact .inr (.inl h)

theorem notAfter_trans (h : notAfter a b = true) (h' : notAfter b c = true) :
    notAfter a c = true := by
  induction a generalizing b c with
  | nil => rfl
  | cons x a ih =>
    cases b with
    | nil => cases h
    | cons y b =>
      cases c with
      | nil => cases h'
      | cons z c =>
        rw [notAfter_cons_iff] at h h' ⊢
        rcases h with h | ⟨rfl, h⟩
        · rcases h' with h' | ⟨rfl, -⟩
          · exact .inl (h.trans h')
          · exact .inl h
        · exact h'.imp_right fun ⟨heq, h'⟩ => ⟨heq, ih h h'⟩

theorem notAfter_antisymm (h : notAfter a b = true) (h' : notAfter b a = true) : a = b := by
  induction a generalizing b with
  | nil =>
    cases b with
    | nil => rfl
    | cons => cases h'
  | cons x a ih =>
    cases b with
    | nil => cases h
    | cons y b =>
      rw [notAfter_cons_iff] at h h'
      rcases h with h | ⟨rfl, h⟩
      · rcases h' with h' | ⟨rfl, -⟩
        · exact absurd h (lt_asymm h')
        · exact absurd h (lt_irrefl _)
      · rcases h' with h' | ⟨-, h'⟩
        · exact absurd h' (lt_irrefl _)
        · rw [ih h h']

/-- Places in order are determined by what they are. -/
theorem mergeSort_filter (keeps : Place → Bool) (places : List Place) :
    (places.mergeSort notAfter).filter keeps = (places.filter keeps).mergeSort notAfter := by
  have hordered : ∀ l : List Place, (l.mergeSort notAfter).Pairwise (notAfter · · = true) :=
    List.pairwise_mergeSort (fun _ _ _ => notAfter_trans) notAfter_total
  have hperm : ((places.mergeSort notAfter).filter keeps).Perm
      ((places.filter keeps).mergeSort notAfter) :=
    ((List.mergeSort_perm places notAfter).filter keeps).trans (List.mergeSort_perm _ _).symm
  exact hperm.eq_of_pairwise (fun _ _ _ _ => notAfter_antisymm) ((hordered _).filter keeps)
    (hordered _)

end Place

/-! ### Files of a tree -/

namespace Tree

variable {tree later : Tree} {place base : Place} {node : Node} {names : List String}

/-- The files below a place are those whose places go on from there. -/
theorem filesBelow_eq (tree : Tree) (base : Place) : tree.filesBelow base =
    (tree.files.filterMap base.isPrefixOf?).mergeSort Place.notAfter := by
  rw [filesBelow, files, List.filterMap_map, List.filterMap_filter]
  congr 2
  funext entry
  cases entry
  simp

theorem mem_filesBelow_iff : names ∈ tree.filesBelow base ↔ base ++ names ∈ tree.files := by
  simp [filesBelow_eq]

/-- Trees whose files are the same but for one place have the same listings but for
that place. -/
theorem filter_filesBelow_congr (h : later.files.filter (· != place) =
    tree.files.filter (· != place)) (base : Place) :
    (later.filesBelow base).filter (fun names => base ++ names != place) =
      (tree.filesBelow base).filter (fun names => base ++ names != place) := by
  have hbelow : ∀ tree : Tree, (tree.filesBelow base).filter (fun names => base ++ names != place) =
      ((tree.files.filter (· != place)).filterMap base.isPrefixOf?).mergeSort Place.notAfter := by
    intro tree
    rw [filesBelow_eq, Place.mergeSort_filter, List.filter_filterMap, List.filterMap_filter]
    congr 2
    funext other
    cases hprefix : base.isPrefixOf? other with
    | none => simp
    | some names =>
      obtain rfl := List.isPrefixOf?_eq_some_iff_append_eq.mp hprefix
      simp [Option.filter]
  rw [hbelow, hbelow, h]

/-! ### Names of what is there -/

/-- Everything in a tree has a name. -/
def IsNamed (tree : Tree) : Prop := ∀ entry ∈ tree.nodes, ∀ name ∈ entry.1, IsName name

/-- Whether everything has a name is decided in the same way. -/
instance (tree : Tree) : Decidable tree.IsNamed := inferInstanceAs (Decidable (∀ _ ∈ _, _))

theorem IsNamed.of_mem_files (h : tree.IsNamed) (hplace : place ∈ tree.files) :
    ∀ name ∈ place, IsName name := by
  obtain ⟨entry, hentry, rfl⟩ := List.mem_map.mp hplace
  exact h entry (List.mem_of_mem_filter hentry)

theorem follow_concat {start : Place} {before : List String} {piece : String}
    (h : tree.follow start before = .ok place) (hnode : tree.node? place = some .directory) :
    tree.follow start (before ++ [piece]) = .ok (step place piece) := by
  induction before generalizing start with
  | nil =>
    cases h
    rw [List.nil_append, follow, hnode]
    rfl
  | cons first rest ih =>
    rw [List.cons_append, follow]
    rw [follow] at h
    split at h
    · exact ih h
    · cases h
    · cases h

end Tree

/-! ### Paths of listed files -/

namespace World

variable {world : World} {path name : String} {base : Place} {names : List String}

/-- A name behind the path of a directory leads to the entry. -/
theorem locate_join (h : world.locate path = .ok base)
    (hnode : world.tree.node? base = some .directory) (hname : Tree.IsName name) :
    world.locate (Path.join path name) = .ok (base ++ [name]) := by
  obtain ⟨hpath, hfollow⟩ := locate_eq_ok_iff.mp h
  have hstep : Tree.step base name = base ++ [name] := by
    rw [Tree.step, if_neg hname.2.1, if_neg hname.2.2.1]
  refine locate_eq_ok_iff.mpr ⟨(Path.endsIn_join path (.refl name)).isEmpty hname, ?_⟩
  rw [Tree.isAbsolute_join path hname.isAbsolute, Tree.pieces_join path hname.isAbsolute,
    hname.pieces, ← hstep]
  exact Tree.follow_concat hfollow hnode

/-- **Listed files.**  The names of a file that stands below a directory lead to it, from
the path of the directory on. -/
theorem locate_foldl_join (hclosed : world.tree.IsClosed) (h : world.locate path = .ok base)
    (hnames : ∀ name ∈ names, Tree.IsName name)
    (hthere : (world.tree.node? (base ++ names)).isSome) :
    world.locate (names.foldl Path.join path) = .ok (base ++ names) := by
  induction names generalizing path base with
  | nil => rwa [List.append_nil]
  | cons name names ih =>
    rw [List.append_cons] at hthere ⊢
    obtain ⟨hname, hnames⟩ := List.forall_mem_cons.mp hnames
    have hentry : (world.tree.node? (base ++ [name])).isSome :=
      hclosed.isSome_of_below hthere
    obtain ⟨node, hnode⟩ := Option.isSome_iff_exists.mp hentry
    have hbase := Tree.isClosed_iff.mp hclosed _ _ hnode
    rw [List.dropLast_concat] at hbase
    exact ih (locate_join h hbase hname) hnames hthere

end World
end EntitySdl
