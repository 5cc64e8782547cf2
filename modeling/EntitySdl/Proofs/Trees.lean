import EntitySdl.Files.Tree
import Mathlib.Data.List.Induction

/-! # Trees that grow

Writing files and creating directories puts nodes into a tree.  No node is ever taken
out of it, and none turns from a file into a directory or back: the tree extends the
one before.  Paths that lead to a place lead there in every tree that extends it.

Nodes that are put where others stand replace them.  Putting some nodes again, one
after the other, changes nothing in a tree that holds the last of them at every place.
-/
namespace EntitySdl
namespace Tree

variable {tree other later : Tree} {place : Place} {node : Node} {nodes : List (Place × Node)}

/-! ### Nodes that are put -/

theorem lookup_node_cons (first : Place) (old : Node) (rest : List (Place × Node)) (place : Place) :
    ((first, old) :: rest).lookup place =
      if place = first then some old else rest.lookup place := by
  rw [List.lookup_cons]
  by_cases h : place = first
  · rw [if_pos h, beq_iff_eq.mpr h]
  · rw [if_neg h, beq_eq_false_iff_ne.mpr h]

theorem isSome_lookup_iff : (nodes.lookup place).isSome ↔ place ∈ nodes.map Prod.fst := by
  rw [List.lookup_isSome_iff, List.mem_map]
  exact exists_congr fun entry => and_congr_right fun _ => beq_iff_eq.trans eq_comm

theorem mem_of_lookup (h : nodes.lookup place = some node) : (place, node) ∈ nodes := by
  obtain ⟨before, behind, rfl, -⟩ := List.lookup_eq_some_iff.mp h
  exact List.mem_append_right _ List.mem_cons_self

theorem lookup_putNode (spot : Place) : (putNode place node nodes).lookup spot =
    if spot = place then some node else nodes.lookup spot := by
  induction nodes with
  | nil => exact lookup_node_cons place node [] spot
  | cons entry rest ih =>
    obtain ⟨first, old⟩ := entry
    by_cases hfirst : first = place
    · subst hfirst
      simp only [putNode, if_true, lookup_node_cons]
      split <;> rfl
    · simp only [putNode, if_neg hfirst, lookup_node_cons, ih]
      by_cases h : spot = first
      · simp [h, hfirst]
      · simp [h]

/-- The root stays a directory, whatever is put there. -/
theorem node?_put (hplace : place ≠ []) (spot : Place) :
    (tree.put place node).node? spot = if spot = place then some node else tree.node? spot := by
  by_cases hroot : spot = []
  · subst hroot
    simp [node?, hplace.symm]
  · simp only [node?, put, if_neg hroot, lookup_putNode]

/-- Nothing changes where a node is put that stands there. -/
theorem putNode_self (h : nodes.lookup place = some node) : putNode place node nodes = nodes := by
  induction nodes with
  | nil => cases h
  | cons entry rest ih =>
    obtain ⟨first, old⟩ := entry
    by_cases hfirst : first = place
    · subst hfirst
      simp only [List.lookup_cons_self, Option.some.injEq] at h
      simp [putNode, h]
    · rw [lookup_node_cons, if_neg (Ne.symm hfirst)] at h
      simp [putNode, hfirst, ih h]

/-- Only the last of two nodes at one place counts. -/
theorem putNode_putNode (before : Node) :
    putNode place node (putNode place before nodes) = putNode place node nodes := by
  induction nodes with
  | nil => simp [putNode]
  | cons entry rest ih =>
    obtain ⟨first, old⟩ := entry
    by_cases hfirst : first = place <;> simp [putNode, hfirst, ih]

/-- Nodes at two places may be put in either order, when one of them replaces another. -/
theorem putNode_comm {away : Place} {behind : Node} (hne : away ≠ place)
    (h : (nodes.lookup place).isSome) :
    putNode away behind (putNode place node nodes) =
      putNode place node (putNode away behind nodes) := by
  induction nodes with
  | nil => cases h
  | cons entry rest ih =>
    obtain ⟨first, old⟩ := entry
    by_cases hfirst : first = place
    · subst hfirst
      simp [putNode, Ne.symm hne]
    · rw [lookup_node_cons, if_neg (Ne.symm hfirst)] at h
      by_cases haway : first = away
      · subst haway
        simp [putNode, hfirst]
      · simp [putNode, hfirst, haway, ih h]

/-! ### Files -/

/-- The places of the files of a tree. -/
def files (tree : Tree) : List Place :=
  (tree.nodes.filter fun entry => entry.2.kind = .file).map Prod.fst

theorem isSome_node?_of_mem_files (h : place ∈ tree.files) : (tree.node? place).isSome := by
  obtain ⟨entry, hentry, rfl⟩ := List.mem_map.mp h
  rw [node?]
  split
  · rfl
  · exact isSome_lookup_iff.mpr (List.mem_map_of_mem (List.mem_filter.mp hentry).1)

/-- A new directory is no file. -/
theorem files_put_directory (h : tree.node? place = none) :
    (tree.put place .directory).files = tree.files := by
  rw [node?] at h
  split at h
  · cases h
  · obtain ⟨nodes⟩ := tree
    simp only [files, put] at h ⊢
    induction nodes with
    | nil => rfl
    | cons entry rest ih =>
      obtain ⟨first, old⟩ := entry
      rw [lookup_node_cons] at h
      split at h
      · cases h
      · rename_i hfirst
        rw [putNode, if_neg (Ne.symm hfirst), List.filter_cons, List.filter_cons]
        split
        · exact congrArg (first :: ·) (ih h)
        · exact ih h

/-- Whatever is put somewhere, the files elsewhere stay the same. -/
theorem filter_files_put (tree : Tree) (place : Place) (node : Node) :
    (tree.put place node).files.filter (· != place) = tree.files.filter (· != place) := by
  have hnodes : (putNode place node tree.nodes).filter (·.1 != place) =
      tree.nodes.filter (·.1 != place) := by
    induction tree.nodes with
    | nil => simp [putNode]
    | cons entry rest ih =>
      obtain ⟨first, old⟩ := entry
      by_cases hfirst : first = place
      · simp [putNode, hfirst]
      · simp [putNode, hfirst, ih]
  have hfiles : ∀ tree : Tree, tree.files.filter (· != place) =
      ((tree.nodes.filter (·.1 != place)).filter fun entry => entry.2.kind = .file).map Prod.fst :=
    fun tree => by
      rw [files, List.filter_map, List.filter_filter, List.filter_filter]
      simp only [Function.comp_def, Bool.and_comm]
  rw [hfiles, hfiles, put, hnodes]

/-! ### Putting nodes again -/

/-- Nodes put one after the other. -/
def putAll (puts : List (Place × Node)) (nodes : List (Place × Node)) : List (Place × Node) :=
  puts.foldl (fun nodes entry => putNode entry.1 entry.2 nodes) nodes

/-- A node that is replaced later does not count. -/
theorem putAll_putNode {puts : List (Place × Node)} (hlater : place ∈ puts.map Prod.fst)
    (h : (nodes.lookup place).isSome) :
    putAll puts (putNode place node nodes) = putAll puts nodes := by
  induction puts generalizing nodes with
  | nil => cases hlater
  | cons entry puts ih =>
    obtain ⟨first, behind⟩ := entry
    show putAll puts (putNode first behind (putNode place node nodes)) =
      putAll puts (putNode first behind nodes)
    by_cases hfirst : first = place
    · subst hfirst
      rw [putNode_putNode]
    · rw [putNode_comm hfirst h]
      refine ih ?_ ?_
      · simpa [Ne.symm hfirst] using hlater
      · rw [lookup_putNode, if_neg (Ne.symm hfirst)]
        exact h

/-- **Putting nodes again.**  Where the last of them stands at each place, nothing
changes. -/
theorem putAll_self {puts : List (Place × Node)}
    (h : ∀ place node, puts.reverse.lookup place = some node → nodes.lookup place = some node) :
    putAll puts nodes = nodes := by
  induction puts with
  | nil => rfl
  | cons entry puts ih =>
    obtain ⟨place, node⟩ := entry
    have hrest : putAll puts nodes = nodes := by
      refine ih fun place node hlookup => h place node ?_
      rw [List.reverse_cons, List.lookup_append, hlookup]
      rfl
    show putAll puts (putNode place node nodes) = nodes
    by_cases hlater : place ∈ puts.map Prod.fst
    · -- another node is put there later, and that one stands there
      have hsome : (puts.reverse.lookup place).isSome :=
        isSome_lookup_iff.mpr (by rwa [List.map_reverse, List.mem_reverse])
      obtain ⟨last, hlast⟩ := Option.isSome_iff_exists.mp hsome
      have hstands : nodes.lookup place = some last := by
        refine h place last ?_
        rw [List.reverse_cons, List.lookup_append, hlast]
        rfl
      rw [putAll_putNode hlater (by rw [hstands]; rfl), hrest]
    · have hnone : puts.reverse.lookup place = none := by
        rwa [← Option.not_isSome_iff_eq_none, isSome_lookup_iff, List.map_reverse,
          List.mem_reverse]
      have hstands : nodes.lookup place = some node := by
        refine h place node ?_
        rw [List.reverse_cons, List.lookup_append, hnone]
        simp
      rw [putNode_self hstands, hrest]

/-! ### Trees that extend others -/

/-- Whether a file or a directory stands at a place. -/
def kind? (tree : Tree) (place : Place) : Option NodeKind := (tree.node? place).map Node.kind

/-- A tree has a file or a directory wherever another one has it. -/
def Extends (tree later : Tree) : Prop :=
  ∀ place kind, tree.kind? place = some kind → later.kind? place = some kind

@[refl] theorem Extends.refl (tree : Tree) : tree.Extends tree := fun _ _ h => h

theorem Extends.trans (h : tree.Extends other) (hlater : other.Extends later) :
    tree.Extends later :=
  fun place kind hkind => hlater place kind (h place kind hkind)

theorem kind?_of_node? (h : tree.node? place = some node) :
    tree.kind? place = some node.kind := by
  rw [kind?, h]
  rfl

/-- What is there is there in a tree that extends the one it was in. -/
theorem Extends.isSome_node? (h : tree.Extends later) (hthere : (tree.node? place).isSome) :
    (later.node? place).isSome := by
  obtain ⟨node, hnode⟩ := Option.isSome_iff_exists.mp hthere
  obtain ⟨found, hfound, -⟩ := Option.map_eq_some_iff.mp (h place _ (kind?_of_node? hnode))
  rw [hfound]
  rfl

theorem kind?_eq_directory_iff :
    tree.kind? place = some .directory ↔ tree.node? place = some .directory := by
  rw [kind?, Option.map_eq_some_iff]
  constructor
  · rintro ⟨node, hnode, hkind⟩
    cases node with
    | directory => exact hnode
    | file => cases hkind
  · exact fun h => ⟨_, h, rfl⟩

theorem Extends.directory (h : tree.Extends later) (hnode : tree.node? place = some .directory) :
    later.node? place = some .directory :=
  kind?_eq_directory_iff.mp (h place _ (kind?_eq_directory_iff.mpr hnode))

theorem kind?_put (hplace : place ≠ []) (spot : Place) :
    (tree.put place node).kind? spot =
      if spot = place then some node.kind else tree.kind? spot := by
  rw [kind?, node?_put hplace]
  split <;> rfl

/-- A node of the same kind as the one there, or one where none is, extends a tree. -/
theorem extends_put (hplace : place ≠ [])
    (h : tree.kind? place = none ∨ tree.kind? place = some node.kind) :
    tree.Extends (tree.put place node) := by
  intro spot kind hkind
  rw [kind?_put hplace]
  split
  · rename_i hat
    subst hat
    rcases h with h | h
    · rw [h] at hkind
      cases hkind
    · rwa [h] at hkind
  · exact hkind

/-- A path leads to the same place in a tree that extends the one it was followed in. -/
theorem Extends.follow (h : tree.Extends later) {start : Place} {pieces : List String}
    (hfollow : tree.follow start pieces = .ok place) : later.follow start pieces = .ok place := by
  induction pieces generalizing start with
  | nil => exact hfollow
  | cons piece rest ih =>
    rw [Tree.follow] at hfollow ⊢
    cases hnode : tree.node? start with
    | none =>
      rw [hnode] at hfollow
      cases hfollow
    | some node =>
      rw [hnode] at hfollow
      cases node with
      | file => cases hfollow
      | directory =>
        rw [h.directory hnode]
        exact ih hfollow

/-! ### Closed trees -/

/-- Whatever stands in a tree stands in a directory. -/
def IsClosed (tree : Tree) : Prop :=
  ∀ entry ∈ tree.nodes, tree.node? entry.1.dropLast = some .directory

/-- Whether a tree is closed is decided by going over its entries. -/
instance (tree : Tree) : Decidable tree.IsClosed := inferInstanceAs (Decidable (∀ _ ∈ _, _))

theorem isClosed_iff : tree.IsClosed ↔
    ∀ place node, tree.node? place = some node → tree.node? place.dropLast = some .directory := by
  constructor
  · intro h place node hnode
    rw [node?] at hnode
    split at hnode
    · rename_i hroot
      subst hroot
      rfl
    · exact h _ (mem_of_lookup hnode)
  · rintro h ⟨place, node⟩ hmem
    by_cases hroot : place = []
    · subst hroot
      rfl
    · have hsome : (tree.nodes.lookup place).isSome :=
        isSome_lookup_iff.mpr (List.mem_map_of_mem hmem)
      obtain ⟨found, hfound⟩ := Option.isSome_iff_exists.mp hsome
      refine h place found ?_
      rw [node?, if_neg hroot, hfound]

/-- Nothing stands below a place where nothing is. -/
theorem IsClosed.isSome_of_below (h : tree.IsClosed) {below : Place}
    (hbelow : (tree.node? (place ++ below)).isSome) : (tree.node? place).isSome := by
  induction below using List.reverseRecOn with
  | nil => rwa [List.append_nil] at hbelow
  | append_singleton below name ih =>
    obtain ⟨node, hnode⟩ := Option.isSome_iff_exists.mp hbelow
    have houter := isClosed_iff.mp h _ node hnode
    rw [← List.append_assoc, List.dropLast_concat] at houter
    exact ih (by rw [houter]; rfl)

/-- A tree stays closed when a node is put into a directory. -/
theorem IsClosed.put (h : tree.IsClosed) (hplace : place ≠ [])
    (hextends : tree.Extends (tree.put place node))
    (houter : tree.node? place.dropLast = some .directory) : (tree.put place node).IsClosed := by
  refine isClosed_iff.mpr fun spot found hfound => hextends.directory ?_
  rw [node?_put hplace] at hfound
  split at hfound
  · rename_i hspot
    rwa [hspot]
  · exact isClosed_iff.mp h spot found hfound

/-- In a closed tree, a path leads into a directory, whether there is something at its
end or not. -/
theorem IsClosed.follow (h : tree.IsClosed) {start : Place} {pieces : List String}
    (hfollow : tree.follow start pieces = .ok place) (hne : pieces ≠ []) :
    tree.node? place.dropLast = some .directory := by
  induction pieces generalizing start with
  | nil => exact absurd rfl hne
  | cons piece rest ih =>
    rw [Tree.follow] at hfollow
    split at hfollow
    · rename_i hstart
      cases rest with
      | cons => exact ih hfollow (List.cons_ne_nil _ _)
      | nil =>
        cases hfollow
        have houter := isClosed_iff.mp h start _ hstart
        unfold step
        split
        · exact houter
        · split
          · exact isClosed_iff.mp h _ _ houter
          · rwa [List.dropLast_concat]
    · cases hfollow
    · cases hfollow

/-- A path that is not empty and does not begin at the root has a piece. -/
theorem pieces_ne_nil {path : String} (hpath : path.isEmpty = false)
    (habsolute : Path.isAbsolute path = false) : pieces path ≠ [] := by
  unfold pieces Path.isAbsolute at *
  rw [ne_eq, List.map_eq_nil_iff]
  cases hcs : path.toList with
  | nil =>
    rw [String.toList_eq_nil_iff.mp hcs] at hpath
    cases hpath
  | cons c cs =>
    have hslash : (c == '/') = false := by simpa [hcs] using habsolute
    rw [Text.splitAt, hslash]
    simp only [Bool.false_eq_true, if_false]
    split <;> simp

end Tree
end EntitySdl
