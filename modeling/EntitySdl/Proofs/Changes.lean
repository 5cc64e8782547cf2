import EntitySdl.Proofs.EmittedFiles

/-! # Changes at one place

Emitting one file changes what stands at one place, and adds directories around it.
Whatever stands elsewhere stays as it is, and is read as before.  So the file can be
emitted again without a change where its text is the same, or is kept.
-/
namespace EntitySdl

/-! ### Paths that lead to what is there -/

namespace Tree

variable {tree later : Tree} {start place : Place} {pieces : List String}

/-- A path that never goes up leads on by its pieces, in which single points do not count. -/
theorem eq_of_follow (hdots : ".." ∉ pieces) (h : tree.follow start pieces = .ok place) :
    place = start ++ pieces.filter (· != ".") := by
  induction pieces generalizing start with
  | nil =>
    cases h
    exact (List.append_nil _).symm
  | cons piece rest ih =>
    rw [List.mem_cons, not_or] at hdots
    rw [follow] at h
    split at h
    · rw [ih hdots.2 h, step, if_neg (Ne.symm hdots.1)]
      by_cases hpiece : piece = "."
      · simp [hpiece]
      · simp [hpiece]
    · cases h
    · cases h

/-- A path that never goes up leads further and further from where it starts. -/
theorem prefix_of_follow (hdots : ".." ∉ pieces) (h : tree.follow start pieces = .ok place) :
    start <+: place := by
  rw [eq_of_follow hdots h]
  exact List.prefix_append _ _

/-- A place lies on the way to a start, or goes on from there by some of the given pieces. -/
def LedBy (start : Place) (pieces : List String) (place : Place) : Prop :=
  ∃ outer names, place = outer ++ names ∧ outer <+: start ∧ names ⊆ pieces

theorem LedBy.step {piece : String} (h : LedBy start pieces place) (hpiece : piece ∈ pieces) :
    LedBy start pieces (step place piece) := by
  obtain ⟨outer, names, rfl, houter, hnames⟩ := h
  unfold Tree.step
  split
  · exact ⟨outer, names, rfl, houter, hnames⟩
  · split
    · rcases List.eq_nil_or_concat names with rfl | ⟨more, last, rfl⟩
      · refine ⟨outer.dropLast, [], by simp, (List.dropLast_prefix _).trans houter, nofun⟩
      · refine ⟨outer, more, ?_, houter, fun name hname => hnames ?_⟩
        · rw [List.concat_eq_append, ← List.append_assoc, List.dropLast_concat]
        · rw [List.concat_eq_append]
          exact List.mem_append_left _ hname
    · refine ⟨outer, names ++ [piece], List.append_assoc .., houter, fun name hname => ?_⟩
      rcases List.mem_append.mp hname with hname | hname
      · exact hnames hname
      · rwa [List.mem_singleton.mp hname]

/-- Wherever a path leads, it is led by its pieces. -/
theorem ledBy_of_follow (h : tree.follow start pieces = .ok place) :
    LedBy start pieces place := by
  suffices hrun : ∀ (rest : List String) (spot : Place), rest ⊆ pieces →
      LedBy start pieces spot → tree.follow spot rest = .ok place → LedBy start pieces place from
    hrun pieces start (List.Subset.refl _) ⟨start, [], by simp, List.prefix_rfl, nofun⟩ h
  intro rest
  induction rest with
  | nil =>
    intro spot _ hspot hfollow
    cases hfollow
    exact hspot
  | cons piece rest ih =>
    intro spot hrest hspot hfollow
    rw [List.cons_subset] at hrest
    rw [follow] at hfollow
    split at hfollow
    · exact ih _ hrest.2 (hspot.step hrest.1) hfollow
    · cases hfollow
    · cases hfollow

/-- What a path that never goes up leads to in a tree that has grown, it led to before, if
that was there. -/
theorem IsClosed.follow_of_extends (hclosed : tree.IsClosed) (hextends : tree.Extends later)
    (hdots : ".." ∉ pieces) (h : later.follow start pieces = .ok place)
    (hthere : (tree.node? place).isSome) : tree.follow start pieces = .ok place := by
  induction pieces generalizing start with
  | nil => exact h
  | cons piece rest ih =>
    obtain ⟨below, rfl⟩ := prefix_of_follow hdots h
    obtain ⟨node, hnode⟩ := Option.isSome_iff_exists.mp (hclosed.isSome_of_below hthere)
    rw [Tree.follow] at h ⊢
    split at h
    · rename_i hdirectory
      have hkind := hextends start node.kind (kind?_of_node? hnode)
      rw [kind?_eq_directory_iff.mpr hdirectory, Option.some.injEq] at hkind
      rw [kind?_eq_directory_iff.mp (hkind ▸ kind?_of_node? hnode)]
      exact ih (fun hmem => hdots (List.mem_cons_of_mem _ hmem)) h
    · cases h
    · cases h

/-- A path is followed to its end from where its first pieces lead. -/
theorem follow_append (tree : Tree) (start : Place) (front back : List String) :
    tree.follow start (front ++ back) = (tree.follow start front).bind (tree.follow · back) := by
  induction front generalizing start with
  | nil => rfl
  | cons piece front ih =>
    rw [List.cons_append, follow, follow]
    split
    · exact ih _
    · rfl
    · rfl

end Tree

namespace World

variable {world later : World} {path : String} {place : Place} {node : Node}

/-- A path goes up only on that part of it which leads somewhere: what follows leads
further and further on. -/
def Descends (world : World) (path : String) : Prop :=
  ∃ front back turn, Tree.pieces path = front ++ back ∧ ".." ∉ back ∧
    world.tree.follow (if Path.isAbsolute path then [] else world.directory) front = .ok turn

theorem descends_of_dots (hdots : ".." ∉ Tree.pieces path) : world.Descends path :=
  ⟨[], _, _, rfl, hdots, rfl⟩

theorem Extends.descends (h : world.Extends later) (hpath : world.Descends path) :
    later.Descends path := by
  obtain ⟨front, back, turn, hpieces, hdots, hfront⟩ := hpath
  rw [← h.directory] at hfront
  exact ⟨front, back, turn, hpieces, hdots, h.tree.follow hfront⟩

/-- What a path leads to in a world that extends another, it led to there, if that was
there and the path did not go up further than it led. -/
theorem Descends.has (h : world.Descends path) (hclosed : world.tree.IsClosed)
    (hextends : world.Extends later) (hfind : later.find path = .ok (place, node))
    (hthere : (world.tree.node? place).isSome) : world.Has path := by
  obtain ⟨front, back, turn, hpieces, hdots, hfront⟩ := h
  obtain ⟨hlocate, hnode, hasks⟩ := find_eq_ok_iff.mp hfind
  obtain ⟨hpath, hfollow⟩ := locate_eq_ok_iff.mp hlocate
  rw [hextends.directory, hpieces, Tree.follow_append, hextends.tree.follow hfront] at hfollow
  obtain ⟨there, hold⟩ := Option.isSome_iff_exists.mp hthere
  have hkind := hextends.tree place there.kind (Tree.kind?_of_node? hold)
  rw [Tree.kind?_of_node? hnode, Option.some.injEq] at hkind
  refine ⟨_, find_eq_ok_iff.mpr ⟨locate_eq_ok_iff.mpr ⟨hpath, ?_⟩, hold,
    fun hfile => hasks (hkind.trans hfile)⟩⟩
  rw [hpieces, Tree.follow_append, hfront]
  exact hclosed.follow_of_extends hextends.tree hdots hfollow hthere

/-- A world that differs from another by new directories, and by what stands at one
place, at most. -/
structure ChangesAt (place : Place) (world later : World) : Prop where
  /-- What is there stays there. -/
  kinds : world.Extends later
  /-- Elsewhere it stays as it is. -/
  nodes : ∀ other node, other ≠ place → world.tree.node? other = some node →
    later.tree.node? other = some node
  /-- Elsewhere there are no new files. -/
  files : later.tree.files.filter (· != place) = world.tree.files.filter (· != place)

@[refl] theorem ChangesAt.refl (place : Place) (world : World) : ChangesAt place world world :=
  ⟨.refl _, fun _ _ _ h => h, rfl⟩

/-- A text that is read elsewhere is read again. -/
theorem ChangesAt.read {text : String} (h : ChangesAt place world later)
    (haway : later.locate path ≠ .ok place) (hread : world.read path = .ok text) :
    later.read path = .ok text := by
  obtain ⟨⟨other, node⟩, hfind, hnode⟩ := bind_eq_ok_iff.mp hread
  cases node with
  | directory => cases hnode
  | file content =>
    cases hnode
    obtain ⟨hlocate, hnode, hasks⟩ := find_eq_ok_iff.mp hfind
    have hlocate := h.kinds.locate hlocate
    have hother : other ≠ place := fun heq => haway (heq ▸ hlocate)
    have hfind : later.find path = .ok (other, .file text) :=
      find_eq_ok_iff.mpr ⟨hlocate, h.nodes other _ hother hnode, hasks⟩
    exact bind_eq_ok_iff.mpr ⟨_, hfind, rfl⟩

end World

/-! ### Written documents -/

namespace Generate.Emitter

open World

variable {emitter : Emitter} {file : OutputFile} {world later : World} {delivery : Delivery}

/-- Emitting a file changes the world where the path of the file then leads. -/
theorem Emits.exists_changesAt (h : Emits emitter file world (.ok delivery) later) :
    ∃ place node, later.find (emitter.pathOf file) = .ok (place, node) ∧
      ChangesAt place world later := by
  cases h with
  | kept _ hpath =>
    obtain ⟨⟨place, node⟩, hfind⟩ := hpath
    exact ⟨place, node, hfind, .refl _ _⟩
  | @written between place hgrows hholder htarget =>
    have hplace := ne_nil_of_target htarget
    have hrewritable : IsRewritable (between.put place (.file file.content)) (emitter.pathOf file)
      place := isRewritable_put hholder htarget
    obtain ⟨hlocate, -, hasks⟩ := hrewritable.file
    refine ⟨place, .file file.content, find_eq_ok_iff.mpr ⟨hlocate, ?_, fun _ => hasks⟩,
      hgrows.toExtends.trans (extends_of_target htarget _), fun other node hother hnode => ?_, ?_⟩
    · exact (Tree.node?_put hplace place).trans (if_pos rfl)
    · exact keepsBut_put hgrows hplace _ other node (by simpa using hother) hnode
    · rw [← hgrows.files]
      exact Tree.filter_files_put _ _ _

/-- A file is emitted again without a change where it is kept, or where its text is the
same. -/
theorem emit_again_iff (h : Runs (emitter.emit file) world (.ok delivery) later) (text : String) :
    (∃ again, Runs (emitter.emit { file with content := text }) later (.ok again) later) ↔
      (emitter.overwrite = true → text = file.content) := by
  cases emits_of_runs h with
  | kept hoverwrite hpath =>
    refine iff_of_true ⟨_, runs_emit_kept hoverwrite hpath⟩ fun htrue => ?_
    rw [hoverwrite] at htrue
    cases htrue
  | @written between place hgrows hholder htarget =>
    have hrewritable : IsRewritable (between.put place (.file file.content)) (emitter.pathOf file)
      place := isRewritable_put hholder htarget
    have hplace := ne_nil_of_target htarget
    cases hoverwrite : emitter.overwrite with
    | false =>
      refine iff_of_true ⟨_, runs_emit_kept hoverwrite ?_⟩ nofun
      exact has_iff.mpr (.inr ⟨place, hrewritable.file⟩)
    | true =>
      have hagain : Runs (emitter.emit { file with content := text })
          (between.put place (.file file.content)) (.ok (.written (emitter.pathOf file)))
          (between.put place (.file text)) := by
        have hwritten : Runs (emitter.emit { file with content := text })
            (between.put place (.file file.content)) (.ok (.written (emitter.pathOf file)))
            ((between.put place (.file file.content)).put place (.file text)) :=
          runs_emit_written hoverwrite hrewritable
        simp only [put, Tree.put, Tree.putNode_putNode] at hwritten
        exact hwritten
      have hnode : ∀ content, (between.put place (.file content)).tree.node? place =
          some (.file content) := fun _ => (Tree.node?_put hplace place).trans (if_pos rfl)
      constructor
      · rintro ⟨again, hsettled⟩ -
        have hsame := congrArg (fun world : World => world.tree.node? place)
          (hagain.unique hsettled).2
        simp only [hnode, Option.some.injEq, Node.file.injEq] at hsame
        exact hsame.symm
      · intro htext
        rw [htext rfl] at hagain ⊢
        exact ⟨_, hagain⟩

end Generate.Emitter

end EntitySdl
