import EntitySdl.Files.Tree
import Mathlib.Data.String.Basic

/-! # Pieces of paths

A path is cut into pieces at its slashes.  Where two texts meet at a slash, the pieces of
both are those of the whole.  So a path that is joined to another adds its pieces, and the
directories around a path have its first pieces.  A name at the end of a path is its last
piece and its last component, whatever stands before it.
-/
namespace EntitySdl

namespace Tree

/-- No piece of a path lies across the seam of two texts: there is a slash at it, or one
of them is empty. -/
def MeetAtSlash (front back : List Char) : Prop :=
  (front = [] ∨ front.getLast? = some '/') ∨ back = [] ∨ back.head? = some '/'

theorem splitAt_slash : ∀ cs ds : List Char, Text.splitAt (· == '/') (cs ++ '/' :: ds) =
    Text.splitAt (· == '/') cs ++ Text.splitAt (· == '/') ds :=
  Text.splitAt_append_cons (beq_self_eq_true '/')

/-- The pieces of two texts that meet at a slash. -/
theorem pieces_append {front back : List Char} (h : MeetAtSlash front back) :
    pieces (String.ofList (front ++ back)) =
      pieces (String.ofList front) ++ pieces (String.ofList back) := by
  simp only [pieces, String.toList_ofList]
  rcases h with (rfl | h) | rfl | h
  · rfl
  · obtain ⟨front, rfl⟩ := List.getLast?_eq_some_iff.mp h
    rw [List.append_assoc, List.singleton_append, splitAt_slash, splitAt_slash]
    simp [Text.splitAt]
  · rw [List.append_nil]
    simp [Text.splitAt]
  · obtain ⟨rest, rfl⟩ := List.head?_eq_some_iff.mp h
    rw [splitAt_slash, ← List.nil_append ('/' :: rest), splitAt_slash]
    simp [Text.splitAt]

/-- The pieces of a relative path come behind those of the path that it is joined to. -/
theorem pieces_join (dir : String) {path : String} (h : Path.isAbsolute path = false) :
    pieces (Path.join dir path) = pieces dir ++ pieces path := by
  have hseam : ∀ front back : String, MeetAtSlash front.toList back.toList →
      pieces (front ++ back) = pieces front ++ pieces back := fun front back hmeet => by
    have happend := pieces_append hmeet
    rwa [← String.toList_append, String.ofList_toList, String.ofList_toList,
      String.ofList_toList] at happend
  rw [Path.join, h, if_neg Bool.false_ne_true]
  split
  · rename_i hdir
    refine hseam dir path (.inl ?_)
    simpa [String.isEmpty_iff, String.toList_eq_nil_iff] using hdir
  · rw [hseam _ path (.inl (.inr (by simp [String.toList_append]))),
      hseam dir "/" (.inr (.inr rfl))]
    simp [pieces, Text.splitAt]

theorem isAbsolute_join (dir : String) {path : String} (h : Path.isAbsolute path = false) :
    Path.isAbsolute (Path.join dir path) = Path.isAbsolute dir := by
  rw [Path.join, h, if_neg Bool.false_ne_true]
  by_cases hdir : dir = ""
  · subst hdir
    have hempty : Path.isAbsolute "" = false := by decide
    simp [h, hempty]
  · have hne : dir.toList ≠ [] := fun hnil => hdir (String.toList_eq_nil_iff.mp hnil)
    unfold Path.isAbsolute
    split <;> simp [String.toList_append, List.head?_append_of_ne_nil _ hne, List.append_assoc]

/-- A piece of a path that leads on to an entry of a directory. -/
def IsName (name : String) : Prop :=
  name ≠ "" ∧ name ≠ "." ∧ name ≠ ".." ∧ '/' ∉ name.toList

/-- Whether a piece is a name is decided by its characters. -/
instance (name : String) : Decidable (IsName name) := inferInstanceAs (Decidable (_ ∧ _))

variable {name : String}

theorem IsName.isAbsolute (h : IsName name) : Path.isAbsolute name = false := by
  refine beq_eq_false_iff_ne.mpr fun hslash => h.2.2.2 ?_
  exact List.mem_of_mem_head? (by rw [hslash]; rfl)

/-- A name has no slash in it. -/
theorem IsName.splitAt (h : IsName name) :
    Text.splitAt (· == '/') name.toList = [name.toList] :=
  Text.splitAt_eq_singleton fun _ hc => beq_eq_false_iff_ne.mpr (ne_of_mem_of_not_mem hc h.2.2.2)

theorem IsName.pieces (h : IsName name) : Tree.pieces name = [name] := by
  have hne : name.toList ≠ [] := fun hnil => h.1 (String.toList_eq_nil_iff.mp hnil)
  simp [Tree.pieces, h.splitAt, hne]

end Tree

namespace Path

open EntitySdl.Tree

/-! ### Directories around a path -/

/-- A path begins with another one: it has its first pieces, and starts where the other
one starts. -/
structure Begins (path outer : List Char) : Prop where
  /-- The first pieces are those of the other. -/
  pieces : Tree.pieces (String.ofList outer) <+: Tree.pieces (String.ofList path)
  /-- Both start at the root, or neither does. -/
  head : outer ≠ [] → outer.head? = path.head?

theorem Begins.refl (path : List Char) : Begins path path := ⟨List.prefix_rfl, fun _ => rfl⟩

theorem Begins.trans {path outer farther : List Char} (h : Begins path outer)
    (hfarther : Begins outer farther) : Begins path farther := by
  refine ⟨hfarther.pieces.trans h.pieces, fun hne => ?_⟩
  have hhead := hfarther.head hne
  refine hhead.trans (h.head ?_)
  rintro rfl
  exact hne (List.head?_eq_none_iff.mp hhead)

theorem begins_append {front back : List Char} (h : MeetAtSlash front back) :
    Begins (front ++ back) front := by
  refine ⟨?_, fun hne => (List.head?_append_of_ne_nil _ hne).symm⟩
  rw [pieces_append h]
  exact List.prefix_append _ _

/-- Slashes and single points at the end do not count. -/
theorem begins_dropEnd (reversed : List Char) :
    Begins reversed.reverse (dropEnd reversed).reverse := by
  fun_induction dropEnd reversed with
  | case1 c rest ih =>
    rw [List.reverse_cons]
    exact (begins_append (.inr (.inr rfl))).trans ih
  | case2 rest ih =>
    rw [List.reverse_cons]
    exact (begins_append (.inl (.inr (by simp)))).trans ih
  | case3 => exact .refl _

/-- A path begins with that of the directory which holds it. -/
theorem begins_parent {path parent : String} (h : parent? path = some parent) :
    Begins path.toList parent.toList := by
  unfold parent? at h
  have hpath := begins_dropEnd path.toList.reverse
  rw [List.reverse_reverse] at hpath
  split at h
  · cases h
  · cases h
  · cases h
    rw [String.toList_ofList]
    generalize dropEnd path.toList.reverse = reversed at hpath ⊢
    have hname : reversed.reverse = (reversed.dropWhile (· != '/')).reverse ++
        (reversed.takeWhile (· != '/')).reverse := by
      rw [← List.reverse_append, List.takeWhile_append_dropWhile]
    have hholder : Begins reversed.reverse (reversed.dropWhile (· != '/')).reverse := by
      rw [hname]
      refine begins_append (.inl ?_)
      rcases hdrop : reversed.dropWhile (· != '/') with _ | ⟨c, rest⟩
      · exact .inl rfl
      · have hc := List.head?_dropWhile_not (· != '/') reversed
        rw [hdrop] at hc
        have hslash : c = '/' := by simpa using hc
        exact .inr (by simp [hslash])
    exact (hpath.trans hholder).trans (begins_dropEnd _)

/-- A path begins with those of all directories around it, and these are not empty. -/
theorem begins_ancestors {path outer : String} (h : outer ∈ ancestors path) :
    Begins path.toList outer.toList ∧ outer.isEmpty = false := by
  unfold ancestors at h
  generalize path.length = count at h
  induction count generalizing path with
  | zero => cases h
  | succ count ih =>
    rw [ancestorsFrom] at h
    split at h
    · cases h
    · rename_i hpath
      rcases List.mem_cons.mp h with rfl | hmem
      · exact ⟨.refl _, by simpa using hpath⟩
      · cases hparent : parent? path with
        | none =>
          rw [hparent] at hmem
          cases hmem
        | some parent =>
          rw [hparent] at hmem
          obtain ⟨hbegins, hne⟩ := ih hmem
          exact ⟨(begins_parent hparent).trans hbegins, hne⟩

/-! ### Names at the end -/

variable {path name : String}

/-- A path ends in a name: there is nothing before it, or a slash. -/
def EndsIn (path name : String) : Prop :=
  ∃ front, (front = [] ∨ front.getLast? = some '/') ∧ path.toList = front ++ name.toList

theorem EndsIn.refl (name : String) : EndsIn name name := ⟨[], .inl rfl, rfl⟩

/-- What a path ends in does not depend on where it starts. -/
theorem endsIn_join (dir : String) (h : EndsIn path name) : EndsIn (join dir path) name := by
  obtain ⟨front, hfront, hpath⟩ := h
  have hadd : ∀ start : String, start.toList = [] ∨ start.toList.getLast? = some '/' →
      EndsIn (start ++ path) name := fun start hstart => by
    refine ⟨start.toList ++ front, ?_, by rw [String.toList_append, hpath, List.append_assoc]⟩
    rcases hfront with rfl | hfront
    · rwa [List.append_nil]
    · exact .inr (List.mem_getLast?_append_of_mem_getLast? hfront)
  unfold join
  split
  · exact ⟨front, hfront, hpath⟩
  · split
    · rename_i hdir
      exact hadd dir (by simpa [String.isEmpty_iff, String.toList_eq_nil_iff] using hdir)
    · exact hadd _ (.inr (by simp [String.toList_append]))

theorem EndsIn.isEmpty (h : EndsIn path name) (hname : IsName name) : path.isEmpty = false := by
  obtain ⟨front, -, hpath⟩ := h
  rw [← Bool.not_eq_true, String.isEmpty_iff, ← String.toList_eq_nil_iff, hpath,
    List.append_eq_nil_iff, not_and, String.toList_eq_nil_iff]
  exact fun _ => hname.1

/-- The name is the last piece. -/
theorem EndsIn.pieces (h : EndsIn path name) (hname : IsName name) :
    ∃ outer, Tree.pieces path = outer ++ [name] := by
  obtain ⟨front, hfront, hpath⟩ := h
  have happend : Tree.pieces (String.ofList (front ++ name.toList)) = _ :=
    pieces_append (.inl hfront)
  rw [← hpath, String.ofList_toList, String.ofList_toList, hname.pieces] at happend
  exact ⟨_, happend⟩

theorem EndsIn.getLast? (h : EndsIn path name) (hname : IsName name) :
    (Tree.pieces path).getLast? = some name := by
  obtain ⟨outer, hpieces⟩ := h.pieces hname
  rw [hpieces, List.getLast?_concat]

theorem EndsIn.unique {other : String} (h : EndsIn path name) (hname : IsName name)
    (h' : EndsIn path other) (hother : IsName other) : other = name :=
  Option.some.inj ((h'.getLast? hother).symm.trans (h.getLast? hname))

theorem component?_name (hname : IsName name) (first : Bool) :
    component? first name.toList = some (.entry name) := by
  unfold component?
  split
  · rename_i h
    exact absurd (String.toList_eq_nil_iff.mp h) hname.1
  · rename_i h
    exact absurd (String.toList_inj.mp h) hname.2.1
  · rename_i h
    exact absurd (String.toList_inj.mp h) hname.2.2.1
  · rw [String.ofList_toList]

/-- The name is the last component. -/
theorem EndsIn.components (h : EndsIn path name) (hname : IsName name) :
    (components path).getLast? = some (.entry name) := by
  obtain ⟨front, hfront, hpath⟩ := h
  have hpieces : Text.splitAt (· == '/') path.toList = [name.toList] ∨
      ∃ piece pieces, Text.splitAt (· == '/') path.toList = piece :: (pieces ++ [name.toList]) := by
    rcases hfront with rfl | hfront
    · exact .inl (by rw [hpath, List.nil_append, hname.splitAt])
    · obtain ⟨outer, rfl⟩ := List.getLast?_eq_some_iff.mp hfront
      have happend := splitAt_slash outer name.toList
      obtain ⟨piece, pieces, houter⟩ := List.exists_cons_of_ne_nil
        (Text.splitAt_ne_nil (· == '/') outer)
      rw [hname.splitAt, houter] at happend
      refine .inr ⟨piece, pieces, ?_⟩
      rw [hpath, List.append_assoc, List.singleton_append, happend, List.cons_append]
  have hlast : ∀ front pieces, (front ++ (pieces ++ [name.toList]).filterMap
      (component? false)).getLast? = some (.entry name) := fun front pieces => by
    rw [List.filterMap_append, List.filterMap_cons_some (component?_name hname false)]
    simp
  unfold Path.components
  rcases hpieces with hpieces | ⟨piece, pieces, hpieces⟩
  · rw [hpieces]
    split
    · rename_i heq
      cases heq
    · rename_i heq
      exact absurd (String.toList_eq_nil_iff.mp (List.singleton_inj.mp heq)) hname.1
    · rename_i heq
      exact absurd (String.toList_eq_nil_iff.mp (List.cons.inj heq).1) hname.1
    · rename_i heq
      obtain ⟨rfl, rfl⟩ := List.cons.inj heq
      rw [component?_name hname]
      rfl
  · rw [hpieces]
    split
    · rename_i heq
      cases heq
    · rename_i heq
      cases (List.append_ne_nil_of_right_ne_nil _ (List.cons_ne_nil _ _)) (List.cons.inj heq).2
    · rename_i heq
      obtain ⟨-, rfl⟩ := List.cons.inj heq
      exact hlast [.root] pieces
    · rename_i heq
      obtain ⟨rfl, rfl⟩ := List.cons.inj heq
      exact hlast _ pieces

/-- Paths that end in different names are not the same. -/
theorem EndsIn.not_same {other away : String} (h : EndsIn path name) (hname : IsName name)
    (hother : EndsIn other away) (haway : IsName away) (hne : name ≠ away) :
    same path other = false := by
  refine beq_eq_false_iff_ne.mpr fun heq => hne ?_
  have hlast := h.components hname
  rw [heq, hother.components haway, Option.some.injEq, Component.entry.injEq] at hlast
  exact hlast.symm

end Path
end EntitySdl
