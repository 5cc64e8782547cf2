import Mathlib.Data.List.Forall2

/-! # Computations that succeed

When a computation that may fail is put together from others, its success comes
down to theirs.
-/
namespace EntitySdl

variable {ε ε' α β : Type}

theorem bind_eq_ok_iff {result : Except ε α} {next : α → Except ε β} {value : β} :
    result >>= next = .ok value ↔ ∃ first, result = .ok first ∧ next first = .ok value := by
  cases result <;> simp [bind, Except.bind]

theorem seq_eq_ok_iff {result : Except ε Unit} {next : Unit → Except ε β} {value : β} :
    result >>= next = .ok value ↔ result = .ok () ∧ next () = .ok value := by
  rw [bind_eq_ok_iff]
  exact ⟨fun ⟨(), h⟩ => h, fun h => ⟨(), h⟩⟩

theorem mapError_eq_ok_iff {result : Except ε α} {f : ε → ε'} {value : α} :
    result.mapError f = .ok value ↔ result = .ok value := by
  cases result <;> simp [Except.mapError]

theorem map_eq_ok_iff {result : Except ε α} {f : α → β} {value : β} :
    result.map f = .ok value ↔ ∃ first, result = .ok first ∧ f first = value := by
  cases result <;> simp [Except.map]

/-- A computation that goes on unless a condition makes it fail. -/
theorem unless_eq_ok_iff {condition : Prop} [Decidable condition] {fault : ε}
    {skip : α → Except ε β} {next : Except ε β} {value : β} :
    (if condition then (Except.error fault : Except ε α) >>= skip else next) = .ok value ↔
      ¬ condition ∧ next = .ok value := by
  by_cases h : condition <;> simp [h, bind, Except.bind]

/-- Going over a list succeeds when it succeeds at every element. -/
theorem mapM_eq_ok_iff {f : α → Except ε β} {elements : List α} {values : List β} :
    elements.mapM f = .ok values ↔
      List.Forall₂ (fun element value => f element = .ok value) elements values := by
  induction elements generalizing values with
  | nil =>
    rw [List.mapM_nil, List.forall₂_nil_left_iff]
    exact ⟨fun h => by cases h; rfl, fun h => by subst h; rfl⟩
  | cons element rest ih =>
    rw [List.mapM_cons, bind_eq_ok_iff]
    constructor
    · rintro ⟨value, hvalue, h⟩
      obtain ⟨others, hothers, h⟩ := bind_eq_ok_iff.mp h
      cases h
      exact .cons hvalue (ih.mp hothers)
    · rintro (_ | ⟨hvalue, hothers⟩)
      exact ⟨_, hvalue, bind_eq_ok_iff.mpr ⟨_, ih.mpr hothers, rfl⟩⟩

/-- Members of a list and what comes from each of them. -/
theorem forall_of_forall₂ {relates : α → β → Prop} {xs : List α} {ys : List β}
    (h : List.Forall₂ relates xs ys) {p : β → Prop}
    (hp : ∀ x ∈ xs, ∀ y, relates x y → p y) : ∀ y ∈ ys, p y := by
  induction h with
  | nil => simp
  | cons hxy _ ih =>
    rw [List.forall_mem_cons] at hp ⊢
    exact ⟨hp.1 _ hxy, ih hp.2⟩

/-- A member of a list has a counterpart. -/
theorem exists_mem_of_forall₂ {relates : α → β → Prop} {xs : List α} {ys : List β}
    (h : List.Forall₂ relates xs ys) {x : α} (hx : x ∈ xs) : ∃ y ∈ ys, relates x y := by
  induction h with
  | nil => cases hx
  | cons hxy _ ih =>
    rcases List.mem_cons.mp hx with rfl | hx
    · exact ⟨_, List.mem_cons_self, hxy⟩
    · obtain ⟨y, hy, hxy⟩ := ih hx
      exact ⟨y, List.mem_cons_of_mem _ hy, hxy⟩

/-- What two lists have in common, member by member, comes out the same. -/
theorem map_eq_of_forall₂ {γ : Type} {f : α → γ} {k : β → γ} {xs : List α} {ys : List β}
    (h : List.Forall₂ (fun x y => k y = f x) xs ys) : ys.map k = xs.map f := by
  induction h with
  | nil => rfl
  | cons hxy _ ih => rw [List.map_cons, List.map_cons, hxy, ih]

theorem forM_eq_ok_iff {f : α → Except ε Unit} {elements : List α} :
    elements.forM f = .ok () ↔ ∀ element ∈ elements, f element = .ok () := by
  induction elements with
  | nil => exact iff_of_true rfl (by simp)
  | cons element rest ih =>
    rw [List.forM, bind_eq_ok_iff, List.forall_mem_cons]
    exact ⟨fun ⟨_, hfirst, hrest⟩ => ⟨hfirst, ih.mp hrest⟩,
      fun ⟨hfirst, hrest⟩ => ⟨(), hfirst, ih.mpr hrest⟩⟩

end EntitySdl
