import EntitySdl.Fault

/-! # The first of several faults

A computation that stops at its first fault is described by the list of all the
faults it could meet, in the order in which it meets them: it succeeds when the
list is empty, and otherwise it fails with the head of the list.  The lemmas
follow the ways in which such computations are put together.
-/
namespace EntitySdl

variable {ε ε' α β : Type}

/-- The result is the first of the faults, and a value if there are none. -/
def Reports (result : Except ε α) (faults : List ε) : Prop :=
  match result with
  | .ok _ => faults = []
  | .error fault => faults.head? = some fault

namespace Reports

theorem ok (value : α) : Reports (.ok value : Except ε α) [] := rfl

theorem error (fault : ε) : Reports (.error fault : Except ε α) [fault] := rfl

theorem isOk_iff {result : Except ε α} {faults : List ε} (h : Reports result faults) :
    (∃ value, result = .ok value) ↔ faults = [] := by
  cases result with
  | ok value => simpa [Reports] using h
  | error fault =>
    simp only [Reports] at h
    simp only [reduceCtorEq, exists_false, false_iff]
    rintro rfl
    simp at h

theorem error_iff {result : Except ε α} {faults : List ε} (h : Reports result faults)
    (fault : ε) : result = .error fault ↔ faults.head? = some fault := by
  cases result with
  | ok value =>
    simp only [Reports] at h
    simp [h]
  | error other =>
    simp only [Reports] at h
    simp [h]

/-- One computation after another meets the faults of the first before those of
the second, which only counts where the first succeeds. -/
theorem bind {result : Except ε α} {next : α → Except ε β} {faults more : List ε}
    (h : Reports result faults) (hnext : ∀ value, result = .ok value → Reports (next value) more) :
    Reports (result >>= next) (faults ++ more) := by
  cases result with
  | ok value =>
    simp only [Reports] at h
    subst h
    exact hnext value rfl
  | error fault =>
    change (faults ++ more).head? = some fault
    simp only [Reports] at h
    rw [List.head?_append, h]
    rfl

theorem map {result : Except ε α} {faults : List ε} (f : α → β) (h : Reports result faults) :
    Reports (result.map f) faults := by
  cases result <;> exact h

/-- A computation that ends by packing up its value meets no further fault. -/
theorem bind_pure {result : Except ε α} {faults : List ε} (f : α → β)
    (h : Reports result faults) : Reports (result >>= fun value => pure (f value)) faults := by
  cases result <;> exact h

theorem mapError {result : Except ε α} {faults : List ε} (f : ε → ε') (h : Reports result faults) :
    Reports (result.mapError f) (faults.map f) := by
  cases result with
  | ok value =>
    simp only [Reports] at h
    subst h
    rfl
  | error fault =>
    change (faults.map f).head? = some (f fault)
    simp only [Reports] at h
    rw [List.head?_map, h]
    rfl

/-- Going over a list meets the faults of its elements in the order of the
list. -/
theorem mapM {f : α → Except ε β} {faults : α → List ε} (elements : List α)
    (h : ∀ element ∈ elements, Reports (f element) (faults element)) :
    Reports (elements.mapM f) (elements.flatMap faults) := by
  induction elements with
  | nil => rfl
  | cons element rest ih =>
    rw [List.mapM_cons, List.flatMap_cons]
    refine (h element List.mem_cons_self).bind fun value _ => ?_
    exact (ih fun other hother => h other (List.mem_cons_of_mem _ hother)).bind_pure _

end Reports
end EntitySdl
