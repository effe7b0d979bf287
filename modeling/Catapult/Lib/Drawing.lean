import Mathlib.Algebra.GroupWithZero.Nat
import Mathlib.Data.List.Nodup

/-!
# Drawing without replacement

Entries of a list are drawn one after the other, and a list of marks says which ones were drawn. What the unmarked
entries weigh goes down with each draw by exactly the weight of the drawn one.
-/

namespace Catapult.Lib
variable {α β : Type} {xs : List α} {marks : List Bool} {i : Nat} {x y : α}

def openWeight (weight : α → Nat) : List α → List Bool → Nat
  | x :: xs, mark :: marks => (if mark then 0 else weight x) + openWeight weight xs marks
  | _, _ => 0

theorem openWeight_set (weight : α → Nat) (hmark : marks[i]? = some false) (hx : xs[i]? = some x) :
    openWeight weight xs marks = weight x + openWeight weight xs (marks.set i true) := by
  induction xs generalizing marks i with
  | nil => simp at hx
  | cons z xs ih =>
    rcases marks with _ | ⟨mark, marks⟩
    · simp at hmark
    · rcases i with _ | i
      · simp at hmark hx
        subst hmark hx
        simp [openWeight]
      · simp only [List.getElem?_cons_succ] at hmark hx
        simp only [openWeight, List.set_cons_succ, ih hmark hx]
        omega

theorem openWeight_replicate (weight : α → Nat) (xs : List α) :
    openWeight weight xs (List.replicate xs.length false) = (xs.map weight).sum := by
  induction xs with
  | nil => rfl
  | cons x xs ih => simp [openWeight, List.replicate_succ, ih]

theorem exists_unmarked {weight : α → Nat} (h : 0 < openWeight weight xs marks) :
    ∃ i : Nat, marks[i]? = some false := by
  induction xs generalizing marks with
  | nil => simp [openWeight] at h
  | cons x xs ih =>
    rcases marks with _ | ⟨mark, marks⟩
    · simp [openWeight] at h
    · cases mark with
      | false => exact ⟨0, rfl⟩
      | true =>
        obtain ⟨i, hi⟩ := ih (by simpa [openWeight] using h)
        exact ⟨i + 1, hi⟩

def Marked (xs : List α) (marks : List Bool) (x : α) : Prop := ∃ i : Nat, marks[i]? = some true ∧ xs[i]? = some x

theorem Marked.mem (h : Marked xs marks x) : x ∈ xs := by
  obtain ⟨i, -, hx⟩ := h
  exact List.mem_of_getElem? hx

theorem Marked.set (h : Marked xs marks y) (i : Nat) : Marked xs (marks.set i true) y := by
  obtain ⟨j, hmark, hy⟩ := h
  refine ⟨j, ?_, hy⟩
  rw [List.getElem?_set]
  split <;> rename_i hij
  · have hj : j < marks.length := (List.getElem?_eq_some_iff.mp hmark).1
    subst hij
    simp [hj]
  · exact hmark

theorem marked_set_self (hmark : marks[i]? = some false) (hx : xs[i]? = some x) : Marked xs (marks.set i true) x := by
  have hi : i < marks.length := (List.getElem?_eq_some_iff.mp hmark).1
  exact ⟨i, by simp [hi], hx⟩

theorem Marked.key_ne {key : α → β} (h : Marked xs marks y) (hkeys : (xs.map key).Nodup)
    (hmark : marks[i]? = some false) (hx : xs[i]? = some x) : key x ≠ key y := by
  obtain ⟨j, hj, hy⟩ := h
  intro heq
  have hij : i = j := by
    have hi : i < (xs.map key).length := by simpa using (List.getElem?_eq_some_iff.mp hx).1
    exact (List.getElem?_inj hi hkeys).mp (by simp [hx, hy, heq])
  subst hij
  rw [hmark] at hj
  simp at hj

end Catapult.Lib
