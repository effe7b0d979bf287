import Mathlib.Data.List.Basic

/-!
# Frames of a stream

A framer says what stands at the front of a stream: a frame, something that no frame starts with, or too little to
tell. Unless it is too little, what it says of a stream it says of every longer one. Then the frames that were cut
from a stream are the first of those that are cut from a longer one.
-/

namespace Catapult
variable {α : Type}

inductive Front where
  | more
  | bad
  | frame (size : Nat)

structure Framer (α : Type) where
  front : List α → Front
  size_pos {s : List α} {n : Nat} : front s = .frame n → 0 < n
  size_le {s : List α} {n : Nat} : front s = .frame n → n ≤ s.length
  stable {s : List α} (t : List α) : front s ≠ .more → front (s ++ t) = front s

/-- The frames stand at the front of the stream, one after another, before the rest. -/
inductive Cut (framer : Framer α) : List α → List (List α) → List α → Prop
  | done (s : List α) : Cut framer s [] s
  | frame {s rest : List α} {n : Nat} {frames : List (List α)} (hfront : framer.front s = .frame n)
      (h : Cut framer (s.drop n) frames rest) : Cut framer s (s.take n :: frames) rest

namespace Cut
variable {framer : Framer α} {s rest rest' : List α} {frames frames' : List (List α)}

theorem flatten_append (h : Cut framer s frames rest) : frames.flatten ++ rest = s := by
  induction h with
  | done s => rfl
  | frame hfront h ih => rw [List.flatten_cons, List.append_assoc, ih, List.take_append_drop]

theorem forall_frames (h : Cut framer s frames rest) {P : List α → Prop}
    (hP : ∀ s n, framer.front s = .frame n → P (s.take n)) : ∀ frame ∈ frames, P frame := by
  induction h with
  | done s => exact List.forall_mem_nil _
  | frame hfront h ih => exact List.forall_mem_cons.2 ⟨hP _ _ hfront, ih⟩

theorem append (h : Cut framer s frames rest) (t : List α) : Cut framer (s ++ t) frames (rest ++ t) := by
  induction h with
  | done s => exact .done _
  | @frame s rest n frames hfront h ih =>
    have hle := framer.size_le hfront
    have hfront' : framer.front (s ++ t) = .frame n := by
      rw [framer.stable t (by rw [hfront]; exact Front.noConfusion), hfront]
    rw [← List.take_append_of_le_length hle]
    refine .frame hfront' ?_
    rwa [List.drop_append_of_le_length hle]

theorem concat {n : Nat} (h : Cut framer s frames rest) (hfront : framer.front rest = .frame n) :
    Cut framer s (frames ++ [rest.take n]) (rest.drop n) := by
  induction h with
  | done s => exact .frame hfront (.done _)
  | frame hfront' h ih => exact .frame hfront' (ih hfront)

def Stuck (framer : Framer α) (rest : List α) : Prop := ∀ n, framer.front rest ≠ .frame n

theorem exists_of_stuck (h : Cut framer s frames rest) (h' : Cut framer s frames' rest') (hstuck : Stuck framer rest') :
    ∃ later, frames' = frames ++ later ∧ Cut framer rest later rest' := by
  induction h generalizing frames' with
  | done s => exact ⟨frames', rfl, h'⟩
  | @frame s rest n frames hfront h ih =>
    cases h' with
    | done => exact absurd hfront (hstuck n)
    | @frame _ _ n' _ hfront' h' =>
      rw [hfront] at hfront'
      cases hfront'
      obtain ⟨later, rfl, hlater⟩ := ih h'
      exact ⟨later, rfl, hlater⟩

theorem nil_of_stuck (h : Cut framer s frames rest) (hstuck : Stuck framer s) : frames = [] ∧ rest = s := by
  cases h with
  | done => exact ⟨rfl, rfl⟩
  | frame hfront h => exact absurd hfront (hstuck _)

theorem eq_of_stuck (h : Cut framer s frames rest) (hstuck : Stuck framer rest) (h' : Cut framer s frames' rest')
    (hstuck' : Stuck framer rest') : frames = frames' ∧ rest = rest' := by
  obtain ⟨later, rfl, hlater⟩ := h.exists_of_stuck h' hstuck'
  obtain ⟨rfl, rfl⟩ := hlater.nil_of_stuck hstuck
  exact ⟨(List.append_nil _).symm, rfl⟩

end Cut

theorem Framer.front_append_of_bad {framer : Framer α} {s : List α} (h : framer.front s = .bad) (t : List α) :
    framer.front (s ++ t) = .bad := by
  rw [framer.stable t (by rw [h]; exact Front.noConfusion), h]

end Catapult
