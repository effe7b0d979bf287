import Mathlib.Data.Set.Card

/-!
# Containers of keyed elements

Sets and maps of a standard library, ordered or not, as far as their users may rely on them: the elements
are enumerated in some order, no two of them have the same key, and the operations change the elements
as documented. Nothing is said about the order, so what is proved holds for every container.
-/

namespace Catapult

/-- A container with elements that have different keys. -/
class Container (C : Type*) (Key Value : outParam (Type*)) where
  /-- The elements in the order of the iterators. -/
  elements : C → List (Key × Value)
  empty : C
  /-- An element with the key of another element is not inserted. -/
  insert : C → Key → Value → C
  erase : C → Key → C
  /-- Writes through an iterator to the element with the key. -/
  assign : C → Key → Value → C
  nodup : ∀ c, ((elements c).map Prod.fst).Nodup
  elements_empty : elements empty = []
  mem_insert : ∀ {c k v e}, e ∈ elements (insert c k v) ↔ e ∈ elements c ∨ (e = (k, v) ∧ ∀ v', (k, v') ∉ elements c)
  mem_erase : ∀ {c k e}, e ∈ elements (erase c k) ↔ e ∈ elements c ∧ e.1 ≠ k
  mem_assign : ∀ {c k v e}, e ∈ elements (assign c k v) ↔ (e ∈ elements c ∧ e.1 ≠ k) ∨
    (e = (k, v) ∧ ∃ v', (k, v') ∈ elements c)

namespace Container
variable {C Key Value : Type*} [Container C Key Value]

instance : Membership Key C := ⟨fun c k => ∃ v, (k, v) ∈ elements c⟩

theorem eq_of_mem {c : C} {k : Key} {v v' : Value} (h : (k, v) ∈ elements c) (h' : (k, v') ∈ elements c) : v = v' := by
  have heq := List.inj_on_of_nodup_map (nodup c) h h' rfl
  exact (Prod.mk.inj heq).2

def size (c : C) : Nat := (elements c).length

theorem mem_foldl_insert {l : List (Key × Value)} (hnd : (l.map Prod.fst).Nodup) {c : C} {e : Key × Value} :
    e ∈ elements (l.foldl (fun c e => insert c e.1 e.2) c) ↔ e ∈ elements c ∨ (e ∈ l ∧ e.1 ∉ c) := by
  induction l generalizing c with
  | nil => simp
  | cons a l ih =>
    obtain ⟨ha, hnd⟩ := List.nodup_cons.1 hnd
    have hkey : ∀ {k}, k ∈ insert c a.1 a.2 ↔ k ∈ c ∨ k = a.1 := by
      intro k
      constructor
      · rintro ⟨v, hv⟩
        rcases mem_insert.1 hv with hv | ⟨hv, -⟩
        · exact .inl ⟨v, hv⟩
        · exact .inr (congrArg Prod.fst hv)
      · rintro (⟨v, hv⟩ | rfl)
        · exact ⟨v, mem_insert.2 (.inl hv)⟩
        · by_cases hin : a.1 ∈ c
          · obtain ⟨v, hv⟩ := hin
            exact ⟨v, mem_insert.2 (.inl hv)⟩
          · exact ⟨a.2, mem_insert.2 (.inr ⟨rfl, fun v hv => hin ⟨v, hv⟩⟩)⟩
    rw [List.foldl_cons, ih hnd, mem_insert, hkey, List.mem_cons]
    have hne : e ∈ l → e.1 ≠ a.1 := fun he heq => ha (List.mem_map.2 ⟨e, he, heq⟩)
    have hnot : (∀ v, (a.1, v) ∉ elements c) ↔ a.1 ∉ c := ⟨fun h ⟨v, hv⟩ => h v hv, fun h v hv => h ⟨v, hv⟩⟩
    rw [hnot]
    constructor
    · rintro ((he | ⟨rfl, hc⟩) | ⟨he, hc⟩)
      · exact .inl he
      · exact .inr ⟨.inl rfl, hc⟩
      · exact .inr ⟨.inr he, fun h => hc (.inl h)⟩
    · rintro (he | ⟨rfl | he, hc⟩)
      · exact .inl (.inl he)
      · exact .inl (.inr ⟨rfl, hc⟩)
      · exact .inr ⟨he, fun h => h.elim hc (hne he)⟩

theorem mem_foldl_erase {l : List (Key × Value)} {c : C} {e : Key × Value} :
    e ∈ elements (l.foldl (fun c e => erase c e.1) c) ↔ e ∈ elements c ∧ e.1 ∉ l.map Prod.fst := by
  induction l generalizing c with
  | nil => simp
  | cons a l ih =>
    rw [List.foldl_cons, ih, mem_erase, List.map_cons, List.mem_cons, not_or, and_assoc]

variable [DecidableEq Key]

def findIter (c : C) (k : Key) : List (Key × Value) := (elements c).dropWhile fun e => decide (e.1 ≠ k)

def find (c : C) (k : Key) : Option Value := (findIter c k).head?.map Prod.snd

def contains (c : C) (k : Key) : Bool := (find c k).isSome

theorem head?_dropWhile_iff {l : List (Key × Value)} (hnd : (l.map Prod.fst).Nodup) {k : Key} {e : Key × Value} :
    (l.dropWhile fun e => decide (e.1 ≠ k)).head? = some e ↔ e ∈ l ∧ e.1 = k := by
  induction l with
  | nil => simp
  | cons a l ih =>
    obtain ⟨ha, hnd⟩ := List.nodup_cons.1 hnd
    rw [List.dropWhile_cons]
    by_cases hk : a.1 = k
    · simp only [hk, ne_eq, not_true_eq_false, decide_false, Bool.false_eq_true, if_false, List.head?_cons,
        Option.some.injEq, List.mem_cons]
      constructor
      · rintro rfl
        exact ⟨.inl rfl, hk⟩
      · rintro ⟨rfl | he, hek⟩
        · rfl
        · exact absurd (List.mem_map.2 ⟨e, he, by rw [hek, hk]⟩) ha
    · simp only [ne_eq, hk, not_false_eq_true, decide_true, if_true, ih hnd, List.mem_cons]
      constructor
      · rintro ⟨he, hek⟩
        exact ⟨.inr he, hek⟩
      · rintro ⟨rfl | he, hek⟩
        · exact absurd hek hk
        · exact ⟨he, hek⟩

theorem head?_findIter {c : C} {k : Key} : (findIter c k).head? = (find c k).map fun v => (k, v) := by
  rw [find]
  cases h : (findIter c k).head? with
  | none => rfl
  | some e =>
    have hk := ((head?_dropWhile_iff (nodup c)).1 h).2
    rw [Option.map_some, Option.map_some, ← hk]

theorem find_eq_some_iff {c : C} {k : Key} {v : Value} : find c k = some v ↔ (k, v) ∈ elements c := by
  constructor
  · intro h
    have hhead := head?_findIter (c := c) (k := k)
    rw [h, Option.map_some] at hhead
    exact ((head?_dropWhile_iff (nodup c)).1 hhead).1
  · intro h
    have hhead : (findIter c k).head? = some (k, v) := (head?_dropWhile_iff (nodup c)).2 ⟨h, rfl⟩
    rw [find, hhead]
    rfl

theorem mem_iff {c : C} {k : Key} : k ∈ c ↔ find c k ≠ none := by
  rw [Option.ne_none_iff_exists']
  exact exists_congr fun v => find_eq_some_iff.symm

theorem contains_iff {c : C} {k : Key} : contains c k = true ↔ k ∈ c := by
  rw [contains, mem_iff, Option.isSome_iff_ne_none]

instance (c : C) (k : Key) : Decidable (k ∈ c) := decidable_of_iff _ contains_iff

theorem find_ext {c : C} {k : Key} {o : Option Value} (h : ∀ v, (k, v) ∈ elements c ↔ o = some v) : find c k = o := by
  refine Option.ext fun v => ?_
  exact find_eq_some_iff.trans (h v)

@[simp] theorem find_empty (k : Key) : find (empty : C) k = none :=
  find_ext fun v => by simp [elements_empty]

@[simp] theorem find_insert (c : C) (k k' : Key) (v : Value) :
    find (insert c k v) k' = if k' = k then some ((find c k).getD v) else find c k' := by
  refine find_ext fun w => ?_
  rw [mem_insert]
  by_cases hk : k' = k
  · subst hk
    rw [if_pos rfl, Option.some.injEq]
    cases hfind : find c k' with
    | none =>
      have hnone : ∀ v', (k', v') ∉ elements c := fun v' hv' => by
        rw [← find_eq_some_iff, hfind] at hv'
        cases hv'
      simp only [hnone, Prod.mk.injEq, true_and, false_or, not_false_eq_true, implies_true, and_true, Option.getD_none]
      exact eq_comm
    | some v₀ =>
      have hmem := find_eq_some_iff.1 hfind
      rw [Option.getD_some]
      constructor
      · rintro (h | ⟨-, h⟩)
        · exact eq_of_mem hmem h
        · exact absurd hmem (h v₀)
      · rintro rfl
        exact .inl hmem
  · rw [if_neg hk, find_eq_some_iff]
    simp [hk]

@[simp] theorem find_erase (c : C) (k k' : Key) : find (erase c k) k' = if k' = k then none else find c k' := by
  refine find_ext fun w => ?_
  rw [mem_erase]
  split
  · rename_i hk
    simp [hk]
  · rename_i hk
    rw [find_eq_some_iff]
    exact and_iff_left hk

@[simp] theorem find_assign (c : C) (k k' : Key) (v : Value) :
    find (assign c k v) k' = if k' = k then (find c k).map fun _ => v else find c k' := by
  refine find_ext fun w => ?_
  rw [mem_assign]
  by_cases hk : k' = k
  · subst hk
    rw [if_pos rfl]
    simp only [ne_eq, not_true_eq_false, and_false, Prod.mk.injEq, true_and, false_or, Option.map_eq_some_iff]
    constructor
    · rintro ⟨rfl, v', hv'⟩
      exact ⟨v', find_eq_some_iff.2 hv', rfl⟩
    · rintro ⟨v', hv', rfl⟩
      exact ⟨rfl, v', find_eq_some_iff.1 hv'⟩
  · rw [if_neg hk, find_eq_some_iff]
    simp [hk]

def keys (c : C) : Finset Key := ((elements c).map Prod.fst).toFinset

theorem mem_keys {c : C} {k : Key} : k ∈ keys c ↔ k ∈ c := by
  rw [keys, List.mem_toFinset, List.mem_map]
  constructor
  · rintro ⟨⟨k', v⟩, h, rfl⟩
    exact ⟨v, h⟩
  · rintro ⟨v, h⟩
    exact ⟨(k, v), h, rfl⟩

theorem card_keys (c : C) : (keys c).card = size c := by
  rw [keys, List.toFinset_card_of_nodup (nodup c), List.length_map, size]

end Container

structure KeyedList (Key Value : Type*) where
  list : List (Key × Value)
  nodup : (list.map Prod.fst).Nodup

namespace KeyedList
variable {Key Value : Type*} [DecidableEq Key]

instance : Container (KeyedList Key Value) Key Value where
  elements c := c.list
  empty := ⟨[], List.nodup_nil⟩
  insert c k v := if h : k ∈ c.list.map Prod.fst then c else ⟨(k, v) :: c.list, List.nodup_cons.2 ⟨h, c.nodup⟩⟩
  erase c k := ⟨c.list.filter fun e => e.1 ≠ k, c.nodup.sublist (List.Sublist.map _ List.filter_sublist)⟩
  assign c k v := ⟨c.list.map fun e => if e.1 = k then (k, v) else e, by
    have hkeys : (c.list.map fun e => if e.1 = k then (k, v) else e).map Prod.fst = c.list.map Prod.fst := by
      rw [List.map_map]
      refine List.map_congr_left fun e _ => ?_
      by_cases h : e.1 = k <;> simp [h]
    rw [hkeys]
    exact c.nodup⟩
  nodup c := c.nodup
  elements_empty := rfl
  mem_insert {c k v e} := by
    by_cases h : k ∈ c.list.map Prod.fst
    · obtain ⟨e', he', rfl⟩ := List.mem_map.1 h
      simp only [dif_pos h]
      exact ⟨.inl, fun h => h.elim id fun h => absurd he' (h.2 e'.2)⟩
    · have hnot : ∀ v', (k, v') ∉ c.list := fun v' hv' => h (List.mem_map.2 ⟨_, hv', rfl⟩)
      simp only [dif_neg h, List.mem_cons]
      rw [or_comm]
      exact or_congr_right (and_iff_left hnot).symm
  mem_erase {c k e} := by simp
  mem_assign {c k v e} := by
    rw [List.mem_map]
    constructor
    · rintro ⟨e', he', rfl⟩
      split
      · rename_i h
        exact .inr ⟨rfl, e'.2, h ▸ he'⟩
      · rename_i h
        exact .inl ⟨he', h⟩
    · rintro (⟨he, hne⟩ | ⟨rfl, v', hv'⟩)
      · exact ⟨e, he, if_neg hne⟩
      · exact ⟨_, hv', if_pos rfl⟩

end KeyedList
end Catapult
