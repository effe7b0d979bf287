import Catapult.Namespaces.Runs

/-!
# The paths of the children of a root

The path of a child extends the path of its parent, which is the root or a child of the root (`Nested`), and all roots
of a history have its id (`HistoryNested`). What the observers do to a history keeps both.
-/

namespace Catapult.Namespaces
open SharedRoots

variable {Address : Type} [DecidableEq Address] {h h' : RootNamespaceHistory Address} {id : NamespaceId} {height : Nat}

section Nested
variable {children children' : Children Address} {ns parent : Namespace}

/-- A child is below the root, or its path extends the path of another child by one id. -/
def Nested (children : Children Address) : Prop :=
  ∀ id child, children.find? id = some child → child.ns.path.length = 2 ∨
    ∃ parent, children.find? parent.ns.id = some parent ∧ child.ns.path = parent.ns.path ++ [child.ns.id]

section
omit [DecidableEq Address]

theorem nested_empty : Nested (∅ : Children Address) := fun _ _ hchild => nomatch hchild

theorem Nested.congr (hnested : Nested children)
    (heq : children'.mapVal ChildNamespaceData.ns = children.mapVal ChildNamespaceData.ns) : Nested children' := by
  have hfind : ∀ id, (children'.find? id).map ChildNamespaceData.ns =
    (children.find? id).map ChildNamespaceData.ns := by
    intro id
    simpa using congrArg (fun m => m.find? id) heq
  intro id child hchild
  have hid := hfind id
  rw [hchild] at hid
  obtain ⟨old, hold, hns⟩ := Option.map_eq_some_iff.1 hid.symm
  rw [← hns]
  refine (hnested id old hold).imp_right fun ⟨parent, hparent, hpath⟩ => ?_
  have hparentId := hfind parent.ns.id
  rw [hparent] at hparentId
  obtain ⟨new, hnew, hns'⟩ := Option.map_eq_some_iff.1 hparentId
  exact ⟨new, by rw [hns', hnew], by rw [hns', hpath]⟩

theorem Nested.insert (hnested : Nested children) (hnew : children.find? ns.id = none)
    (hpath : ns.path = parent.path ++ [ns.id])
    (hparent : parent.path.length = 1 ∨ ∃ child, children.find? parent.id = some child ∧ child.ns = parent) :
    Nested (children.insert ns.id { ns := ns }) := by
  have hold : ∀ k child, children.find? k = some child → (children.insert ns.id { ns := ns }).find? k = some child := by
    intro k child hchild
    rw [SortedMap.find?_insert, if_neg, hchild]
    rintro rfl
    simp [hnew] at hchild
  intro id child hchild
  rw [SortedMap.find?_insert] at hchild
  split at hchild
  · cases hchild
    rcases hparent with hroot | ⟨child, hchild, rfl⟩
    · exact .inl (by simp [hpath, hroot])
    · exact .inr ⟨child, hold _ _ hchild, hpath⟩
  · exact (hnested id child hchild).imp_right fun ⟨parent, hparent, hpath⟩ => ⟨parent, hold _ _ hparent, hpath⟩

theorem Nested.erase (hnested : Nested children) {removed : ChildNamespaceData Address}
    (hfind : children.find? id = some removed)
    (hdescendents : hasDescendents children removed.ns.path.length id = false) : Nested (children.erase id) := by
  intro otherId child hchild
  rw [SortedMap.find?_erase] at hchild
  split at hchild
  · cases hchild
  refine (hnested otherId child hchild).imp_right fun ⟨parent, hparent, hpath⟩ => ⟨parent, ?_, hpath⟩
  rw [SortedMap.find?_erase, if_neg, hparent]
  intro heq
  rw [heq] at hparent
  obtain rfl : removed = parent := Option.some.inj (hfind.symm.trans hparent)
  rw [hasDescendents, List.any_eq_false] at hdescendents
  apply hdescendents (otherId, child) (SortedMap.mem_entries_iff.2 hchild)
  have hpos := List.length_pos_iff.2 removed.ns.path_ne_nil
  have hlast : removed.ns.path[removed.ns.path.length - 1]? = some id := by
    rw [← heq, Namespace.id, List.getLast_eq_getElem]
    exact List.getElem?_eq_getElem _
  simp only [hpath, List.length_append, List.length_singleton, Nat.lt_succ_self, decide_true, Bool.true_and,
    decide_eq_true_eq]
  rw [List.getElem?_append_left (by omega), hlast]

/-- Every id in the path of a child, but for the root, is a child. -/
theorem Nested.exists_child (hnested : Nested children)
    (hids : ∀ id child, children.find? id = some child → child.ns.id = id) {child : ChildNamespaceData Address}
    (hchild : children.find? id = some child) {i : Nat} (hi : 1 ≤ i) {k : NamespaceId}
    (hk : child.ns.path[i]? = some k) : ∃ child', children.find? k = some child' := by
  induction hlength : child.ns.path.length using Nat.strong_induction_on generalizing id child with
  | _ n ih =>
    have hself : i + 1 = child.ns.path.length → k = id := by
      intro heq
      rw [← hids id child hchild, Namespace.id, List.getLast_eq_getElem]
      obtain ⟨hlt, rfl⟩ := List.getElem?_eq_some_iff.1 hk
      congr 1
      omega
    have hlt := (List.getElem?_eq_some_iff.1 hk).1
    rcases hnested id child hchild with htwo | ⟨parent, hparent, hpath⟩
    · obtain rfl := hself (by omega)
      exact ⟨child, hchild⟩
    · rw [hpath, List.length_append, List.length_singleton] at hlength hlt hself
      by_cases hlast : i = parent.ns.path.length
      · obtain rfl := hself (by omega)
        exact ⟨child, hchild⟩
      · rw [hpath, List.getElem?_append_left (by omega)] at hk
        exact ih _ (by omega) hparent hk rfl

theorem not_hasDescendents_insert (hnested : Nested children)
    (hids : ∀ id child, children.find? id = some child → child.ns.id = id) (hnew : children.find? ns.id = none)
    (hlength : 2 ≤ ns.path.length) :
    hasDescendents (children.insert ns.id { ns := ns }) ns.path.length ns.id = false := by
  rw [hasDescendents, List.any_eq_false]
  rintro ⟨k, child⟩ hmem
  rw [SortedMap.mem_entries_iff, SortedMap.find?_insert] at hmem
  simp only [Bool.and_eq_true, decide_eq_true_eq, not_and]
  intro hlt hid
  split at hmem
  · cases hmem
    exact Nat.lt_irrefl _ hlt
  · obtain ⟨child', hchild'⟩ := hnested.exists_child hids hmem (by omega) hid
    simp [hnew] at hchild'

end

end Nested

structure HistoryNested (id : NamespaceId) (h : RootNamespaceHistory Address) : Prop where
  ids : ∀ root ∈ h.roots, root.id = id
  nested : ∀ s ∈ h.groups, Nested s.children

omit [DecidableEq Address] in
theorem HistoryNested.withLast {last : SharedRoots Address} (hh : HistoryNested id h)
    (hback : last.back.id = h.back.id) (hprevious : last.previous = h.last.previous) (hnested : Nested last.children) :
    HistoryNested id { h with last := last } := by
  refine ⟨fun root hroot => ?_, fun s hs => ?_⟩
  · rcases List.mem_cons.1 hroot with rfl | hroot
    · exact hback.trans (hh.ids h.back List.mem_cons_self)
    · refine hh.ids root (List.mem_cons_of_mem _ ?_)
      change root ∈ last.previous ++ _ at hroot
      rwa [hprevious] at hroot
  · rcases List.mem_cons.1 hs with rfl | hs
    · exact hnested
    · exact hh.nested s (List.mem_cons_of_mem _ hs)

theorem HistoryNested.pushBack (hh : HistoryNested id h) (hid : h.id = id) (owner : Address)
    (lifetime : NamespaceLifetime) : HistoryNested id (h.pushBack owner lifetime) := by
  cases hcan : (⟨h.id, owner, lifetime, .none⟩ : RootNamespace Address).canExtend h.back with
  | true =>
    rw [RootNamespaceHistory.pushBack_of_canExtend hcan]
    refine ⟨fun root hroot => ?_, fun s hs => ?_⟩
    · rcases List.mem_cons.1 hroot with rfl | hroot
      · exact hh.ids h.back List.mem_cons_self
      · exact hh.ids root hroot
    · rcases List.mem_cons.1 hs with rfl | hs
      · exact hh.nested h.last List.mem_cons_self
      · exact hh.nested s (List.mem_cons_of_mem _ hs)
  | false =>
    rw [RootNamespaceHistory.pushBack_of_not_canExtend hcan]
    refine ⟨fun root hroot => ?_, fun s hs => ?_⟩
    · rcases List.mem_cons.1 hroot with rfl | hroot
      · exact hid
      · exact hh.ids root hroot
    · rcases List.mem_cons.1 hs with rfl | hs
      · exact nested_empty
      · exact hh.nested s hs

omit [DecidableEq Address] in
theorem historyNested_ofRoot (id : NamespaceId) (owner : Address) (lifetime : NamespaceLifetime) :
    HistoryNested id (.ofRoot id owner lifetime) := by
  refine ⟨fun root hroot => ?_, fun s hs => ?_⟩
  · rw [List.mem_singleton.1 hroot]
    rfl
  · rw [List.mem_singleton.1 hs]
    exact nested_empty

omit [DecidableEq Address] in
theorem HistoryNested.popBack (hh : HistoryNested id h) (hpop : RootNamespaceHistory.PopBack h (some h')) :
    HistoryNested id h' := by
  refine ⟨fun root hroot => hh.ids root ?_, fun s hs => ?_⟩
  · rw [RootNamespaceHistory.roots_popBack hpop]
    exact List.mem_cons_of_mem _ hroot
  · cases hpop with
    | unshared => exact hh.nested s (List.mem_cons_of_mem _ hs)
    | shared id back root roots children rest =>
      rcases List.mem_cons.1 hs with rfl | hs
      · exact hh.nested ⟨back, root :: roots, children⟩ List.mem_cons_self
      · exact hh.nested s (List.mem_cons_of_mem _ hs)

omit [DecidableEq Address] in
theorem HistoryNested.prune (hh : HistoryNested id h) (hkept : h.Kept h' height) : HistoryNested id h' := by
  refine ⟨fun root hroot => ?_, fun s hs => ?_⟩
  · rw [hkept.roots_eq] at hroot
    exact hh.ids root (List.mem_filter.1 hroot).1
  · obtain ⟨t, ht, hchildren⟩ := hkept.children_mem s hs
    rw [hchildren]
    exact hh.nested t ht

end Catapult.Namespaces
