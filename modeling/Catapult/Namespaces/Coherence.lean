import Catapult.Namespaces.NamespaceCacheDelta
import Catapult.Namespaces.SharedChildren

/-!
# The stores of the namespace cache agree

The flat map has the namespaces of every history: the root and the children of its most recent root
(`RootNamespaceHistory.namespaces`). Every operation replaces one history, and in the flat map the namespaces of the
old history by the ones of the new history (`Replaces`). The counters move with the sizes of the two.
-/

namespace Catapult.Namespaces
open Cache SharedRoots

variable {Address : Type} [DecidableEq Address] {h h' : RootNamespaceHistory Address} {id rootId : NamespaceId}

namespace RootNamespaceHistory

def namespaces (h : RootNamespaceHistory Address) : SortedMap NamespaceId Namespace :=
  (h.activeChildren.mapVal ChildNamespaceData.ns).insert h.id (.ofId h.id)

structure Valid (h : RootNamespaceHistory Address) : Prop where
  linked : Linked h.groups
  ends : EndsIncrease h.roots
  children : ∀ s ∈ h.groups, ∀ id child, s.children.find? id = some child → child.ns.id = id ∧ child.ns.rootId = h.id

section
omit [DecidableEq Address]

@[simp] theorem find?_namespaces : h.namespaces.find? id =
    if id = h.id then some (.ofId h.id) else (h.activeChildren.find? id).map ChildNamespaceData.ns := by
  simp [namespaces]

theorem size_namespaces (hnot : h.activeChildren.find? h.id = none) :
    h.namespaces.size = NamespaceCacheDelta.activeSizeOf (some h) := by
  rw [namespaces, SortedMap.size_insert_of_none (by simp [hnot]), SortedMap.size_mapVal]
  simp [NamespaceCacheDelta.activeSizeOf, numActiveRootChildren, Nat.add_comm]

theorem hasChild_of_find {child : ChildNamespaceData Address} (hfind : h.activeChildren.find? id = some child) :
    h.HasChild id :=
  hasChild_iff.2 ⟨h.last, List.mem_cons_self, SortedMap.mem_keys_iff.2 ⟨child, hfind⟩⟩

theorem eq_or_hasChild_of_namespaces {ns : Namespace} (hfind : h.namespaces.find? id = some ns) :
    id = h.id ∨ h.HasChild id := by
  rw [find?_namespaces] at hfind
  split at hfind
  · exact .inl ‹_›
  · obtain ⟨child, hchild, -⟩ := Option.map_eq_some_iff.1 hfind
    exact .inr (hasChild_of_find hchild)

end

end RootNamespaceHistory

namespace NamespaceCacheDelta
variable {cache cache' cache'' : NamespaceCacheDelta Address} {o o' : Option (RootNamespaceHistory Address)}

def namespacesOf (o : Option (RootNamespaceHistory Address)) : SortedMap NamespaceId Namespace :=
  o.elim ∅ RootNamespaceHistory.namespaces

/-- An id can be used for a child of a root: it is no root and no child of another root. -/
def CanOwn (cache : NamespaceCacheDelta Address) (rootId id : NamespaceId) : Prop :=
  cache.historyById.find? id = none ∧
  ∀ otherId h, cache.historyById.find? otherId = some h → h.HasChild id → otherId = rootId

structure Coherent (cache : NamespaceCacheDelta Address) : Prop where
  id_eq : ∀ rootId h, cache.historyById.find? rootId = some h → h.id = rootId
  valid : ∀ rootId h, cache.historyById.find? rootId = some h → h.Valid
  canOwn : ∀ rootId h id, cache.historyById.find? rootId = some h → h.HasChild id → cache.CanOwn rootId id
  namespaces : ∀ id ns, cache.namespaceById.find? id = some ns ↔
    ∃ rootId h, cache.historyById.find? rootId = some h ∧ h.namespaces.find? id = some ns
  active : cache.activeSize = cache.namespaceById.size
  deep : cache.deepSize = cache.historyById.total fun _ h => deepSizeOf (some h)

structure Replaces (cache cache' : NamespaceCacheDelta Address) (rootId : NamespaceId)
    (o : Option (RootNamespaceHistory Address)) : Prop where
  histories : cache'.historyById = cache.historyById.alter rootId fun _ => o
  namespaces : SortedMap.Replaced cache.namespaceById cache'.namespaceById
    (namespacesOf (cache.historyById.find? rootId)) (namespacesOf o)
  active : cache'.activeSize + activeSizeOf (cache.historyById.find? rootId) = cache.activeSize + activeSizeOf o
  deep : cache'.deepSize + deepSizeOf (cache.historyById.find? rootId) = cache.deepSize + deepSizeOf o

theorem coherent_empty : (empty : NamespaceCacheDelta Address).Coherent where
  id_eq _ _ hfind := by simp [empty] at hfind
  valid _ _ hfind := by simp [empty] at hfind
  canOwn _ _ _ hfind := by simp [empty] at hfind
  namespaces := by simp [empty]
  active := rfl
  deep := rfl

namespace Coherent

theorem activeChildren_root (hc : cache.Coherent) (hfind : cache.historyById.find? rootId = some h) :
    h.activeChildren.find? rootId = none := by
  by_contra hnot
  obtain ⟨child, hchild⟩ := Option.ne_none_iff_exists'.1 hnot
  have hnone := (hc.canOwn rootId h rootId hfind (RootNamespaceHistory.hasChild_of_find hchild)).1
  simp [hfind] at hnone

theorem find_root (hc : cache.Coherent) (hfind : cache.historyById.find? rootId = some h) :
    cache.namespaceById.find? rootId = some (.ofId rootId) :=
  (hc.namespaces _ _).2 ⟨rootId, h, hfind, by simp [hc.id_eq _ _ hfind]⟩

theorem find_child (hc : cache.Coherent) (hfind : cache.historyById.find? rootId = some h)
    {child : ChildNamespaceData Address} (hchild : h.activeChildren.find? id = some child) :
    cache.namespaceById.find? id = some child.ns := by
  refine (hc.namespaces _ _).2 ⟨rootId, h, hfind, ?_⟩
  have hne : id ≠ rootId := by
    rintro rfl
    simp [hc.activeChildren_root hfind] at hchild
  simp [hc.id_eq _ _ hfind, hne, hchild]

theorem find_eq_none (hc : cache.Coherent) (hfind : cache.historyById.find? rootId = some h)
    (hchild : h.HasChild id) (hnot : h.activeChildren.find? id = none) : cache.namespaceById.find? id = none := by
  by_contra hne
  obtain ⟨ns, hns⟩ := Option.ne_none_iff_exists'.1 hne
  obtain ⟨otherId, other, hother, hnamespaces⟩ := (hc.namespaces _ _).1 hns
  obtain ⟨hnone, hunique⟩ := hc.canOwn rootId h id hfind hchild
  have hid := hc.id_eq _ _ hother
  rcases RootNamespaceHistory.eq_or_hasChild_of_namespaces hnamespaces with rfl | hhas
  · rw [hid, hother] at hnone
    cases hnone
  · obtain rfl := hunique otherId other hother hhas
    obtain rfl : h = other := Option.some.inj (hfind.symm.trans hother)
    have hne : id ≠ h.id := by
      rintro rfl
      rw [hid, hother] at hnone
      cases hnone
    simp [hne, hnot] at hnamespaces

theorem disjoint_of_canOwn {otherId : NamespaceId} {other : RootNamespaceHistory Address} (hc : cache.Coherent)
    (hne : otherId ≠ rootId) (hother : cache.historyById.find? otherId = some other) (hid : h.id = rootId)
    (hown : ∀ id, h.HasChild id → cache.CanOwn rootId id) (hroot : ¬other.HasChild rootId) {ns : Namespace}
    (hns : other.namespaces.find? id = some ns) : h.namespaces.find? id = none := by
  by_contra hnot
  obtain ⟨ns', hns'⟩ := Option.ne_none_iff_exists'.1 hnot
  have hotherId := hc.id_eq _ _ hother
  rcases RootNamespaceHistory.eq_or_hasChild_of_namespaces hns' with rfl | hchild
  · rcases RootNamespaceHistory.eq_or_hasChild_of_namespaces hns with heq | hchild'
    · exact hne (by rw [← hotherId, ← heq, hid])
    · exact hroot (hid ▸ hchild')
  · obtain ⟨hnone, hunique⟩ := hown id hchild
    rcases RootNamespaceHistory.eq_or_hasChild_of_namespaces hns with rfl | hchild'
    · rw [hotherId, hother] at hnone
      cases hnone
    · exact hne (hunique otherId other hother hchild')

theorem not_hasChild_root {otherId : NamespaceId} {other : RootNamespaceHistory Address} (hc : cache.Coherent)
    (hfind : cache.historyById.find? rootId = some h) (hother : cache.historyById.find? otherId = some other) :
    ¬other.HasChild rootId := by
  intro hchild
  have hnone := (hc.canOwn otherId other rootId hother hchild).1
  rw [hfind] at hnone
  cases hnone

/-- What a history may be replaced by: its children can be used for it, and its root is no child. -/
structure CanReplace (cache : NamespaceCacheDelta Address) (rootId : NamespaceId)
    (o : Option (RootNamespaceHistory Address)) : Prop where
  id_eq : ∀ h ∈ o, h.id = rootId
  valid : ∀ h ∈ o, h.Valid
  canOwn : ∀ h ∈ o, ∀ id, h.HasChild id → id ≠ rootId ∧ cache.CanOwn rootId id
  root : o ≠ none → ∀ otherId other, cache.historyById.find? otherId = some other → ¬other.HasChild rootId

theorem CanReplace.find_eq_none (hc : cache.Coherent) (hnew : CanReplace cache rootId o) {otherId : NamespaceId}
    {other : RootNamespaceHistory Address} (hne : otherId ≠ rootId)
    (hother : cache.historyById.find? otherId = some other) {ns : Namespace}
    (hns : other.namespaces.find? id = some ns) : (namespacesOf o).find? id = none := by
  cases o with
  | none => rfl
  | some h =>
    exact hc.disjoint_of_canOwn hne hother (hnew.id_eq h rfl) (fun id hid => (hnew.canOwn h rfl id hid).2)
      (hnew.root (by simp) otherId other hother) hns

theorem canReplace_self (hc : cache.Coherent) (rootId : NamespaceId) :
    CanReplace cache rootId (cache.historyById.find? rootId) where
  id_eq h hfind := hc.id_eq _ _ hfind
  valid h hfind := hc.valid _ _ hfind
  canOwn h hfind id hhas := ⟨fun heq => hc.not_hasChild_root hfind hfind (heq ▸ hhas), hc.canOwn _ _ _ hfind hhas⟩
  root hne otherId other hother := by
    obtain ⟨h, hfind⟩ := Option.ne_none_iff_exists'.1 hne
    exact hc.not_hasChild_root hfind hother

theorem CanReplace.find_new_eq_none (hc : cache.Coherent) (hnew : CanReplace cache rootId o) {ns : Namespace}
    (hns : (namespacesOf o).find? id = some ns)
    (hold : (namespacesOf (cache.historyById.find? rootId)).find? id = none) :
    cache.namespaceById.find? id = none := by
  by_contra hnot
  obtain ⟨ns', hns'⟩ := Option.ne_none_iff_exists'.1 hnot
  obtain ⟨otherId, other, hother, hotherNs⟩ := (hc.namespaces _ _).1 hns'
  have hne : otherId ≠ rootId := by
    rintro rfl
    simp only [hother, namespacesOf, Option.elim_some, hotherNs] at hold
    cases hold
  rw [hnew.find_eq_none hc hne hother hotherNs] at hns
  cases hns

theorem find_of_namespacesOf (hc : cache.Coherent) {ns : Namespace}
    (hns : (namespacesOf (cache.historyById.find? rootId)).find? id = some ns) :
    cache.namespaceById.find? id = some ns := by
  cases hfind : cache.historyById.find? rootId with
  | none => simp [hfind, namespacesOf] at hns
  | some h =>
    rw [hfind] at hns
    exact (hc.namespaces id ns).2 ⟨rootId, h, hfind, hns⟩

theorem CanReplace.sizeOf_eq (hnew : CanReplace cache rootId o) : (namespacesOf o).size = activeSizeOf o := by
  cases o with
  | none => rfl
  | some h =>
    refine RootNamespaceHistory.size_namespaces ?_
    by_contra hnot
    obtain ⟨child, hchild⟩ := Option.ne_none_iff_exists'.1 hnot
    exact (hnew.canOwn h rfl _ (RootNamespaceHistory.hasChild_of_find hchild)).1 (hnew.id_eq h rfl)

omit [DecidableEq Address] in
theorem find_history_of_replaces (hr : Replaces cache cache' rootId o) (otherId : NamespaceId) :
    cache'.historyById.find? otherId = if otherId = rootId then o else cache.historyById.find? otherId := by
  rw [hr.histories, SortedMap.find?_alter]

theorem canOwn_of_replaces (hc : cache.Coherent) (hr : Replaces cache cache' rootId o)
    (hnew : CanReplace cache rootId o) {otherId : NamespaceId}
    (hh : cache'.historyById.find? otherId = some h) (hchild : h.HasChild id) : cache'.CanOwn otherId id := by
  have hfind := find_history_of_replaces hr
  rw [hfind] at hh
  split at hh
  · rename_i heq
    subst heq
    obtain ⟨hne, hnone, hunique⟩ := hnew.canOwn h hh id hchild
    refine ⟨by rw [hfind, if_neg hne, hnone], fun thirdId third hthird hchild' => ?_⟩
    rw [hfind] at hthird
    split at hthird
    · assumption
    · exact hunique thirdId third hthird hchild'
  · rename_i hne
    obtain ⟨hnone, hunique⟩ := hc.canOwn otherId h id hh hchild
    refine ⟨?_, fun thirdId third hthird hchild' => ?_⟩
    · rw [hfind]
      split
      · rename_i heq
        by_contra hsome
        exact hnew.root hsome otherId h hh (heq ▸ hchild)
      · exact hnone
    · rw [hfind] at hthird
      split at hthird
      · exact absurd ((hnew.canOwn third hthird id hchild').2.2 otherId h hh hchild) hne
      · exact hunique thirdId third hthird hchild'

theorem namespaces_of_replaces (hc : cache.Coherent) (hr : Replaces cache cache' rootId o)
    (hnew : CanReplace cache rootId o) (id : NamespaceId) (ns : Namespace) :
    cache'.namespaceById.find? id = some ns ↔
      ∃ otherId h, cache'.historyById.find? otherId = some h ∧ h.namespaces.find? id = some ns := by
  have hfind := find_history_of_replaces hr
  rw [hr.namespaces id]
  constructor
  · intro hns
    rcases Option.or_eq_some_iff.1 hns with hns | ⟨-, hns⟩
    · cases o with
      | none => cases hns
      | some h => exact ⟨rootId, h, by rw [hfind, if_pos rfl], hns⟩
    · split at hns
      · cases hns
      · rename_i hold
        obtain ⟨otherId, other, hother, hotherNs⟩ := (hc.namespaces _ _).1 hns
        have hne : otherId ≠ rootId := by
          rintro rfl
          simp only [hother, namespacesOf, Option.elim_some, hotherNs] at hold
          simp at hold
        exact ⟨otherId, other, by rw [hfind, if_neg hne, hother], hotherNs⟩
  · rintro ⟨otherId, other, hother, hotherNs⟩
    rw [hfind] at hother
    split at hother
    · subst hother
      simp [namespacesOf, hotherNs]
    · rename_i hne
      rw [hnew.find_eq_none hc hne hother hotherNs, (hc.canReplace_self rootId).find_eq_none hc hne hother hotherNs,
        (hc.namespaces id ns).2 ⟨otherId, other, hother, hotherNs⟩]
      rfl

theorem replace (hc : cache.Coherent) (hr : Replaces cache cache' rootId o) (hnew : CanReplace cache rootId o) :
    cache'.Coherent := by
  have hfind := find_history_of_replaces hr
  refine ⟨?_, ?_, fun otherId h id => hc.canOwn_of_replaces hr hnew, hc.namespaces_of_replaces hr hnew, ?_, ?_⟩
  · intro otherId h hh
    rw [hfind] at hh
    split at hh
    · exact (hnew.id_eq h hh).trans (Eq.symm ‹_›)
    · exact hc.id_eq otherId h hh
  · intro otherId h hh
    rw [hfind] at hh
    split at hh
    · exact hnew.valid h hh
    · exact hc.valid otherId h hh
  · have hsize := SortedMap.size_of_replaced hr.namespaces
      (fun id hid => (SortedMap.mem_keys_iff.1 hid).imp fun ns => hc.find_of_namespacesOf)
      (fun id hid hold => (SortedMap.mem_keys_iff.1 hid).elim fun ns hns => hnew.find_new_eq_none hc hns hold)
    have hactive := hr.active
    have hcache := hc.active
    rw [(hc.canReplace_self rootId).sizeOf_eq, hnew.sizeOf_eq] at hsize
    omega
  · have htotal := SortedMap.total_alter (fun _ h => deepSizeOf (some h)) cache.historyById rootId fun _ => o
    rw [← hr.histories] at htotal
    have hdeep := hr.deep
    have hcache := hc.deep
    have helim : ∀ o : Option (RootNamespaceHistory Address),
      o.elim 0 (fun h => deepSizeOf (some h)) = deepSizeOf o := by
      rintro (_ | h) <;> rfl
    rw [helim, helim] at htotal
    omega

end Coherent
end NamespaceCacheDelta
end Catapult.Namespaces
