import Catapult.Namespaces.Coherence

/-!
# What the operations of the namespace cache do

Every operation that returns replaces a history, and every operation that throws leaves the cache as it is.
-/

namespace Catapult.Namespaces
open Cache SharedRoots

variable {Address : Type} [DecidableEq Address] {h h' : RootNamespaceHistory Address} {id rootId : NamespaceId}

namespace SharedRoots
variable {s : SharedRoots Address}

/-- A child that is accepted: it is new, and its parent and its root are known. -/
structure CanAdd (s : SharedRoots Address) (ns : Namespace) : Prop where
  new : s.children.find? ns.id = none
  parent : s.back.id = ns.parentId ∨
    ∃ parent, s.children.find? ns.parentId = some parent ∧ parent.ns.path.length = ns.path.length - 1
  root : s.back.id = ns.rootId

omit [DecidableEq Address] in
theorem add_of_parent {ns : Namespace} (hnew : s.children.find? ns.id = none) (hparent : s.back.id = ns.parentId ∨
    ∃ parent, s.children.find? ns.parentId = some parent ∧ parent.ns.path.length = ns.path.length - 1) :
    (add ns).run s = if s.back.id = ns.rootId then .ok () { s with children := s.children.insert ns.id { ns := ns } }
      else .error (.childHasIncorrectRoot ns.id ns.rootId) s := by
  have hemplace : s.children.emplace ns.id { ns := ns } = s.children.insert ns.id { ns := ns } :=
    SortedMap.ext_find? fun id => by simp [hnew]
  by_cases heq : s.back.id = ns.parentId
  · by_cases hroot : ns.parentId = ns.rootId <;> simp [add, hnew, heq, hroot, hemplace]
  · obtain hparent | ⟨parent, hfind, hlength⟩ := hparent
    · contradiction
    · by_cases hroot : s.back.id = ns.rootId <;> simp [add, hnew, heq, hfind, hlength, hroot, hemplace]

omit [DecidableEq Address] in
theorem add_cases (s : SharedRoots Address) (ns : Namespace) :
    (∃ e, (add ns).run s = .error e s) ∨
    (s.CanAdd ns ∧ (add ns).run s = .ok () { s with children := s.children.insert ns.id { ns := ns } }) := by
  cases hnew : s.children.find? ns.id with
  | some child => exact .inl ⟨.childAlreadyExists ns.id, by simp [add, hnew]⟩
  | none =>
    by_cases hparent : s.back.id = ns.parentId ∨
        ∃ parent, s.children.find? ns.parentId = some parent ∧ parent.ns.path.length = ns.path.length - 1
    · rw [add_of_parent hnew hparent]
      by_cases hroot : s.back.id = ns.rootId
      · exact .inr ⟨⟨hnew, hparent, hroot⟩, if_pos hroot⟩
      · exact .inl ⟨_, if_neg hroot⟩
    · rw [not_or] at hparent
      cases hfind : s.children.find? ns.parentId with
      | none => exact .inl ⟨.childHasNoParent ns.id ns.parentId, by simp [add, hnew, hparent.1, hfind]⟩
      | some parent =>
        have hlength : parent.ns.path.length ≠ ns.path.length - 1 := fun heq => hparent.2 ⟨parent, hfind, heq⟩
        exact .inl ⟨.childHasIncorrectPath ns.id, by simp [add, hnew, hparent.1, hfind, hlength]⟩

def CanRemove (s : SharedRoots Address) (id : NamespaceId) : Prop :=
  ∃ child, s.children.find? id = some child ∧ hasDescendents s.children child.ns.path.length id = false

omit [DecidableEq Address] in
theorem remove_cases (s : SharedRoots Address) (id : NamespaceId) :
    (¬s.CanRemove id ∧ ∃ e, (remove id).run s = .error e s) ∨
    (s.CanRemove id ∧ (remove id).run s = .ok () { s with children := s.children.erase id }) := by
  cases hfind : s.children.find? id with
  | none => exact .inl ⟨by simp [CanRemove, hfind], .cannotRemoveChild id, by simp [remove, hfind]⟩
  | some child =>
    cases hdescendents : hasDescendents s.children child.ns.path.length id with
    | true =>
      exact .inl ⟨by simp [CanRemove, hfind, hdescendents], .childHasDescendents id,
        by simp [remove, hfind, hdescendents]⟩
    | false => exact .inr ⟨⟨child, hfind, hdescendents⟩, by simp [remove, hfind, hdescendents]⟩

omit [DecidableEq Address] in
theorem setAlias_cases (s : SharedRoots Address) (id : NamespaceId) (namespaceAlias : NamespaceAlias Address) :
    (∃ e, (setAlias id namespaceAlias).run s = .error e s) ∨
    ((setAlias id namespaceAlias).run s = .ok () { s with back := { s.back with namespaceAlias := namespaceAlias } }) ∨
    ((setAlias id namespaceAlias).run s = .ok () { s with
      children := s.children.modify id fun child => { child with namespaceAlias := namespaceAlias } }) := by
  by_cases hroot : s.back.id = id
  · exact .inr (.inl (by simp [setAlias, hroot]))
  · cases hfind : s.children.find? id with
    | none => exact .inl ⟨.notUnderRoot id s.back.id, by simp [setAlias, hroot, hfind]⟩
    | some child => exact .inr (.inr (by simp [setAlias, hroot, hfind]))

end SharedRoots

namespace NamespaceCacheDelta
variable {cache cache' cache'' : NamespaceCacheDelta Address} {ns : RootNamespace Address} {child : Namespace}

section
omit [DecidableEq Address]

theorem updateHistory_self (hfind : cache.historyById.find? rootId = some h) :
    cache.updateHistory rootId h = cache := by
  have heq : cache.historyById.insert rootId h = cache.historyById := SortedMap.ext_find? fun id => by
    rw [SortedMap.find?_insert]
    split
    · rename_i hid
      rw [hid, hfind]
    · rfl
  rw [updateHistory, heq]

theorem modifyBack_of_error {f : EStateM NamespaceError (SharedRoots Address) Unit} {e : NamespaceError}
    (hfind : cache.historyById.find? rootId = some h) (herror : f.run h.last = .error e h.last) :
    (modifyBack rootId h f).run cache = .error e cache := by
  simp only [modifyBack, herror, EStateM.run_bind, EStateM.run_modify]
  change EStateM.run (throw e) (cache.updateHistory rootId h) = _
  rw [updateHistory_self hfind]
  rfl

theorem modifyBack_of_ok {f : EStateM NamespaceError (SharedRoots Address) Unit} {last : SharedRoots Address}
    (hok : f.run h.last = .ok () last) : (modifyBack rootId h f).run cache =
      .ok { h with last := last } (cache.updateHistory rootId { h with last := last }) := by
  simp only [modifyBack, hok]
  rfl

theorem deepSizeOf_eq :
    deepSizeOf (some h) = (h.groups.map fun s => s.roots.length * (1 + s.children.size)).sum := by
  rw [deepSizeOf, RootNamespaceHistory.historyDepth_eq, RootNamespaceHistory.numAllHistoricalChildren_eq]
  simp only [← List.sum_map_add, Nat.mul_add, Nat.mul_one]

theorem deepSizeOf_cons : deepSizeOf (some h) = h.last.roots.length * (1 + h.last.children.size) +
    (h.previous.map fun s => s.roots.length * (1 + s.children.size)).sum := by
  rw [deepSizeOf_eq]
  rfl

theorem activeSizeOf_some : activeSizeOf (some h) = 1 + h.activeChildren.size := rfl

end

theorem Coherent.replaced_self (hc : cache.Coherent) {o : Option (RootNamespaceHistory Address)}
    (hns : namespacesOf o = namespacesOf (cache.historyById.find? rootId)) :
    SortedMap.Replaced cache.namespaceById cache.namespaceById (namespacesOf (cache.historyById.find? rootId))
      (namespacesOf o) := by
  intro id
  rw [hns]
  cases hfind : (namespacesOf (cache.historyById.find? rootId)).find? id with
  | none => simp
  | some ns =>
    rw [hc.find_of_namespacesOf hfind]
    rfl

def historyWith (cache : NamespaceCacheDelta Address) (ns : RootNamespace Address) : RootNamespaceHistory Address :=
  match cache.historyById.find? ns.id with
  | none => .ofRoot ns.id ns.ownerAddress ns.lifetime
  | some h => h.pushBack ns.ownerAddress ns.lifetime

theorem run_insertRoot_of_none (hfind : cache.historyById.find? ns.id = none) :
    (insertRoot ns).run cache = .ok () ((((cache.addExpiry ns.lifetime.endHeight ns.id).updateHistory ns.id
      (.ofRoot ns.id ns.ownerAddress ns.lifetime)).incrementActiveSize 1 |>.incrementDeepSize 1).updateNamespaces
        fun namespaceById => namespaceById.insert ns.id (.ofId ns.id)) := by
  simp only [insertRoot, EStateM.run_bind, EStateM.run_modify, EStateM.run_get]
  rw [show (cache.addExpiry ns.lifetime.endHeight ns.id).historyById.find? ns.id = none from hfind]
  rfl

theorem run_insertRoot_of_canExtend (hfind : cache.historyById.find? ns.id = some h)
    (hcan : ns.canExtend h.back = true) :
    (insertRoot ns).run cache = .ok () (((cache.addExpiry ns.lifetime.endHeight ns.id).incrementDeepSize
      h.activeChildren.size).updateHistory ns.id (h.pushBack ns.ownerAddress ns.lifetime) |>.incrementDeepSize 1) := by
  simp only [insertRoot, EStateM.run_bind, EStateM.run_modify, EStateM.run_get]
  rw [show (cache.addExpiry ns.lifetime.endHeight ns.id).historyById.find? ns.id = some h from hfind]
  simp only [hcan]
  rfl

theorem run_insertRoot_of_not_canExtend (hfind : cache.historyById.find? ns.id = some h)
    (hcan : ns.canExtend h.back = false) :
    (insertRoot ns).run cache = .ok () ((((cache.addExpiry ns.lifetime.endHeight ns.id).updateNamespaces
      (removeAll · h.activeChildren)).decrementActiveSize h.activeChildren.size).updateHistory ns.id
        (h.pushBack ns.ownerAddress ns.lifetime) |>.incrementDeepSize 1) := by
  simp only [insertRoot, EStateM.run_bind, EStateM.run_modify, EStateM.run_get]
  rw [show (cache.addExpiry ns.lifetime.endHeight ns.id).historyById.find? ns.id = some h from hfind]
  simp only [hcan]
  rfl

theorem canExtend_iff (hid : h.id = ns.id) : ns.canExtend h.back =
    (⟨h.id, ns.ownerAddress, ns.lifetime, .none⟩ : RootNamespace Address).canExtend h.back := by
  simp [RootNamespace.canExtend, hid]

theorem Coherent.replaced_removeAll (hc : cache.Coherent) (hfind : cache.historyById.find? rootId = some h)
    (hid : h'.id = rootId) (hnone : h'.activeChildren = ∅) :
    SortedMap.Replaced cache.namespaceById (removeAll cache.namespaceById h.activeChildren)
      (namespacesOf (some h)) (namespacesOf (some h')) := by
  intro id
  have hroot := hc.activeChildren_root hfind
  have hidOld := hc.id_eq _ _ hfind
  simp only [removeAll, SortedMap.find?_eraseAll, namespacesOf, Option.elim_some,
    RootNamespaceHistory.find?_namespaces, hid, hidOld, hnone, SortedMap.find?_empty, Option.map_none]
  by_cases heq : id = rootId
  · subst heq
    simp [hroot, SortedMap.mem_keys_iff, hc.find_root hfind]
  · cases hchild : h.activeChildren.find? id with
    | none => simp [heq, hchild, SortedMap.mem_keys_iff]
    | some child => simp [heq, hchild, SortedMap.mem_keys_iff]

/-- `insert` of a root never throws. -/
theorem insertRoot_spec (hc : cache.Coherent) (ns : RootNamespace Address) :
    ∃ cache', (insertRoot ns).run cache = .ok () cache' ∧
      Replaces cache cache' ns.id (some (cache.historyWith ns)) ∧ cache'.rootNamespaceIdsByExpiryHeight =
        cache.rootNamespaceIdsByExpiryHeight.addIdentifierWithGroup ns.lifetime.endHeight ns.id := by
  cases hfind : cache.historyById.find? ns.id with
  | none =>
    refine ⟨_, run_insertRoot_of_none hfind, ?_, rfl⟩
    rw [historyWith, hfind]
    refine ⟨rfl, ?_, ?_, ?_⟩
    · intro id
      by_cases hid : id = ns.id
      · simp [namespacesOf, RootNamespaceHistory.ofRoot, updateNamespaces, hid]
      · simp [namespacesOf, RootNamespaceHistory.ofRoot, updateNamespaces, hid, hfind,
          RootNamespaceHistory.activeChildren]
        rfl
    · simp only [hfind, activeSizeOf]
      simp [updateNamespaces, incrementDeepSize, incrementActiveSize, updateHistory, addExpiry,
        RootNamespaceHistory.ofRoot, RootNamespaceHistory.numActiveRootChildren, RootNamespaceHistory.activeChildren]
    · rw [hfind, deepSizeOf_cons]
      simp [updateNamespaces, incrementDeepSize, incrementActiveSize, updateHistory, addExpiry, deepSizeOf,
        RootNamespaceHistory.ofRoot]
  | some h =>
    have hid := hc.id_eq _ _ hfind
    have hwith : cache.historyWith ns = h.pushBack ns.ownerAddress ns.lifetime := by rw [historyWith, hfind]
    rw [hwith]
    cases hcan : ns.canExtend h.back with
    | true =>
      refine ⟨_, run_insertRoot_of_canExtend hfind hcan, ?_, rfl⟩
      rw [canExtend_iff hid] at hcan
      rw [RootNamespaceHistory.pushBack_of_canExtend hcan]
      refine ⟨rfl, hc.replaced_self (by rw [hfind]; rfl), ?_, ?_⟩
      · rw [hfind]
        rfl
      · rw [hfind, deepSizeOf_cons, deepSizeOf_cons]
        simp only [incrementDeepSize, updateHistory, addExpiry, SharedRoots.roots_mk, List.length_cons, Nat.succ_mul,
          RootNamespaceHistory.activeChildren]
        omega
    | false =>
      refine ⟨_, run_insertRoot_of_not_canExtend hfind hcan, ?_, rfl⟩
      rw [canExtend_iff hid] at hcan
      rw [RootNamespaceHistory.pushBack_of_not_canExtend hcan]
      refine ⟨rfl, ?_, ?_, ?_⟩
      · rw [hfind]
        exact hc.replaced_removeAll hfind hid rfl
      · rw [hfind, activeSizeOf_some, activeSizeOf_some]
        simp only [incrementDeepSize, updateHistory, addExpiry, decrementActiveSize, updateNamespaces,
          RootNamespaceHistory.activeChildren, SortedMap.size_empty]
        omega
      · rw [hfind, deepSizeOf_eq, deepSizeOf_cons]
        simp only [incrementDeepSize, updateHistory, addExpiry, decrementActiveSize, updateNamespaces,
          SharedRoots.roots_mk, List.length_singleton, SortedMap.size_empty]
        omega

omit [DecidableEq Address] in
theorem addAll_eq {children : Children Address} (namespaceById : SortedMap NamespaceId Namespace)
    (hids : ∀ id child, children.find? id = some child → child.ns.id = id) :
    addAll namespaceById children = namespaceById.insertAll (children.mapVal ChildNamespaceData.ns).entries := by
  rw [addAll, SortedMap.mapVal]
  congr 1
  apply List.map_congr_left
  intro pair hpair
  rw [hids pair.1 pair.2 (SortedMap.mem_entries_iff.1 hpair)]

theorem Coherent.replaced_addAll (hc : cache.Coherent) (hfind : cache.historyById.find? rootId = some h)
    (hid : h'.id = rootId) (hlast : h'.last ∈ h.groups) :
    SortedMap.Replaced cache.namespaceById
      (addAll (removeAll cache.namespaceById h.activeChildren) h'.activeChildren)
      (namespacesOf (some h)) (namespacesOf (some h')) := by
  intro id
  have hidOld := hc.id_eq _ _ hfind
  have hids : ∀ id child, h'.activeChildren.find? id = some child → child.ns.id = id :=
    fun id child hchild => ((hc.valid _ _ hfind).children _ hlast id child hchild).1
  have hroot : h'.activeChildren.find? rootId = none := by
    by_contra hnot
    obtain ⟨child, hchild⟩ := Option.ne_none_iff_exists'.1 hnot
    exact hc.not_hasChild_root hfind hfind
      (RootNamespaceHistory.hasChild_iff.2 ⟨_, hlast, SortedMap.mem_keys_iff.2 ⟨child, hchild⟩⟩)
  rw [addAll_eq _ hids, SortedMap.find?_insertAll_entries]
  simp only [removeAll, SortedMap.find?_eraseAll, namespacesOf, Option.elim_some,
    RootNamespaceHistory.find?_namespaces, hid, hidOld, SortedMap.find?_mapVal]
  by_cases heq : id = rootId
  · subst heq
    simp [hroot, hc.activeChildren_root hfind, SortedMap.mem_keys_iff, hc.find_root hfind]
  · cases hchild : h.activeChildren.find? id <;> simp [heq, hchild, SortedMap.mem_keys_iff]

theorem run_removeRoot_of_throw (hfind : cache.historyById.find? id = some h) (hdepth : h.historyDepth = 1)
    (hsize : h.activeChildren.size ≠ 0) : (removeRoot id).run cache = .error (.rootWithChildren id) cache := by
  simp [removeRoot, hfind, hdepth, hsize]

theorem run_removeRoot_of_none (hfind : cache.historyById.find? id = some h)
    (hnot : ¬(h.historyDepth = 1 ∧ h.activeChildren.size ≠ 0)) (hpop : h.popBack = none) :
    (removeRoot id).run cache = .ok () { cache with
      historyById := cache.historyById.erase id
      namespaceById := cache.namespaceById.erase id
      rootNamespaceIdsByExpiryHeight :=
        cache.rootNamespaceIdsByExpiryHeight.removeIdentifierWithGroup h.back.lifetime.endHeight id
      activeSize := cache.activeSize - (1 : Nat)
      deepSize := cache.deepSize - (1 : Nat) } := by
  simp only [removeRoot, EStateM.run_bind, EStateM.run_get, hfind, if_neg hnot, hpop]
  rfl

theorem run_removeRoot_of_canExtend (hfind : cache.historyById.find? id = some h)
    (hnot : ¬(h.historyDepth = 1 ∧ h.activeChildren.size ≠ 0)) (hpop : h.popBack = some h')
    (hcan : h.back.canExtend h'.back = true) :
    (removeRoot id).run cache = .ok () { cache with
      historyById := cache.historyById.insert id h'
      rootNamespaceIdsByExpiryHeight :=
        cache.rootNamespaceIdsByExpiryHeight.removeIdentifierWithGroup h.back.lifetime.endHeight id
      deepSize := cache.deepSize - (1 + h.activeChildren.size : Nat) } := by
  simp only [removeRoot, EStateM.run_bind, EStateM.run_get, hfind, if_neg hnot, hpop, hcan]
  rfl

theorem run_removeRoot_of_not_canExtend (hfind : cache.historyById.find? id = some h)
    (hnot : ¬(h.historyDepth = 1 ∧ h.activeChildren.size ≠ 0)) (hpop : h.popBack = some h')
    (hcan : h.back.canExtend h'.back = false) :
    (removeRoot id).run cache = .ok () { cache with
      historyById := cache.historyById.insert id h'
      namespaceById := addAll (removeAll cache.namespaceById h.activeChildren) h'.activeChildren
      rootNamespaceIdsByExpiryHeight :=
        cache.rootNamespaceIdsByExpiryHeight.removeIdentifierWithGroup h.back.lifetime.endHeight id
      activeSize := cache.activeSize - h.activeChildren.size + h'.activeChildren.size
      deepSize := cache.deepSize - (1 + h.activeChildren.size : Nat) } := by
  simp only [removeRoot, EStateM.run_bind, EStateM.run_get, hfind, if_neg hnot, hpop, hcan]
  rfl

theorem removeRoot_spec (hc : cache.Coherent) (hfind : cache.historyById.find? id = some h) :
    (h.historyDepth = 1 ∧ h.activeChildren.size ≠ 0 ∧
      (removeRoot id).run cache = .error (.rootWithChildren id) cache) ∨
    ∃ cache', (removeRoot id).run cache = .ok () cache' ∧ Replaces cache cache' id h.popBack ∧
      cache'.rootNamespaceIdsByExpiryHeight =
        cache.rootNamespaceIdsByExpiryHeight.removeIdentifierWithGroup h.back.lifetime.endHeight id := by
  by_cases hthrow : h.historyDepth = 1 ∧ h.activeChildren.size ≠ 0
  · exact .inl ⟨hthrow.1, hthrow.2, run_removeRoot_of_throw hfind hthrow.1 hthrow.2⟩
  right
  have hvalid := hc.valid _ _ hfind
  have hid := hc.id_eq _ _ hfind
  have hcases := RootNamespaceHistory.popBack_cases h
  generalize hpop : h.popBack = o at hcases ⊢
  cases hcases with
  | last rootId back children =>
    have hdepth : (⟨rootId, ⟨back, [], children⟩, []⟩ : RootNamespaceHistory Address).historyDepth = 1 := rfl
    obtain rfl : children = ∅ := SortedMap.eq_empty_of_size (not_not.1 fun hne => hthrow ⟨hdepth, hne⟩)
    refine ⟨_, run_removeRoot_of_none hfind hthrow hpop, ⟨rfl, ?_, ?_, ?_⟩, rfl⟩
    · intro k
      rw [hfind]
      obtain rfl : rootId = id := hid
      by_cases hk : k = rootId <;> simp [namespacesOf, RootNamespaceHistory.activeChildren, hk]
    · rw [hfind, activeSizeOf_some]
      simp [RootNamespaceHistory.activeChildren, activeSizeOf]
    · rw [hfind, deepSizeOf_cons]
      simp [deepSizeOf]
  | unshared rootId back children s rest =>
    have hcan : back.canExtend s.back = false := hvalid.linked.2.1 s rfl
    refine ⟨_, run_removeRoot_of_not_canExtend hfind hthrow hpop hcan, ⟨rfl, ?_, ?_, ?_⟩, rfl⟩
    · rw [hfind]
      exact hc.replaced_addAll hfind hid (by simp [RootNamespaceHistory.groups])
    · rw [hfind, activeSizeOf_some, activeSizeOf_some]
      dsimp only
      omega
    · rw [hfind, deepSizeOf_cons, deepSizeOf_eq]
      simp [RootNamespaceHistory.activeChildren, RootNamespaceHistory.groups]
      omega
  | shared rootId back root roots children rest =>
    have hcan : back.canExtend root = true := (List.isChain_cons_cons.1 hvalid.linked.1).1
    refine ⟨_, run_removeRoot_of_canExtend hfind hthrow hpop hcan, ⟨rfl, ?_, ?_, ?_⟩, rfl⟩
    · exact hc.replaced_self (by rw [hfind]; rfl)
    · rw [hfind]
      rfl
    · rw [hfind, deepSizeOf_cons, deepSizeOf_cons]
      simp only [SharedRoots.roots_mk, List.length_cons, Nat.succ_mul, RootNamespaceHistory.activeChildren]
      omega

def withChildren (h : RootNamespaceHistory Address) (children : Children Address) : RootNamespaceHistory Address :=
  { h with last := { h.last with children := children } }

omit [DecidableEq Address] in
theorem deepSizeOf_withChildren (children : Children Address) :
    deepSizeOf (some (withChildren h children)) + h.last.roots.length * h.activeChildren.size =
      deepSizeOf (some h) + h.last.roots.length * children.size := by
  rw [deepSizeOf_cons, deepSizeOf_cons]
  simp only [withChildren, SharedRoots.roots, List.length_cons, Nat.mul_add, RootNamespaceHistory.activeChildren]
  omega

theorem activeOwnerHistoryDepth_withChildren (hc : cache.Coherent) (hfind : cache.historyById.find? rootId = some h)
    (children : Children Address) : (withChildren h children).activeOwnerHistoryDepth = h.last.roots.length :=
  RootNamespaceHistory.activeOwnerHistoryDepth_eq (h := withChildren h children) (hc.valid _ _ hfind).linked

theorem run_insertChild_of_ok (hc : cache.Coherent) (hfind : cache.historyById.find? child.rootId = some h)
    {children : Children Address} (hok : (add child).run h.last = .ok () { h.last with children := children }) :
    (insertChild child).run cache = .ok () { cache with
      historyById := cache.historyById.insert child.rootId (withChildren h children)
      namespaceById := cache.namespaceById.insert child.id child
      activeSize := cache.activeSize + (1 : Nat)
      deepSize := cache.deepSize + h.last.roots.length } := by
  simp only [insertChild, EStateM.run_bind, EStateM.run_get, EStateM.run_modify, hfind, modifyBack_of_ok hok]
  rw [← activeOwnerHistoryDepth_withChildren hc hfind children]
  rfl

theorem run_removeChild_of_ok (hc : cache.Coherent) (hfind : cache.historyById.find? child.rootId = some h)
    {children : Children Address}
    (hok : (SharedRoots.remove child.id).run h.last = .ok () { h.last with children := children }) :
    (removeChild child).run cache = .ok () { cache with
      historyById := cache.historyById.insert child.rootId (withChildren h children)
      namespaceById := cache.namespaceById.erase child.id
      activeSize := cache.activeSize - (1 : Nat)
      deepSize := cache.deepSize - h.last.roots.length } := by
  simp only [removeChild, EStateM.run_bind, EStateM.run_get, EStateM.run_modify, hfind, modifyBack_of_ok hok]
  rw [← activeOwnerHistoryDepth_withChildren hc hfind children]
  rfl

theorem Coherent.replaced_child (hc : cache.Coherent) (hfind : cache.historyById.find? rootId = some h)
    (hne : id ≠ rootId) {children : Children Address} {namespaceById : SortedMap NamespaceId Namespace}
    (hchildren : ∀ k, k ≠ id → children.find? k = h.activeChildren.find? k)
    (hothers : ∀ k, k ≠ id → namespaceById.find? k = cache.namespaceById.find? k)
    (hown : namespaceById.find? id = (children.find? id).map ChildNamespaceData.ns)
    (hknown : children.find? id = none → h.activeChildren.find? id ≠ none) :
    SortedMap.Replaced cache.namespaceById namespaceById (namespacesOf (some h))
      (namespacesOf (some (withChildren h children))) := by
  intro k
  have hid := hc.id_eq _ _ hfind
  by_cases hk : k = id
  · subst hk
    rw [hown]
    simp only [namespacesOf, Option.elim_some, RootNamespaceHistory.find?_namespaces, withChildren, hid, hne, if_false,
      RootNamespaceHistory.activeChildren]
    cases hchild : children.find? k with
    | some child => rfl
    | none =>
      obtain ⟨child, hold⟩ := Option.ne_none_iff_exists'.1 (hknown hchild)
      rw [show h.last.children.find? k = some child from hold]
      rfl
  · have hself := hc.replaced_self (show namespacesOf (some h) = namespacesOf (cache.historyById.find? rootId) by
      rw [hfind]) k
    have hnew : (namespacesOf (some (withChildren h children))).find? k = (namespacesOf (some h)).find? k := by
      simp only [namespacesOf, Option.elim_some, RootNamespaceHistory.find?_namespaces]
      rw [show (withChildren h children).activeChildren.find? k = h.activeChildren.find? k from hchildren k hk]
      rfl
    rw [hothers k hk, hnew, ← hfind]
    rwa [← hfind] at hself

theorem insertChild_spec (hc : cache.Coherent) (child : Namespace) :
    (∃ e, (insertChild child).run cache = .error e cache) ∨
    ∃ h cache', cache.historyById.find? child.rootId = some h ∧ h.last.CanAdd child ∧
      (insertChild child).run cache = .ok () cache' ∧
      (child.id ≠ child.rootId → Replaces cache cache' child.rootId
        (some (withChildren h (h.activeChildren.insert child.id { ns := child })))) ∧
      cache'.rootNamespaceIdsByExpiryHeight = cache.rootNamespaceIdsByExpiryHeight := by
  cases hfind : cache.historyById.find? child.rootId with
  | none => exact .inl ⟨.noRootNamespace child.id, by simp [insertChild, hfind]⟩
  | some h =>
    rcases add_cases h.last child with ⟨e, herror⟩ | ⟨hcan, hok⟩
    · exact .inl ⟨e, by simp [insertChild, hfind, modifyBack_of_error hfind herror]⟩
    refine .inr ⟨h, _, rfl, hcan, run_insertChild_of_ok hc hfind hok, fun hne => ⟨rfl, ?_, ?_, ?_⟩, rfl⟩
    · rw [hfind]
      refine hc.replaced_child hfind hne ?_ ?_ ?_ ?_ <;> simp +contextual
    · have hsize := SortedMap.size_insert_of_none hcan.new { ns := child }
      rw [hfind, activeSizeOf_some, activeSizeOf_some]
      simp only [withChildren, RootNamespaceHistory.activeChildren, hsize]
      omega
    · have hsize := SortedMap.size_insert_of_none hcan.new { ns := child }
      have hdeep := deepSizeOf_withChildren (h := h) (h.activeChildren.insert child.id { ns := child })
      rw [hfind]
      simp only [RootNamespaceHistory.activeChildren, hsize, Nat.mul_add, Nat.mul_one] at hdeep ⊢
      omega

theorem removeChild_spec (hc : cache.Coherent) (hne : child.id ≠ child.rootId)
    (hfind : cache.historyById.find? child.rootId = some h) :
    (¬h.last.CanRemove child.id ∧ ∃ e, (removeChild child).run cache = .error e cache) ∨
    ∃ cache', h.last.CanRemove child.id ∧ (removeChild child).run cache = .ok () cache' ∧
      Replaces cache cache' child.rootId (some (withChildren h (h.activeChildren.erase child.id))) ∧
      cache'.rootNamespaceIdsByExpiryHeight = cache.rootNamespaceIdsByExpiryHeight := by
  rcases remove_cases h.last child.id with ⟨hcan, e, herror⟩ | ⟨hcan, hok⟩
  · exact .inl ⟨hcan, e, by simp [removeChild, hfind, modifyBack_of_error hfind herror]⟩
  obtain ⟨data, hdata, -⟩ := id hcan
  have hsize := SortedMap.size_erase_of_some hdata
  refine .inr ⟨_, hcan, run_removeChild_of_ok hc hfind hok, ⟨rfl, ?_, ?_, ?_⟩, rfl⟩
  · rw [hfind]
    refine hc.replaced_child hfind hne ?_ ?_ ?_ ?_
    · simp +contextual
    · simp +contextual
    · simp
    · intro _
      rw [RootNamespaceHistory.activeChildren, hdata]
      simp
  · rw [hfind, activeSizeOf_some, activeSizeOf_some]
    simp only [withChildren, RootNamespaceHistory.activeChildren]
    omega
  · have hdeep := deepSizeOf_withChildren (h := h) (h.activeChildren.erase child.id)
    rw [hfind]
    simp only [RootNamespaceHistory.activeChildren] at hdeep ⊢
    rw [← hsize] at hdeep
    simp only [Nat.mul_add, Nat.mul_one] at hdeep
    omega

theorem remove_spec (hc : cache.Coherent) (id : NamespaceId) :
    (remove id).run cache = .error (.noNamespace id) cache ∨
    (∃ h, cache.historyById.find? id = some h ∧ (remove id).run cache = (removeRoot id).run cache) ∨
    ∃ child h, child.id = id ∧ child.id ≠ child.rootId ∧ cache.historyById.find? child.rootId = some h ∧
      (remove id).run cache = (removeChild child).run cache := by
  cases hns : cache.namespaceById.find? id with
  | none => exact .inl (by simp [remove, hns])
  | some ns =>
    right
    obtain ⟨rootId, h, hfind, hnamespaces⟩ := (hc.namespaces _ _).1 hns
    have hid := hc.id_eq _ _ hfind
    rw [RootNamespaceHistory.find?_namespaces] at hnamespaces
    split at hnamespaces
    · cases hnamespaces
      obtain rfl : id = rootId := by rw [← hid]; assumption
      exact .inl ⟨h, hfind, by simp [remove, hns, hid]⟩
    · obtain ⟨child, hchild, rfl⟩ := Option.map_eq_some_iff.1 hnamespaces
      obtain ⟨hchildId, hchildRoot⟩ := (hc.valid _ _ hfind).children h.last List.mem_cons_self id child hchild
      have hne : child.ns.rootId ≠ id := by
        rw [hchildRoot]
        exact Ne.symm ‹_›
      refine .inr ⟨child.ns, h, hchildId, by rw [hchildId]; exact hne.symm, by rw [hchildRoot, hid, hfind], ?_⟩
      simp [remove, hns, hne]

omit [DecidableEq Address] in
theorem pruneHistory_of_none (hfind : cache.historyById.find? id = none) {height : Nat} :
    cache.pruneHistory height id = cache := by
  simp only [pruneHistory, hfind]

theorem pruneHistory_spec (hc : cache.Coherent) (hfind : cache.historyById.find? id = some h) (height : Nat) :
    Replaces cache (cache.pruneHistory height id) id (h.prune height) := by
  have hvalid := hc.valid _ _ hfind
  have hid := hc.id_eq _ _ hfind
  have hprune : cache.pruneHistory height id = { cache with
      historyById := cache.historyById.alter id fun _ => h.prune height
      namespaceById := cache.namespaceById.eraseAll (h.prunedIds height).keys
      activeSize := cache.activeSize - ((activeSizeOf (some h) : Int) - activeSizeOf (h.prune height))
      deepSize := cache.deepSize - ((deepSizeOf (some h) : Int) - deepSizeOf (h.prune height)) } := by
    simp only [pruneHistory, hfind]
  rw [hprune]
  refine ⟨rfl, ?_, ?_, ?_⟩
  · rw [hfind]
    by_cases hended : h.back.lifetime.endHeight ≤ height
    · obtain ⟨hnone, hids⟩ := RootNamespaceHistory.prune_of_ended hvalid.ends hended
      intro k
      rw [hnone, SortedMap.find?_eraseAll]
      simp only [namespacesOf, Option.elim_none, Option.elim_some, SortedMap.find?_empty, Option.none_or,
        RootNamespaceHistory.find?_namespaces]
      by_cases hk : k = h.id
      · rw [if_pos ((hids k).2 (.inl hk)), if_pos hk]
        rfl
      cases hchild : h.activeChildren.find? k with
      | some child =>
        rw [if_pos ((hids k).2 (.inr (RootNamespaceHistory.hasChild_of_find hchild))), if_neg hk]
        rfl
      | none =>
        rw [if_neg hk]
        by_cases hhas : h.HasChild k
        · rw [if_pos ((hids k).2 (.inr hhas)), hc.find_eq_none hfind hhas hchild]
          rfl
        · rw [if_neg fun hmem => ((hids k).1 hmem).elim hk hhas]
          rfl
    · obtain ⟨h', hsome, hkept, -, hids⟩ := RootNamespaceHistory.prune_of_not_ended (h := h) (Nat.lt_of_not_le hended)
      have heq : cache.namespaceById.eraseAll (h.prunedIds height).keys = cache.namespaceById := by
        apply SortedMap.ext_find?
        intro k
        rw [SortedMap.find?_eraseAll]
        split
        · obtain ⟨hhas, hnot⟩ := hids k ‹_›
          rw [SortedMap.mem_keys_iff, ← Option.isSome_iff_exists, Option.not_isSome_iff_eq_none] at hnot
          exact (hc.find_eq_none hfind hhas hnot).symm
        · rfl
      have hns : namespacesOf (some h') = namespacesOf (cache.historyById.find? id) := by
        rw [hfind]
        simp only [namespacesOf, Option.elim_some, RootNamespaceHistory.namespaces, hkept.id_eq,
          hkept.activeChildren_eq]
      rw [hsome, heq, ← hfind]
      exact hc.replaced_self hns
  · rw [hfind]
    dsimp only
    omega
  · rw [hfind]
    dsimp only
    omega

theorem copyHistory_eq (hc : cache.Coherent) (id : NamespaceId) : cache.copyHistory id = cache := by
  have heq : (cache.historyById.alter id fun history => history.bind RootNamespaceHistory.copy) =
      cache.historyById := by
    apply SortedMap.ext_find?
    intro k
    rw [SortedMap.find?_alter]
    split
    · rename_i hk
      subst hk
      cases hfind : cache.historyById.find? k with
      | none => rfl
      | some h => exact RootNamespaceHistory.copy_eq (hc.valid _ _ hfind).linked
    · rfl
  rw [copyHistory, heq]

def withLast (h : RootNamespaceHistory Address) (last : SharedRoots Address) : RootNamespaceHistory Address :=
  { h with last := last }

structure SameButAliases (s t : SharedRoots Address) : Prop where
  id : t.back.id = s.back.id
  owner : t.back.ownerAddress = s.back.ownerAddress
  lifetime : t.back.lifetime = s.back.lifetime
  previous : t.previous = s.previous
  children : t.children.mapVal ChildNamespaceData.ns = s.children.mapVal ChildNamespaceData.ns

omit [DecidableEq Address] in
theorem setAlias_same (s : SharedRoots Address) (id : NamespaceId) (namespaceAlias : NamespaceAlias Address) :
    (∃ e, (SharedRoots.setAlias id namespaceAlias).run s = .error e s) ∨
    ∃ t, (SharedRoots.setAlias id namespaceAlias).run s = .ok () t ∧ SameButAliases s t := by
  rcases setAlias_cases s id namespaceAlias with herror | hok | hok
  · exact .inl herror
  · exact .inr ⟨_, hok, rfl, rfl, rfl, rfl, rfl⟩
  · refine .inr ⟨_, hok, rfl, rfl, rfl, rfl, SortedMap.ext_find? fun k => ?_⟩
    simp only [SortedMap.find?_mapVal, SortedMap.find?_modify]
    split
    · rename_i hk
      subst hk
      cases s.children.find? k <;> rfl
    · rfl

theorem setAlias_spec (hc : cache.Coherent) (id : NamespaceId) (namespaceAlias : NamespaceAlias Address) :
    (∃ e, (setAlias id namespaceAlias).run cache = .error e cache) ∨
    ∃ rootId h last cache', cache.historyById.find? rootId = some h ∧ SameButAliases h.last last ∧
      (setAlias id namespaceAlias).run cache = .ok () cache' ∧ Replaces cache cache' rootId (some (withLast h last)) ∧
      cache'.rootNamespaceIdsByExpiryHeight = cache.rootNamespaceIdsByExpiryHeight := by
  cases hns : cache.namespaceById.find? id with
  | none => exact .inl ⟨.noNamespace id, by simp [setAlias, hns]⟩
  | some ns =>
    obtain ⟨rootId, h, hfind, hnamespaces⟩ := (hc.namespaces _ _).1 hns
    have hrootId : ns.rootId = rootId := by
      rw [RootNamespaceHistory.find?_namespaces] at hnamespaces
      split at hnamespaces
      · cases hnamespaces
        exact hc.id_eq _ _ hfind
      · obtain ⟨child, hchild, rfl⟩ := Option.map_eq_some_iff.1 hnamespaces
        have hroot := ((hc.valid _ _ hfind).children h.last List.mem_cons_self id child hchild).2
        exact hroot.trans (hc.id_eq _ _ hfind)
    subst hrootId
    rcases setAlias_same h.last id namespaceAlias with ⟨e, herror⟩ | ⟨last, hok, hsame⟩
    · refine .inl ⟨e, ?_⟩
      simp only [setAlias, EStateM.run_bind, EStateM.run_get, hns, hfind, modifyBack_of_error hfind herror]
    refine .inr ⟨ns.rootId, h, last, cache.updateHistory ns.rootId (withLast h last), hfind, hsame, ?_,
      ⟨rfl, ?_, ?_, ?_⟩,
      rfl⟩
    · simp only [setAlias, EStateM.run_bind, EStateM.run_get, hns, hfind, modifyBack_of_ok hok]
      rfl
    · apply hc.replaced_self
      rw [hfind]
      simp only [namespacesOf, Option.elim_some, RootNamespaceHistory.namespaces, withLast,
        RootNamespaceHistory.activeChildren, hsame.children]
    · have hsize := congrArg SortedMap.size hsame.children
      rw [SortedMap.size_mapVal, SortedMap.size_mapVal] at hsize
      rw [hfind, activeSizeOf_some, activeSizeOf_some]
      simp only [withLast, RootNamespaceHistory.activeChildren, updateHistory, hsize]
    · have hsize := congrArg SortedMap.size hsame.children
      rw [SortedMap.size_mapVal, SortedMap.size_mapVal] at hsize
      rw [hfind, deepSizeOf_cons, deepSizeOf_cons]
      simp only [withLast, updateHistory, hsize, SharedRoots.roots, List.length_cons, hsame.previous]

end NamespaceCacheDelta
end Catapult.Namespaces
