import Catapult.Namespaces.Nesting

/-!
# Undoing insertions into the namespace cache

The observers insert when a block is executed and remove when it is rolled back. A root that is inserted ends after
every height that was pruned, and a child is inserted with the path of its parent (`Registers`). Then the expiry
index has no leftover entry at the height at which a new root ends, and no child is below a new child, so that
removing what was inserted restores the whole cache.
-/

namespace Catapult.Namespaces
open Cache SharedRoots

variable {Address : Type} [DecidableEq Address] {h h' : RootNamespaceHistory Address} {id rootId : NamespaceId}
  {pruned height : Nat}

namespace NamespaceCacheDelta
variable {cache cache' cache'' : NamespaceCacheDelta Address} {o : Option (RootNamespaceHistory Address)}

/-! ## Caches between blocks -/

def Registers (pruned : Nat) (cache : NamespaceCacheDelta Address) : Operation Address → Prop
  | .insertRoot ns => pruned < ns.lifetime.endHeight
  | .insertChild ns => ∃ parentId parent, cache.namespaceById.find? parentId = some parent ∧
    ns = parent.createChild ns.id
  | _ => True

def Operation.prunedHeight (pruned : Nat) : Operation Address → Nat
  | .prune height _ => max pruned height
  | _ => pruned

/-- The caches that are reached by the observers, with the greatest height that was pruned. -/
inductive ReachableAbove : Nat → NamespaceCacheDelta Address → Prop
  | empty : ReachableAbove 0 empty
  | step {pruned : Nat} {cache : NamespaceCacheDelta Address} (operation : Operation Address)
    (h : ReachableAbove pruned cache) (hadmissible : cache.Admissible operation)
    (hregisters : cache.Registers pruned operation) :
    ReachableAbove (operation.prunedHeight pruned) (operation.apply cache)

structure Sound (pruned : Nat) (cache : NamespaceCacheDelta Address) : Prop where
  coherent : cache.Coherent
  noEmptyGroup : cache.rootNamespaceIdsByExpiryHeight.NoEmptyGroup
  index : ∀ height id, pruned < height → id ∈ cache.rootNamespaceIdsByExpiryHeight.identifiers height →
    ∃ h, cache.historyById.find? id = some h ∧ ∃ root ∈ h.roots, root.lifetime.endHeight = height
  nested : ∀ rootId h, cache.historyById.find? rootId = some h → HistoryNested rootId h

theorem sound_empty : Sound 0 (empty : NamespaceCacheDelta Address) where
  coherent := coherent_empty
  noEmptyGroup := GroupedSet.NoEmptyGroup.empty
  index height id _ hmem := by simp [empty] at hmem
  nested rootId h hfind := by cases hfind

theorem Sound.mono {pruned' : Nat} (hs : cache.Sound pruned) (hle : pruned ≤ pruned') : cache.Sound pruned' :=
  ⟨hs.coherent, hs.noEmptyGroup, fun height id hlt => hs.index height id (by omega), hs.nested⟩

theorem Sound.replace (hs : cache.Sound pruned) (hr : Replaces cache cache' rootId o)
    (hnew : Coherent.CanReplace cache rootId o) (hnested : ∀ h ∈ o, HistoryNested rootId h)
    (hempty : cache'.rootNamespaceIdsByExpiryHeight.NoEmptyGroup)
    (hothers : ∀ height id, id ≠ rootId → id ∈ cache'.rootNamespaceIdsByExpiryHeight.identifiers height →
      id ∈ cache.rootNamespaceIdsByExpiryHeight.identifiers height)
    (hindex : ∀ height, pruned < height → rootId ∈ cache'.rootNamespaceIdsByExpiryHeight.identifiers height →
      ∃ h ∈ o, ∃ root ∈ h.roots, root.lifetime.endHeight = height) : cache'.Sound pruned := by
  have hfind := Coherent.find_history_of_replaces hr
  refine ⟨hs.coherent.replace hr hnew, hempty, ?_, ?_⟩
  · intro height id hlt hmem
    by_cases hid : id = rootId
    · subst hid
      obtain ⟨h, hh, hroot⟩ := hindex height hlt hmem
      exact ⟨h, by rw [hfind, if_pos rfl]; exact hh, hroot⟩
    · obtain ⟨h, hh, hroot⟩ := hs.index height id hlt (hothers height id hid hmem)
      exact ⟨h, by rw [hfind, if_neg hid, hh], hroot⟩
  · intro otherId h hh
    rw [hfind] at hh
    split at hh
    · rename_i heq
      rw [heq]
      exact hnested h hh
    · exact hs.nested otherId h hh

theorem mem_roots_pushBack (h : RootNamespaceHistory Address) (owner : Address) (lifetime : NamespaceLifetime) :
    (∃ root ∈ (h.pushBack owner lifetime).roots, root.lifetime = lifetime) ∧
    ∀ root ∈ h.roots, root ∈ (h.pushBack owner lifetime).roots := by
  obtain ⟨root, hlifetime, hroots⟩ := RootNamespaceHistory.exists_roots_pushBack h owner lifetime
  rw [hroots]
  exact ⟨⟨root, List.mem_cons_self, hlifetime⟩, fun root => List.mem_cons_of_mem _⟩

theorem Sound.insertRoot (hs : cache.Sound pruned) {ns : RootNamespace Address}
    (hadmissible : cache.Admissible (.insertRoot ns)) : ∃ cache', (insertRoot ns).run cache = .ok () cache' ∧
      Replaces cache cache' ns.id (some (cache.historyWith ns)) ∧
        Coherent.CanReplace cache ns.id (some (cache.historyWith ns)) ∧
      cache'.rootNamespaceIdsByExpiryHeight =
        cache.rootNamespaceIdsByExpiryHeight.addIdentifierWithGroup ns.lifetime.endHeight ns.id ∧
      cache'.Sound pruned := by
  obtain ⟨cache', hrun, hreplaces, hexpiry⟩ := insertRoot_spec hs.coherent ns
  have hnew := hs.coherent.canReplace_insertRoot hadmissible
  refine ⟨cache', hrun, hreplaces, hnew, hexpiry, hs.replace hreplaces hnew ?_ ?_ ?_ ?_⟩
  · rintro _ ⟨rfl⟩
    cases hfind : cache.historyById.find? ns.id with
    | none =>
      rw [historyWith, hfind]
      exact historyNested_ofRoot ns.id _ _
    | some h =>
      rw [historyWith, hfind]
      exact (hs.nested ns.id h hfind).pushBack (hs.coherent.id_eq _ _ hfind) _ _
  · rw [hexpiry]
    exact hs.noEmptyGroup.add
  · intro height id hne hmem
    rw [hexpiry, GroupedSet.mem_identifiers_add] at hmem
    exact hmem.resolve_left fun heq => hne heq.2
  · intro height hlt hmem
    refine ⟨_, rfl, ?_⟩
    rw [hexpiry, GroupedSet.mem_identifiers_add] at hmem
    rcases hmem with ⟨rfl, -⟩ | hmem
    · rw [historyWith]
      cases cache.historyById.find? ns.id with
      | none => exact ⟨_, List.mem_singleton.2 rfl, rfl⟩
      | some h => exact (mem_roots_pushBack h _ _).1.imp fun root hroot => ⟨hroot.1, congrArg _ hroot.2⟩
    · obtain ⟨h, hfind, root, hroot, hend⟩ := hs.index height ns.id hlt hmem
      rw [historyWith, hfind]
      exact ⟨root, (mem_roots_pushBack h _ _).2 root hroot, hend⟩

theorem Sound.replace_same_index (hs : cache.Sound pruned) (hr : Replaces cache cache' rootId (some h'))
    (hnew : Coherent.CanReplace cache rootId (some h')) (hfind : cache.historyById.find? rootId = some h)
    (hnested : HistoryNested rootId h')
    (hexpiry : cache'.rootNamespaceIdsByExpiryHeight = cache.rootNamespaceIdsByExpiryHeight)
    (hends : ∀ root ∈ h.roots, ∃ root' ∈ h'.roots, root'.lifetime = root.lifetime) : cache'.Sound pruned := by
  refine hs.replace hr hnew ?_ (hexpiry ▸ hs.noEmptyGroup) (fun height id _ hmem => hexpiry ▸ hmem) ?_
  · rintro _ ⟨rfl⟩
    exact hnested
  · intro height hlt hmem
    rw [hexpiry] at hmem
    obtain ⟨old, hold, root, hroot, hend⟩ := hs.index height rootId hlt hmem
    obtain rfl : h = old := Option.some.inj (hfind.symm.trans hold)
    obtain ⟨root', hroot', hlifetime⟩ := hends root hroot
    exact ⟨h', rfl, root', hroot', by rw [hlifetime, hend]⟩

omit [DecidableEq Address] in
theorem id_createChild (parent : Namespace) (id : NamespaceId) : (parent.createChild id).id = id := by
  simp [Namespace.id, Namespace.createChild]

omit [DecidableEq Address] in
theorem rootId_createChild (parent : Namespace) (id : NamespaceId) :
    (parent.createChild id).rootId = parent.rootId := by
  simp [Namespace.rootId, Namespace.createChild, List.head_append_of_ne_nil parent.path_ne_nil]

theorem Coherent.parent_of_registers (hc : cache.Coherent) {ns : Namespace}
    (hregisters : cache.Registers pruned (.insertChild ns)) (hfind : cache.historyById.find? ns.rootId = some h) :
    ∃ parent : Namespace, ns.path = parent.path ++ [ns.id] ∧ (parent.path.length = 1 ∨
      ∃ child, h.activeChildren.find? parent.id = some child ∧ child.ns = parent) := by
  obtain ⟨parentId, parent, hparent, hns⟩ := hregisters
  obtain ⟨rootId, other, hother, hnamespaces⟩ := (hc.namespaces _ _).1 hparent
  have hid := hc.id_eq _ _ hother
  have hrootId : ns.rootId = parent.rootId := by rw [hns, rootId_createChild]
  refine ⟨parent, by rw [hns, id_createChild]; rfl, ?_⟩
  rw [RootNamespaceHistory.find?_namespaces] at hnamespaces
  split at hnamespaces
  · cases hnamespaces
    exact .inl rfl
  · obtain ⟨child, hchild, rfl⟩ := Option.map_eq_some_iff.1 hnamespaces
    obtain ⟨hchildId, hchildRoot⟩ := (hc.valid _ _ hother).children other.last List.mem_cons_self parentId child hchild
    obtain rfl : h = other := by
      rw [hrootId, hchildRoot, hid, hother] at hfind
      exact (Option.some.inj hfind).symm
    exact .inr ⟨child, by rw [hchildId]; exact hchild, rfl⟩

theorem Sound.insertChild (hs : cache.Sound pruned) {ns : Namespace}
    (hadmissible : cache.Admissible (.insertChild ns)) (hregisters : cache.Registers pruned (.insertChild ns)) :
    (∃ e, (insertChild ns).run cache = .error e cache) ∨
    ∃ h cache', cache.historyById.find? ns.rootId = some h ∧ h.activeChildren.find? ns.id = none ∧
      (insertChild ns).run cache = .ok () cache' ∧ Replaces cache cache' ns.rootId
        (some (withChildren h (h.activeChildren.insert ns.id { ns := ns }))) ∧
      cache'.rootNamespaceIdsByExpiryHeight = cache.rootNamespaceIdsByExpiryHeight ∧ cache'.Sound pruned := by
  rcases insertChild_spec hs.coherent ns with herror | ⟨h, cache', hfind, hcan, hrun, hreplaces, hexpiry⟩
  · exact .inl herror
  have hreplaces := hreplaces (ne_rootId_of_canOwn hadmissible hfind)
  obtain ⟨parent, hpath, hparent⟩ := hs.coherent.parent_of_registers hregisters hfind
  have hnested := hs.nested _ h hfind
  refine .inr ⟨h, cache', hfind, hcan.new, hrun, hreplaces, hexpiry, ?_⟩
  exact hs.replace_same_index hreplaces (hs.coherent.canReplace_insertChild hadmissible hfind) hfind
    (hnested.withLast rfl rfl ((hnested.nested _ List.mem_cons_self).insert hcan.new hpath hparent)) hexpiry
    fun root hroot => ⟨root, hroot, rfl⟩

theorem Sound.setAlias (hs : cache.Sound pruned) (id : NamespaceId) (namespaceAlias : NamespaceAlias Address) :
    (Operation.apply cache (.setAlias id namespaceAlias)).Sound pruned := by
  rcases setAlias_spec hs.coherent id namespaceAlias with
    ⟨e, herror⟩ | ⟨rootId, h, last, cache', hfind, hsame, hrun, hreplaces, hexpiry⟩
  · simp only [Operation.apply, herror, stateOf]
    exact hs
  simp only [Operation.apply, hrun, stateOf]
  refine hs.replace_same_index hreplaces (hs.coherent.canReplace_setAlias hfind hsame) hfind ?_ hexpiry ?_
  · have hnested := hs.nested _ h hfind
    exact hnested.withLast hsame.id hsame.previous ((hnested.nested _ List.mem_cons_self).congr hsame.children)
  · intro root hroot
    rcases List.mem_cons.1 hroot with rfl | hroot
    · exact ⟨last.back, List.mem_cons_self, hsame.lifetime⟩
    · refine ⟨root, List.mem_cons_of_mem _ ?_, rfl⟩
      change root ∈ last.previous ++ _
      rw [hsame.previous]
      exact hroot

theorem Sound.removeRoot (hs : cache.Sound pruned) (hfind : cache.historyById.find? id = some h)
    (hreplaces : Replaces cache cache' id h.popBack) (hexpiry : cache'.rootNamespaceIdsByExpiryHeight =
      cache.rootNamespaceIdsByExpiryHeight.removeIdentifierWithGroup h.back.lifetime.endHeight id) :
    cache'.Sound pruned := by
  have hcases := RootNamespaceHistory.popBack_cases h
  refine hs.replace hreplaces (hs.coherent.canReplace_popBack hfind) ?_ ?_ ?_ ?_
  · intro h' hpop
    rw [show h.popBack = some h' from hpop] at hcases
    exact (hs.nested _ _ hfind).popBack hcases
  · rw [hexpiry]
    exact hs.noEmptyGroup.removeIdentifier
  · intro height otherId _ hmem
    rw [hexpiry, GroupedSet.mem_identifiers_remove] at hmem
    exact hmem.2
  · intro height hlt hmem
    rw [hexpiry, GroupedSet.mem_identifiers_remove] at hmem
    obtain ⟨hne, hmem⟩ := hmem
    obtain ⟨old, hold, root, hroot, hend⟩ := hs.index height id hlt hmem
    obtain rfl : h = old := Option.some.inj (hfind.symm.trans hold)
    have hback : root ≠ h.back := by
      rintro rfl
      exact hne ⟨hend.symm, rfl⟩
    cases hpop : h.popBack with
    | none =>
      rw [hpop] at hcases
      cases hcases
      exact absurd (List.mem_singleton.1 hroot) hback
    | some h' =>
      rw [hpop] at hcases
      rw [RootNamespaceHistory.roots_popBack hcases] at hroot
      exact ⟨h', rfl, root, (List.mem_cons.1 hroot).resolve_left hback, hend⟩

theorem Sound.remove (hs : cache.Sound pruned) (id : NamespaceId) :
    (Operation.apply cache (.remove id)).Sound pruned := by
  rcases remove_spec hs.coherent id with herror | ⟨h, hfind, hroot⟩ | ⟨child, h, rfl, hne, hfind, hchild⟩
  · simp only [Operation.apply, herror, stateOf]
    exact hs
  · rcases removeRoot_spec hs.coherent hfind with ⟨-, -, herror⟩ | ⟨cache', hrun, hreplaces, hexpiry⟩
    · simp only [Operation.apply, hroot, herror, stateOf]
      exact hs
    · simp only [Operation.apply, hroot, hrun, stateOf]
      exact hs.removeRoot hfind hreplaces hexpiry
  · rcases removeChild_spec hs.coherent hne hfind with ⟨-, e, herror⟩ | ⟨cache', hcan, hrun, hreplaces, hexpiry⟩
    · simp only [Operation.apply, hchild, herror, stateOf]
      exact hs
    · simp only [Operation.apply, hchild, hrun, stateOf]
      obtain ⟨removed, hremoved, hdescendents⟩ := hcan
      have hnested := hs.nested _ h hfind
      exact hs.replace_same_index hreplaces (hs.coherent.canReplace_removeChild hfind) hfind
        (hnested.withLast rfl rfl ((hnested.nested _ List.mem_cons_self).erase hremoved hdescendents)) hexpiry
        fun root hroot => ⟨root, hroot, rfl⟩

theorem Sound.pruneHistory (hs : cache.Sound pruned) (hle : height ≤ pruned) (id : NamespaceId) :
    (cache.pruneHistory height id).Sound pruned := by
  cases hfind : cache.historyById.find? id with
  | none => rwa [pruneHistory_of_none hfind]
  | some h =>
    have hvalid := hs.coherent.valid _ _ hfind
    have hexpiry : (cache.pruneHistory height id).rootNamespaceIdsByExpiryHeight =
        cache.rootNamespaceIdsByExpiryHeight := by simp only [NamespaceCacheDelta.pruneHistory, hfind]
    refine hs.replace (pruneHistory_spec hs.coherent hfind height) (hs.coherent.canReplace_prune hfind height) ?_
      (hexpiry ▸ hs.noEmptyGroup) (fun _ _ _ hmem => hexpiry ▸ hmem) ?_
    · intro h' hprune
      exact (hs.nested _ h hfind).prune (RootNamespaceHistory.kept_of_prune hvalid.ends hprune)
    · intro height' hlt hmem
      rw [hexpiry] at hmem
      obtain ⟨old, hold, root, hroot, hend⟩ := hs.index height' id hlt hmem
      obtain rfl : h = old := Option.some.inj (hfind.symm.trans hold)
      have hback := RootNamespaceHistory.endHeight_le_back hvalid.ends hroot
      obtain ⟨h', hsome, hkept, -, -⟩ := RootNamespaceHistory.prune_of_not_ended
        (show height < h.back.lifetime.endHeight by omega)
      refine ⟨h', hsome, root, ?_, hend⟩
      rw [hkept.roots_eq, List.mem_filter]
      exact ⟨hroot, by simp; omega⟩

theorem ReachableAbove.sound (h : ReachableAbove pruned cache) : cache.Sound pruned := by
  induction h with
  | empty => exact sound_empty
  | @step pruned cache operation hreachable hadmissible hregisters ih =>
    cases operation with
    | insertRoot ns =>
      obtain ⟨cache', hrun, -, -, -, hsound⟩ := ih.insertRoot hadmissible
      simp only [Operation.apply, hrun, stateOf]
      exact hsound
    | insertChild ns =>
      rcases ih.insertChild hadmissible hregisters with ⟨e, herror⟩ | ⟨h, cache', -, -, hrun, -, -, hsound⟩
      · simp only [Operation.apply, herror, stateOf]
        exact ih
      · simp only [Operation.apply, hrun, stateOf]
        exact hsound
    | setAlias id namespaceAlias => exact ih.setAlias id namespaceAlias
    | remove id => exact ih.remove id
    | prune height ids =>
      rw [Operation.apply, prune_snd, Operation.prunedHeight]
      have hstart := ih.mono (Nat.le_max_left pruned height)
      clear ih hadmissible hreachable hregisters
      induction ids generalizing cache with
      | nil => exact hstart
      | cons id ids ihIds => exact ihIds (hstart.pruneHistory (Nat.le_max_right pruned height) id)
    | copy id =>
      rw [Operation.apply, copyHistory_eq ih.coherent]
      exact ih

/-! ## Undoing an insertion -/

theorem eq_of_replaces_back (hc : cache.Coherent) (hnew : Coherent.CanReplace cache rootId o)
    (hr : Replaces cache cache' rootId o) (hback : Replaces cache' cache'' rootId (cache.historyById.find? rootId))
    (hexpiry : cache''.rootNamespaceIdsByExpiryHeight = cache.rootNamespaceIdsByExpiryHeight) : cache'' = cache := by
  have hfind' := Coherent.find_history_of_replaces hr
  have hfind := Coherent.find_history_of_replaces hback
  have hself : cache'.historyById.find? rootId = o := by rw [hfind', if_pos rfl]
  have hhistories : cache''.historyById = cache.historyById := by
    apply SortedMap.ext_find?
    intro id
    rw [hfind]
    split
    · rename_i heq
      rw [heq]
    · rename_i hne
      rw [hfind', if_neg hne]
  have hnamespaces : cache''.namespaceById = cache.namespaceById := by
    apply SortedMap.ext_find?
    intro id
    rw [hback.namespaces id, hself]
    cases hold : (namespacesOf (cache.historyById.find? rootId)).find? id with
    | some ns => rw [hc.find_of_namespacesOf hold, Option.some_or]
    | none =>
      cases hns : (namespacesOf o).find? id with
      | some ns =>
        rw [hnew.find_new_eq_none hc hns hold]
        rfl
      | none =>
        rw [hr.namespaces id, hold, hns]
        rfl
  have hactive := hr.active
  have hactiveBack := hback.active
  have hdeep := hr.deep
  have hdeepBack := hback.deep
  rw [hself] at hactiveBack hdeepBack
  obtain ⟨_, _, _, activeSize, deepSize⟩ := cache''
  obtain ⟨_, _, _, activeSize', deepSize'⟩ := cache
  simp only at hhistories hnamespaces hexpiry hactive hactiveBack hdeep hdeepBack
  rw [mk.injEq]
  refine ⟨hhistories, hnamespaces, hexpiry, ?_, ?_⟩ <;> omega

theorem remove_eq_removeRoot (hc : cache.Coherent) (hfind : cache.historyById.find? id = some h) :
    (remove id).run cache = (removeRoot id).run cache := by
  simp [remove, hc.find_root hfind]

theorem popBack_historyWith (cache : NamespaceCacheDelta Address) (ns : RootNamespace Address) :
    (cache.historyWith ns).popBack = cache.historyById.find? ns.id ∧
    (cache.historyWith ns).back.lifetime = ns.lifetime ∧
    ¬((cache.historyWith ns).historyDepth = 1 ∧ (cache.historyWith ns).activeChildren.size ≠ 0) := by
  rw [historyWith]
  cases cache.historyById.find? ns.id with
  | none => exact ⟨rfl, rfl, fun h => h.2 rfl⟩
  | some h =>
    obtain ⟨root, hlifetime, hroots⟩ := RootNamespaceHistory.exists_roots_pushBack h ns.ownerAddress ns.lifetime
    refine ⟨RootNamespaceHistory.popBack_pushBack, ?_, ?_⟩
    · have hback : (h.pushBack ns.ownerAddress ns.lifetime).back = root := (List.cons.inj hroots).1
      exact (congrArg _ hback).trans hlifetime
    · rintro ⟨hdepth, -⟩
      rw [RootNamespaceHistory.historyDepth, ← List.length_map Prod.fst, RootNamespaceHistory.levels_map_fst, hroots,
        List.length_cons] at hdepth
      have hroot : h.roots ≠ [] := by simp [RootNamespaceHistory.roots_eq, SharedRoots.roots]
      have hpos := List.length_pos_iff.2 hroot
      omega

theorem Sound.remove_insertRoot (hs : cache.Sound pruned) {ns : RootNamespace Address}
    (hadmissible : cache.Admissible (.insertRoot ns)) (hregisters : cache.Registers pruned (.insertRoot ns)) :
    ∃ cache', (NamespaceCacheDelta.insertRoot ns).run cache = .ok () cache' ∧
      (NamespaceCacheDelta.remove ns.id).run cache' = .ok () cache := by
  obtain ⟨cache', hrun, hreplaces, hnew, hexpiry, hsound⟩ := hs.insertRoot hadmissible
  refine ⟨cache', hrun, ?_⟩
  have hfind : cache'.historyById.find? ns.id = some (cache.historyWith ns) := by
    rw [Coherent.find_history_of_replaces hreplaces, if_pos rfl]
  obtain ⟨hpop, hlifetime, hchildren⟩ := popBack_historyWith cache ns
  rw [remove_eq_removeRoot hsound.coherent hfind]
  rcases removeRoot_spec hsound.coherent hfind with ⟨hdepth, hsize, -⟩ | ⟨cache'', hrun', hback, hexpiry'⟩
  · exact absurd ⟨hdepth, hsize⟩ hchildren
  rw [hrun']
  rw [hpop] at hback
  congr 1
  refine eq_of_replaces_back hs.coherent hnew hreplaces hback ?_
  -- the index had no entry for the root at the height at which it ends
  rw [hexpiry', hlifetime, hexpiry, GroupedSet.remove_add_eq_iff hs.noEmptyGroup]
  intro hmem
  obtain ⟨h, hh, root, hroot, hend⟩ := hs.index _ ns.id hregisters hmem
  have hback := RootNamespaceHistory.endHeight_le_back (hs.coherent.valid _ _ hh).ends hroot
  have hlt := hadmissible.1 h hh
  omega

theorem Sound.remove_insertChild (hs : cache.Sound pruned) {ns : Namespace}
    (hadmissible : cache.Admissible (.insertChild ns)) (hregisters : cache.Registers pruned (.insertChild ns))
    (hok : (NamespaceCacheDelta.insertChild ns).run cache = .ok () cache') :
    (NamespaceCacheDelta.remove ns.id).run cache' = .ok () cache := by
  rcases hs.insertChild hadmissible hregisters with ⟨e, herror⟩ |
    ⟨h, inserted, hfind, hnew, hrun, hreplaces, hexpiry, hsound⟩
  · rw [herror] at hok
    cases hok
  obtain rfl : inserted = cache' := by
    rw [hrun] at hok
    exact (EStateM.Result.ok.inj hok).2
  have hne := ne_rootId_of_canOwn hadmissible hfind
  have hfind' := Coherent.find_history_of_replaces hreplaces ns.rootId
  rw [if_pos rfl] at hfind'
  have hns : inserted.namespaceById.find? ns.id = some ns := by
    exact hsound.coherent.find_child hfind' ((SortedMap.find?_insert ..).trans (if_pos rfl))
  have hremove : (NamespaceCacheDelta.remove ns.id).run inserted = (removeChild ns).run inserted := by
    simp [NamespaceCacheDelta.remove, hns, Ne.symm hne]
  rw [hremove]
  rcases removeChild_spec hsound.coherent hne hfind' with ⟨hcan, -⟩ | ⟨cache'', -, hrun', hback, hexpiry'⟩
  · obtain ⟨parent, hpath, -⟩ := hs.coherent.parent_of_registers hregisters hfind
    have hlength : 2 ≤ ns.path.length := by
      have hpos := List.length_pos_iff.2 parent.path_ne_nil
      rw [hpath, List.length_append, List.length_singleton]
      omega
    have hids := fun id child hchild =>
      ((hs.coherent.valid _ _ hfind).children h.last List.mem_cons_self id child hchild).1
    exact absurd ⟨{ ns := ns }, (SortedMap.find?_insert ..).trans (if_pos rfl), not_hasDescendents_insert
      ((hs.nested _ h hfind).nested h.last List.mem_cons_self) hids hnew hlength⟩ hcan
  rw [hrun']
  congr 1
  have herase : (h.activeChildren.insert ns.id { ns := ns }).erase ns.id = h.activeChildren := by
    apply SortedMap.ext_find?
    intro id
    by_cases hid : id = ns.id
    · rw [hid, hnew]
      simp
    · simp [hid]
  refine eq_of_replaces_back hs.coherent (hs.coherent.canReplace_insertChild hadmissible hfind) hreplaces ?_
    (hexpiry'.trans hexpiry)
  have hhistory : withChildren (withChildren h (h.activeChildren.insert ns.id { ns := ns }))
      ((withChildren h (h.activeChildren.insert ns.id { ns := ns })).activeChildren.erase ns.id) = h := by
    rw [show (withChildren h (h.activeChildren.insert ns.id { ns := ns })).activeChildren.erase ns.id =
      h.activeChildren from herase]
    rfl
  rwa [hhistory, ← hfind] at hback

/-- In every cache that can be reached by the observers, removing what was inserted restores the cache, and nothing
changes when an insertion or a removal throws. -/
theorem remove_insert (hreachable : ReachableAbove pruned cache) :
    (∀ ns, cache.Admissible (.insertRoot ns) → cache.Registers pruned (.insertRoot ns) →
      ∃ cache', (insertRoot ns).run cache = .ok () cache' ∧ (remove ns.id).run cache' = .ok () cache) ∧
    (∀ ns cache', cache.Admissible (.insertChild ns) → cache.Registers pruned (.insertChild ns) →
      (insertChild ns).run cache = .ok () cache' → (remove ns.id).run cache' = .ok () cache) ∧
    (∀ ns e cache', (insertRoot ns).run cache = .error e cache' → cache' = cache) ∧
    (∀ ns e cache', (insertChild ns).run cache = .error e cache' → cache' = cache) ∧
    ∀ id e cache', (remove id).run cache = .error e cache' → cache' = cache := by
  have hs := hreachable.sound
  refine ⟨fun ns => hs.remove_insertRoot, fun ns cache' => hs.remove_insertChild, ?_, ?_, ?_⟩
  · intro ns e cache' herror
    obtain ⟨_, hrun, -⟩ := insertRoot_spec hs.coherent ns
    rw [hrun] at herror
    cases herror
  · intro ns e cache' herror
    rcases insertChild_spec hs.coherent ns with ⟨_, hrun⟩ | ⟨_, _, -, -, hrun, -⟩
    · rw [hrun] at herror
      exact (EStateM.Result.error.inj herror).2.symm
    · rw [hrun] at herror
      cases herror
  · intro id e cache' herror
    rcases remove_spec hs.coherent id with hrun | ⟨h, hfind, hroot⟩ | ⟨child, h, rfl, hne, hfind, hchild⟩
    · rw [hrun] at herror
      exact (EStateM.Result.error.inj herror).2.symm
    · rcases removeRoot_spec hs.coherent hfind with ⟨-, -, hrun⟩ | ⟨_, hrun, -⟩
      · rw [hroot, hrun] at herror
        exact (EStateM.Result.error.inj herror).2.symm
      · rw [hroot, hrun] at herror
        cases herror
    · rcases removeChild_spec hs.coherent hne hfind with ⟨-, _, hrun⟩ | ⟨_, -, hrun, -⟩
      · rw [hchild, hrun] at herror
        exact (EStateM.Result.error.inj herror).2.symm
      · rw [hchild, hrun] at herror
        cases herror

/-- Another owner takes over the root, which hides the child, and this is undone. -/
theorem remove_insert_takeover : ∃ cache',
    (insertRoot ⟨123, 2, ⟨321, 456, by decide⟩, .none⟩).run rootWithChild = .ok () cache' ∧
    (remove 123).run cache' = .ok () rootWithChild := by
  have hreachable : ReachableAbove 0 rootWithChild :=
    .step _ (.step _ .empty onlyRoot_admissible.1 (by simp [Registers])) onlyRoot_admissible.2
      ⟨123, .ofId 123, rfl, rfl⟩
  refine (remove_insert hreachable).1 _ ⟨?_, ?_⟩ (by simp [Registers])
  · intro h hfind
    cases hfind
    decide
  · intro rootId h hfind
    change (onlyRoot.historyById.insert 123 _).find? rootId = some h at hfind
    rw [SortedMap.find?_insert] at hfind
    split at hfind
    · cases hfind
      rintro ⟨level, hlevel, hmem⟩
      rw [List.mem_singleton.1 hlevel] at hmem
      revert hmem
      decide
    · exact absurd (find_onlyRoot hfind) ‹_›

end NamespaceCacheDelta
end Catapult.Namespaces
