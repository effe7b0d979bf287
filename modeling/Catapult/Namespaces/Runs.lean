import Catapult.Namespaces.OperationSpecs

/-!
# Runs of the namespace cache

`Reachable` are the caches after any operations, under what the validators guarantee (`Admissible`): roots of one
history end one after the other, and the id of a child is used for one root only. An operation that throws leaves
the cache with which the run goes on.
-/

namespace Catapult.Namespaces
open Cache SharedRoots

variable {Address : Type} [DecidableEq Address] {h h' : RootNamespaceHistory Address} {id rootId : NamespaceId}

/-! ## Histories that may replace a history -/

namespace RootNamespaceHistory

def ChildrenFrom (h' h : RootNamespaceHistory Address) : Prop :=
  ∀ s ∈ h'.groups, ∀ id child, s.children.find? id = some child →
    ∃ t ∈ h.groups, ∃ child', t.children.find? id = some child' ∧ child'.ns = child.ns

omit [DecidableEq Address] in
theorem ChildrenFrom.of_groups (hgroups : ∀ s ∈ h'.groups, ∃ t ∈ h.groups, s.children = t.children) :
    h'.ChildrenFrom h := by
  intro s hs id child hchild
  obtain ⟨t, ht, heq⟩ := hgroups s hs
  exact ⟨t, ht, child, heq ▸ hchild, rfl⟩

theorem childrenFrom_pushBack (h : RootNamespaceHistory Address) (owner : Address) (lifetime : NamespaceLifetime) :
    (h.pushBack owner lifetime).ChildrenFrom h := by
  cases hcan : (⟨h.id, owner, lifetime, .none⟩ : RootNamespace Address).canExtend h.back with
  | true =>
    rw [pushBack_of_canExtend hcan]
    refine .of_groups fun s hs => ?_
    rcases List.mem_cons.1 hs with rfl | hs
    · exact ⟨h.last, List.mem_cons_self, rfl⟩
    · exact ⟨s, List.mem_cons_of_mem _ hs, rfl⟩
  | false =>
    rw [pushBack_of_not_canExtend hcan]
    intro s hs id child hchild
    rcases List.mem_cons.1 hs with rfl | hs
    · simp at hchild
    · exact ⟨s, hs, child, hchild, rfl⟩

theorem id_pushBack (h : RootNamespaceHistory Address) (owner : Address) (lifetime : NamespaceLifetime) :
    (h.pushBack owner lifetime).id = h.id := by
  cases hcan : (⟨h.id, owner, lifetime, .none⟩ : RootNamespace Address).canExtend h.back with
  | true => rw [pushBack_of_canExtend hcan]
  | false => rw [pushBack_of_not_canExtend hcan]

omit [DecidableEq Address] in
theorem childrenFrom_popBack (hpop : PopBack h (some h')) : h'.ChildrenFrom h ∧ h'.id = h.id := by
  refine ⟨.of_groups fun s hs => ?_, ?_⟩
  · cases hpop with
    | unshared => exact ⟨s, List.mem_cons_of_mem _ hs, rfl⟩
    | shared id back root roots children rest =>
      rcases List.mem_cons.1 hs with rfl | hs
      · exact ⟨_, List.mem_cons_self, rfl⟩
      · exact ⟨s, List.mem_cons_of_mem _ hs, rfl⟩
  · cases hpop <;> rfl

omit [DecidableEq Address] in
theorem childrenFrom_withLast {last : SharedRoots Address} (hsame : NamespaceCacheDelta.SameButAliases h.last last) :
    (NamespaceCacheDelta.withLast h last).ChildrenFrom h := by
  intro s hs id child hchild
  rcases List.mem_cons.1 hs with heq | hs
  · rw [heq] at hchild
    have hfind := congrArg (fun m => m.find? id) hsame.children
    simp only [SortedMap.find?_mapVal] at hfind
    rw [show last.children.find? id = some child from hchild] at hfind
    obtain ⟨child', hchild', hns⟩ := Option.map_eq_some_iff.1 hfind.symm
    exact ⟨h.last, List.mem_cons_self, child', hchild', hns⟩
  · exact ⟨s, List.mem_cons_of_mem _ hs, child, hchild, rfl⟩

theorem canExtend_congr {root root' other : RootNamespace Address} (hid : root'.id = root.id)
    (howner : root'.ownerAddress = root.ownerAddress) (hlifetime : root'.lifetime = root.lifetime) :
    root'.canExtend other = root.canExtend other := by
  simp only [RootNamespace.canExtend, hid, howner, hlifetime]

theorem linked_withLast {last : SharedRoots Address} (hsame : NamespaceCacheDelta.SameButAliases h.last last)
    (hlinked : Linked h.groups) : Linked (NamespaceCacheDelta.withLast h last).groups := by
  have hcan : ∀ other, last.back.canExtend other = h.last.back.canExtend other :=
    fun other => canExtend_congr hsame.id hsame.owner hsame.lifetime
  obtain ⟨hchain, hnext, hrest⟩ := hlinked
  refine ⟨?_, ?_, hrest⟩
  · rw [Chained, SharedRoots.roots] at hchain ⊢
    change List.IsChain _ (last.back :: last.previous)
    rw [hsame.previous]
    cases hprevious : h.last.previous with
    | nil => exact List.isChain_singleton _
    | cons root roots =>
      rw [hprevious, List.isChain_cons_cons] at hchain
      exact List.isChain_cons_cons.2 ⟨(hcan root).trans hchain.1, hchain.2⟩
  · intro t ht
    have hnot := hnext t ht
    change last.oldest.canExtend t.back = false
    cases hprevious : h.last.previous with
    | nil =>
      simp only [oldest, SharedRoots.roots, hsame.previous, hprevious, List.getLast_singleton] at hnot ⊢
      exact (hcan t.back).trans hnot
    | cons root roots =>
      simp only [oldest, SharedRoots.roots, hsame.previous, hprevious, List.getLast_cons_cons] at hnot ⊢
      exact hnot

omit [DecidableEq Address] in
theorem endsIncrease_withLast {last : SharedRoots Address} (hsame : NamespaceCacheDelta.SameButAliases h.last last)
    (hends : EndsIncrease h.roots) : EndsIncrease (NamespaceCacheDelta.withLast h last).roots := by
  obtain ⟨hback, hrest⟩ := List.pairwise_cons.1 hends
  change EndsIncrease (last.back :: (last.previous ++ _))
  rw [hsame.previous]
  refine List.pairwise_cons.2 ⟨fun root hmem => ?_, hrest⟩
  rw [hsame.lifetime]
  exact hback root hmem

end RootNamespaceHistory

namespace NamespaceCacheDelta
variable {cache cache' : NamespaceCacheDelta Address}

theorem Coherent.canReplace_none (rootId : NamespaceId) : Coherent.CanReplace cache rootId none :=
  ⟨by simp, by simp, by simp, by simp⟩

theorem Coherent.canReplace (hc : cache.Coherent) (hfind : cache.historyById.find? rootId = some h)
    (hid : h'.id = h.id) (hlinked : Linked h'.groups) (hends : EndsIncrease h'.roots) (hfrom : h'.ChildrenFrom h) :
    Coherent.CanReplace cache rootId (some h') := by
  have hvalid := hc.valid _ _ hfind
  refine ⟨?_, ?_, ?_, fun _ otherId other hother => hc.not_hasChild_root hfind hother⟩
  · rintro _ ⟨rfl⟩
    exact hid.trans (hc.id_eq _ _ hfind)
  · rintro _ ⟨rfl⟩
    refine ⟨hlinked, hends, fun s hs id child hchild => ?_⟩
    obtain ⟨t, ht, child', hchild', hns⟩ := hfrom s hs id child hchild
    rw [← hns, hid]
    exact hvalid.children t ht id child' hchild'
  · rintro _ ⟨rfl⟩ id hhas
    obtain ⟨s, hs, hmem⟩ := RootNamespaceHistory.hasChild_iff.1 hhas
    obtain ⟨child, hchild⟩ := SortedMap.mem_keys_iff.1 hmem
    obtain ⟨t, ht, child', hchild', -⟩ := hfrom s hs id child hchild
    have hold : h.HasChild id := RootNamespaceHistory.hasChild_iff.2 ⟨t, ht, SortedMap.mem_keys_iff.2 ⟨child', hchild'⟩⟩
    have hown := hc.canOwn rootId h id hfind hold
    refine ⟨?_, hown⟩
    rintro rfl
    rw [hown.1] at hfind
    cases hfind

/-! ## Steps -/

inductive Operation (Address : Type) where
  | insertRoot (ns : RootNamespace Address)
  | insertChild (ns : Namespace)
  | setAlias (id : NamespaceId) (namespaceAlias : NamespaceAlias Address)
  | remove (id : NamespaceId)
  | prune (height : Nat) (ids : List NamespaceId)
  | copy (id : NamespaceId)

def stateOf {ε σ α : Type} : EStateM.Result ε σ α → σ
  | .ok _ s => s
  | .error _ s => s

def Operation.apply (cache : NamespaceCacheDelta Address) : Operation Address → NamespaceCacheDelta Address
  | insertRoot ns => stateOf ((NamespaceCacheDelta.insertRoot ns).run cache)
  | insertChild ns => stateOf ((NamespaceCacheDelta.insertChild ns).run cache)
  | setAlias id namespaceAlias => stateOf ((NamespaceCacheDelta.setAlias id namespaceAlias).run cache)
  | remove id => stateOf ((NamespaceCacheDelta.remove id).run cache)
  | prune height ids => (cache.prune height ids).2
  | copy id => cache.copyHistory id

def Admissible (cache : NamespaceCacheDelta Address) : Operation Address → Prop
  | .insertRoot ns =>
    (∀ h, cache.historyById.find? ns.id = some h → h.back.lifetime.endHeight < ns.lifetime.endHeight) ∧
    ∀ rootId h, cache.historyById.find? rootId = some h → ¬h.HasChild ns.id
  | .insertChild ns => cache.CanOwn ns.rootId ns.id
  | .setAlias _ _ => True
  | .remove _ => True
  | .prune height ids => ids.Nodup ∧ ∀ id, id ∈ ids ↔ id ∈ cache.rootNamespaceIdsByExpiryHeight.identifiers height
  | .copy _ => True

inductive Reachable : NamespaceCacheDelta Address → Prop
  | empty : Reachable empty
  | step {cache : NamespaceCacheDelta Address} (operation : Operation Address) (h : Reachable cache)
    (hadmissible : cache.Admissible operation) : Reachable (operation.apply cache)

theorem Coherent.canReplace_insertRoot (hc : cache.Coherent) {ns : RootNamespace Address}
    (hadmissible : cache.Admissible (.insertRoot ns)) :
    Coherent.CanReplace cache ns.id (some (cache.historyWith ns)) := by
  obtain ⟨hends, hroot⟩ := hadmissible
  cases hfind : cache.historyById.find? ns.id with
  | none =>
    rw [historyWith, hfind]
    refine ⟨?_, ?_, ?_, fun _ => hroot⟩
    · rintro _ ⟨rfl⟩
      rfl
    · rintro _ ⟨rfl⟩
      refine ⟨⟨List.isChain_singleton _, by simp [RootNamespaceHistory.ofRoot], trivial⟩, List.pairwise_singleton _ _,
        ?_⟩
      simp [RootNamespaceHistory.ofRoot, RootNamespaceHistory.groups]
    · rintro _ ⟨rfl⟩ id hhas
      obtain ⟨s, hs, hmem⟩ := RootNamespaceHistory.hasChild_iff.1 hhas
      simp only [RootNamespaceHistory.ofRoot, RootNamespaceHistory.groups, List.mem_singleton] at hs
      subst hs
      cases hmem
  | some h =>
    have hvalid := hc.valid _ _ hfind
    rw [historyWith, hfind]
    exact hc.canReplace hfind (h.id_pushBack ..) (RootNamespaceHistory.linked_pushBack hvalid.linked)
      (RootNamespaceHistory.endsIncrease_pushBack hvalid.ends (hends h hfind)) (h.childrenFrom_pushBack _ _)

theorem Coherent.insertRoot (hc : cache.Coherent) {ns : RootNamespace Address}
    (hadmissible : cache.Admissible (.insertRoot ns)) : (Operation.apply cache (.insertRoot ns)).Coherent := by
  obtain ⟨cache', hrun, hreplaces, -⟩ := insertRoot_spec hc ns
  simp only [Operation.apply, hrun, stateOf]
  exact hc.replace hreplaces (hc.canReplace_insertRoot hadmissible)

omit [DecidableEq Address] in
theorem ne_rootId_of_canOwn {ns : Namespace} (hown : cache.CanOwn ns.rootId ns.id)
    (hfind : cache.historyById.find? ns.rootId = some h) : ns.id ≠ ns.rootId := by
  intro heq
  rw [← heq, hown.1] at hfind
  cases hfind

theorem Coherent.canReplace_insertChild (hc : cache.Coherent) {ns : Namespace} (hown : cache.CanOwn ns.rootId ns.id)
    (hfind : cache.historyById.find? ns.rootId = some h) :
    Coherent.CanReplace cache ns.rootId (some (withChildren h (h.activeChildren.insert ns.id { ns := ns }))) := by
  have hvalid := hc.valid _ _ hfind
  have hid := hc.id_eq _ _ hfind
  refine ⟨?_, ?_, ?_, fun _ otherId other hother => hc.not_hasChild_root hfind hother⟩
  · rintro _ ⟨rfl⟩
    exact hid
  · rintro _ ⟨rfl⟩
    refine ⟨hvalid.linked, hvalid.ends, fun s hs id child hchild => ?_⟩
    rcases List.mem_cons.1 hs with rfl | hs
    · change (h.activeChildren.insert ns.id { ns := ns }).find? id = some child at hchild
      rw [SortedMap.find?_insert] at hchild
      split at hchild
      · cases hchild
        exact ⟨Eq.symm ‹_›, hid.symm⟩
      · exact hvalid.children h.last List.mem_cons_self id child hchild
    · exact hvalid.children s (List.mem_cons_of_mem _ hs) id child hchild
  · rintro _ ⟨rfl⟩ id hhas
    obtain ⟨s, hs, hmem⟩ := RootNamespaceHistory.hasChild_iff.1 hhas
    have hcases : id = ns.id ∨ h.HasChild id := by
      rcases List.mem_cons.1 hs with rfl | hs
      · obtain ⟨child, hchild⟩ := SortedMap.mem_keys_iff.1 hmem
        change (h.activeChildren.insert ns.id { ns := ns }).find? id = some child at hchild
        rw [SortedMap.find?_insert] at hchild
        split at hchild
        · exact .inl ‹_›
        · exact .inr (RootNamespaceHistory.hasChild_of_find hchild)
      · exact .inr (RootNamespaceHistory.hasChild_iff.2 ⟨s, List.mem_cons_of_mem _ hs, hmem⟩)
    rcases hcases with rfl | hhas
    · exact ⟨ne_rootId_of_canOwn hown hfind, hown⟩
    · refine ⟨?_, hc.canOwn _ h id hfind hhas⟩
      rintro rfl
      exact hc.not_hasChild_root hfind hfind hhas

theorem Coherent.insertChild (hc : cache.Coherent) {ns : Namespace}
    (hadmissible : cache.Admissible (.insertChild ns)) : (Operation.apply cache (.insertChild ns)).Coherent := by
  rcases insertChild_spec hc ns with ⟨e, herror⟩ | ⟨h, cache', hfind, -, hrun, hreplaces, -⟩
  · simp only [Operation.apply, herror, stateOf]
    exact hc
  · simp only [Operation.apply, hrun, stateOf]
    exact hc.replace (hreplaces (ne_rootId_of_canOwn hadmissible hfind)) (hc.canReplace_insertChild hadmissible hfind)

theorem Coherent.canReplace_setAlias (hc : cache.Coherent) (hfind : cache.historyById.find? rootId = some h)
    {last : SharedRoots Address} (hsame : SameButAliases h.last last) :
    Coherent.CanReplace cache rootId (some (withLast h last)) := by
  have hvalid := hc.valid _ _ hfind
  exact hc.canReplace hfind rfl (RootNamespaceHistory.linked_withLast hsame hvalid.linked)
    (RootNamespaceHistory.endsIncrease_withLast hsame hvalid.ends) (RootNamespaceHistory.childrenFrom_withLast hsame)

theorem Coherent.setAlias (hc : cache.Coherent) (id : NamespaceId) (namespaceAlias : NamespaceAlias Address) :
    (Operation.apply cache (.setAlias id namespaceAlias)).Coherent := by
  rcases setAlias_spec hc id namespaceAlias with ⟨e, herror⟩ |
    ⟨rootId, h, last, cache', hfind, hsame, hrun, hreplaces, -⟩
  · simp only [Operation.apply, herror, stateOf]
    exact hc
  · simp only [Operation.apply, hrun, stateOf]
    exact hc.replace hreplaces (hc.canReplace_setAlias hfind hsame)

theorem Coherent.canReplace_popBack (hc : cache.Coherent) (hfind : cache.historyById.find? rootId = some h) :
    Coherent.CanReplace cache rootId h.popBack := by
  have hvalid := hc.valid _ _ hfind
  have hcases := RootNamespaceHistory.popBack_cases h
  cases hpop : h.popBack with
  | none => exact Coherent.canReplace_none rootId
  | some h' =>
    rw [hpop] at hcases
    obtain ⟨hfrom, hid⟩ := RootNamespaceHistory.childrenFrom_popBack hcases
    have hends := hvalid.ends
    rw [RootNamespaceHistory.roots_popBack hcases] at hends
    exact hc.canReplace hfind hid (RootNamespaceHistory.linked_popBack hcases hvalid.linked)
      (List.pairwise_cons.1 hends).2 hfrom

theorem Coherent.canReplace_removeChild (hc : cache.Coherent) (hfind : cache.historyById.find? rootId = some h) :
    Coherent.CanReplace cache rootId (some (withChildren h (h.activeChildren.erase id))) := by
  have hvalid := hc.valid _ _ hfind
  refine hc.canReplace hfind rfl hvalid.linked hvalid.ends fun s hs k child hchild => ?_
  rcases List.mem_cons.1 hs with rfl | hs
  · change (h.activeChildren.erase id).find? k = some child at hchild
    rw [SortedMap.find?_erase] at hchild
    split at hchild
    · cases hchild
    · exact ⟨h.last, List.mem_cons_self, child, hchild, rfl⟩
  · exact ⟨s, List.mem_cons_of_mem _ hs, child, hchild, rfl⟩

theorem Coherent.remove (hc : cache.Coherent) (id : NamespaceId) :
    (Operation.apply cache (.remove id)).Coherent := by
  rcases remove_spec hc id with herror | ⟨h, hfind, hroot⟩ | ⟨child, h, rfl, hne, hfind, hchild⟩
  · simp only [Operation.apply, herror, stateOf]
    exact hc
  · rcases removeRoot_spec hc hfind with ⟨-, -, herror⟩ | ⟨cache', hrun, hreplaces, -⟩
    · simp only [Operation.apply, hroot, herror, stateOf]
      exact hc
    · simp only [Operation.apply, hroot, hrun, stateOf]
      exact hc.replace hreplaces (hc.canReplace_popBack hfind)
  · rcases removeChild_spec hc hne hfind with ⟨-, e, herror⟩ | ⟨cache', -, hrun, hreplaces, -⟩
    · simp only [Operation.apply, hchild, herror, stateOf]
      exact hc
    · simp only [Operation.apply, hchild, hrun, stateOf]
      exact hc.replace hreplaces (hc.canReplace_removeChild hfind)

theorem Coherent.canReplace_prune (hc : cache.Coherent) (hfind : cache.historyById.find? rootId = some h)
    (height : Nat) : Coherent.CanReplace cache rootId (h.prune height) := by
  have hvalid := hc.valid _ _ hfind
  by_cases hended : h.back.lifetime.endHeight ≤ height
  · rw [(RootNamespaceHistory.prune_of_ended hvalid.ends hended).1]
    exact Coherent.canReplace_none rootId
  · obtain ⟨h', hsome, hkept, hgroups, -⟩ := RootNamespaceHistory.prune_of_not_ended (h := h) (Nat.lt_of_not_le hended)
    rw [hsome]
    refine hc.canReplace hfind hkept.id_eq ?_ (hkept.roots_eq ▸ hvalid.ends.filter _) (.of_groups hkept.children_mem)
    rw [hgroups]
    exact (RootNamespaceHistory.linked_prune_groups hvalid.linked hvalid.ends).1

theorem Coherent.pruneHistory (hc : cache.Coherent) (height : Nat) (id : NamespaceId) :
    (cache.pruneHistory height id).Coherent := by
  cases hfind : cache.historyById.find? id with
  | none => rwa [pruneHistory_of_none hfind]
  | some h => exact hc.replace (pruneHistory_spec hc hfind height) (hc.canReplace_prune hfind height)

omit [DecidableEq Address] in
theorem prune_snd (height : Nat) (ids : List NamespaceId) (cache : NamespaceCacheDelta Address) :
    (cache.prune height ids).2 = ids.foldl (fun cache id => cache.pruneHistory height id) cache := by
  rw [NamespaceCacheDelta.prune]
  generalize (∅ : NamespaceIds) = collectedIds
  induction ids generalizing cache collectedIds with
  | nil => rfl
  | cons id ids ih => exact ih _ _

theorem Coherent.prune (hc : cache.Coherent) (height : Nat) (ids : List NamespaceId) :
    (Operation.apply cache (.prune height ids)).Coherent := by
  rw [Operation.apply, prune_snd]
  induction ids generalizing cache with
  | nil => exact hc
  | cons id ids ih => exact ih (hc.pruneHistory height id)

theorem Reachable.coherent (h : Reachable cache) : cache.Coherent := by
  induction h with
  | empty => exact coherent_empty
  | step operation _ hadmissible ih =>
    cases operation with
    | insertRoot ns => exact ih.insertRoot hadmissible
    | insertChild ns => exact ih.insertChild hadmissible
    | setAlias id namespaceAlias => exact ih.setAlias id namespaceAlias
    | remove id => exact ih.remove id
    | prune height ids => exact ih.prune height ids
    | copy id =>
      rw [Operation.apply, copyHistory_eq ih]
      exact ih

/-- In every cache that can be reached the flat map has exactly the roots with a history and the children of their most
recent roots, and the counters are the sizes. -/
theorem stores_agree (hreachable : Reachable cache) :
    (∀ id ns, cache.namespaceById.find? id = some ns ↔
      (ns = .ofId id ∧ ∃ h, cache.historyById.find? id = some h) ∨
      ∃ rootId h child, cache.historyById.find? rootId = some h ∧ h.activeChildren.find? id = some child ∧
        child.ns = ns) ∧
    cache.activeSize = cache.namespaceById.size ∧
    cache.deepSize = cache.historyById.total fun _ h => h.historyDepth + h.numAllHistoricalChildren := by
  have hc := hreachable.coherent
  refine ⟨fun id ns => ?_, hc.active, hc.deep⟩
  constructor
  · intro hns
    obtain ⟨rootId, h, hfind, hnamespaces⟩ := (hc.namespaces _ _).1 hns
    rw [RootNamespaceHistory.find?_namespaces, hc.id_eq _ _ hfind] at hnamespaces
    split at hnamespaces
    · rename_i heq
      subst heq
      exact .inl ⟨(Option.some.inj hnamespaces).symm, h, hfind⟩
    · obtain ⟨child, hchild, hns⟩ := Option.map_eq_some_iff.1 hnamespaces
      exact .inr ⟨rootId, h, child, hfind, hchild, hns⟩
  · rintro (⟨rfl, h, hfind⟩ | ⟨rootId, h, child, hfind, hchild, rfl⟩)
    · exact hc.find_root hfind
    · exact hc.find_child hfind hchild

def onlyRoot : NamespaceCacheDelta Nat :=
  Operation.apply empty (.insertRoot ⟨123, 1, ⟨234, 321, by decide⟩, .none⟩)

def rootWithChild : NamespaceCacheDelta Nat := Operation.apply onlyRoot (.insertChild ⟨[123, 127], by decide⟩)

theorem find_onlyRoot {h : RootNamespaceHistory Nat} (hfind : onlyRoot.historyById.find? rootId = some h) :
    rootId = 123 := by
  change ((∅ : SortedMap NamespaceId (RootNamespaceHistory Nat)).insert 123 _).find? rootId = some h at hfind
  rw [SortedMap.find?_insert] at hfind
  split at hfind
  · assumption
  · cases hfind

theorem onlyRoot_admissible :
    (empty : NamespaceCacheDelta Nat).Admissible (.insertRoot ⟨123, 1, ⟨234, 321, by decide⟩, .none⟩) ∧
    onlyRoot.Admissible (.insertChild ⟨[123, 127], by decide⟩) := by
  refine ⟨⟨fun h hfind => ?_, fun rootId h hfind => ?_⟩, rfl, fun otherId h hfind _ =>
    find_onlyRoot hfind⟩ <;> cases hfind

theorem stores_agree_rootWithChild :
    rootWithChild.activeSize = 2 ∧ rootWithChild.activeSize = rootWithChild.namespaceById.size ∧
    rootWithChild.deepSize =
      rootWithChild.historyById.total fun _ h => h.historyDepth + h.numAllHistoricalChildren := by
  have hreachable : Reachable rootWithChild := .step _ (.step _ .empty onlyRoot_admissible.1) onlyRoot_admissible.2
  exact ⟨rfl, (stores_agree hreachable).2.1, (stores_agree hreachable).2.2⟩

/-! ## What holds for all histories -/

section Histories
variable {P : NamespaceId → RootNamespaceHistory Address → Prop}

omit [DecidableEq Address] in
theorem forall_history_replace (hall : ∀ id h, cache.historyById.find? id = some h → P id h)
    (hr : Replaces cache cache' rootId o) (hnew : ∀ h ∈ o, P rootId h) :
    ∀ id h, cache'.historyById.find? id = some h → P id h := by
  intro id h hfind
  rw [Coherent.find_history_of_replaces hr] at hfind
  split at hfind
  · rename_i heq
    rw [heq]
    exact hnew h hfind
  · exact hall id h hfind

theorem forall_history_insertRoot (hall : ∀ id h, cache.historyById.find? id = some h → P id h) (hc : cache.Coherent)
    (ns : RootNamespace Address) (hnew : P ns.id (.ofRoot ns.id ns.ownerAddress ns.lifetime))
    (hpush : ∀ h, P ns.id h → P ns.id (h.pushBack ns.ownerAddress ns.lifetime)) :
    ∀ id h, (Operation.apply cache (.insertRoot ns)).historyById.find? id = some h → P id h := by
  obtain ⟨cache', hrun, hreplaces, -⟩ := insertRoot_spec hc ns
  simp only [Operation.apply, hrun, stateOf]
  refine forall_history_replace hall hreplaces ?_
  rintro _ ⟨rfl⟩
  cases hfind : cache.historyById.find? ns.id with
  | none =>
    rw [historyWith, hfind]
    exact hnew
  | some h =>
    rw [historyWith, hfind]
    exact hpush h (hall _ _ hfind)

theorem forall_history_insertChild (hall : ∀ id h, cache.historyById.find? id = some h → P id h) (hc : cache.Coherent)
    {ns : Namespace} (hadmissible : cache.Admissible (.insertChild ns)) (hinsert : ∀ h, P ns.rootId h →
      P ns.rootId (withChildren h (h.activeChildren.insert ns.id { ns := ns }))) :
    ∀ id h, (Operation.apply cache (.insertChild ns)).historyById.find? id = some h → P id h := by
  rcases insertChild_spec hc ns with ⟨e, herror⟩ | ⟨h, cache', hfind, -, hrun, hreplaces, -⟩
  · simp only [Operation.apply, herror, stateOf]
    exact hall
  · simp only [Operation.apply, hrun, stateOf]
    refine forall_history_replace hall (hreplaces (ne_rootId_of_canOwn hadmissible hfind)) ?_
    rintro _ ⟨rfl⟩
    exact hinsert h (hall _ _ hfind)

theorem forall_history_setAlias (hall : ∀ id h, cache.historyById.find? id = some h → P id h) (hc : cache.Coherent)
    (id : NamespaceId) (namespaceAlias : NamespaceAlias Address)
    (hset : ∀ id h last, SameButAliases h.last last → P id h → P id (withLast h last)) :
    ∀ k h, (Operation.apply cache (.setAlias id namespaceAlias)).historyById.find? k = some h → P k h := by
  rcases setAlias_spec hc id namespaceAlias with
    ⟨e, herror⟩ | ⟨rootId, h, last, cache', hfind, hsame, hrun, hreplaces, -⟩
  · simp only [Operation.apply, herror, stateOf]
    exact hall
  · simp only [Operation.apply, hrun, stateOf]
    refine forall_history_replace hall hreplaces ?_
    rintro _ ⟨rfl⟩
    exact hset rootId h last hsame (hall _ _ hfind)

theorem forall_history_prune (hall : ∀ id h, cache.historyById.find? id = some h → P id h) (hc : cache.Coherent)
    (height : Nat) (ids : List NamespaceId)
    (hprune : ∀ id h h', EndsIncrease h.roots → h.prune height = some h' → P id h → P id h') :
    ∀ id h, (Operation.apply cache (.prune height ids)).historyById.find? id = some h → P id h := by
  rw [Operation.apply, prune_snd]
  induction ids generalizing cache with
  | nil => exact hall
  | cons id ids ih =>
    refine ih ?_ (hc.pruneHistory height id)
    change ∀ k h, (cache.pruneHistory height id).historyById.find? k = some h → P k h
    cases hfind : cache.historyById.find? id with
    | none => rwa [pruneHistory_of_none hfind]
    | some h =>
      refine forall_history_replace hall (pruneHistory_spec hc hfind height) fun h' hsome => ?_
      exact hprune id h h' (hc.valid _ _ hfind).ends hsome (hall _ _ hfind)

end Histories

end NamespaceCacheDelta
end Catapult.Namespaces
