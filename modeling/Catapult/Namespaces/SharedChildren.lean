import Catapult.Namespaces.RootNamespaceHistory
import Mathlib.Data.List.Chain

/-!
# Which roots share their children

Children are shared by the roots that can extend one another, and only by them (`Linked`). This is why
`activeOwnerHistoryDepth` is the number of roots that get a child that is added, and why a copy of a history is
the same history. `prune` keeps it as long as later roots end later (`Increasing`): then it drops the oldest roots.
-/

namespace Catapult.Namespaces

variable {Address : Type} [DecidableEq Address] {h h' : RootNamespaceHistory Address} {s t : SharedRoots Address}
  {groups rest : List (SharedRoots Address)} {next root : RootNamespace Address} {height : Nat}

theorem RootNamespace.canExtend_self (root : RootNamespace Address) : root.canExtend root = true := by
  simp [canExtend, NamespaceLifetime.isActive, root.lifetime.start_lt_end]

namespace SharedRoots

def oldest (s : SharedRoots Address) : RootNamespace Address := s.roots.getLast (by simp [roots])

def Chained (s : SharedRoots Address) : Prop := s.roots.IsChain fun next root => next.canExtend root = true

def Linked : List (SharedRoots Address) → Prop
  | [] => True
  | s :: rest => s.Chained ∧ (∀ t ∈ rest.head?, s.oldest.canExtend t.back = false) ∧ Linked rest

omit [DecidableEq Address] in
@[simp] theorem levels_eq : s.levels = s.roots.map fun root => (root, s.children) := rfl

omit [DecidableEq Address] in
@[simp] theorem roots_mk (back : RootNamespace Address) (previous : List (RootNamespace Address))
    (children : Children Address) : (⟨back, previous, children⟩ : SharedRoots Address).roots = back :: previous := rfl

end SharedRoots

open SharedRoots

def EndsIncrease (roots : List (RootNamespace Address)) : Prop :=
  roots.Pairwise fun next root => root.lifetime.endHeight < next.lifetime.endHeight

namespace RootNamespaceHistory

section
omit [DecidableEq Address]

theorem roots_eq : h.roots = h.last.roots ++ h.previous.flatMap SharedRoots.roots := rfl

theorem levels_map_fst : h.levels.map Prod.fst = h.roots := by
  simp [levels, roots, List.map_flatMap, SharedRoots.levels, Function.comp_def]

theorem historyDepth_eq : h.historyDepth = (h.groups.map fun s => s.roots.length).sum := by
  simp [historyDepth, levels, List.length_flatMap]

theorem numAllHistoricalChildren_eq :
    h.numAllHistoricalChildren = (h.groups.map fun s => s.roots.length * s.children.size).sum := by
  simp [numAllHistoricalChildren, levels, List.flatMap_def, List.sum_flatten, Function.comp_def]

end

theorem countExtended_append {l l' : List (RootNamespace Address)}
    (hchain : (next :: l).IsChain fun next root => next.canExtend root = true) :
    countExtended next (l ++ l') = l.length + countExtended ((next :: l).getLast (by simp)) l' := by
  induction l generalizing next with
  | nil => simp
  | cons root l ih =>
    rw [List.isChain_cons_cons] at hchain
    rw [List.cons_append, countExtended, if_pos hchain.1, ih hchain.2, List.length_cons,
      List.getLast_cons (List.cons_ne_nil root l)]
    omega

theorem activeOwnerHistoryDepth_eq (hlinked : Linked h.groups) : h.activeOwnerHistoryDepth = h.last.roots.length := by
  obtain ⟨hchain, hnext, -⟩ := hlinked
  have hself : (h.back :: h.last.roots).IsChain fun next root => next.canExtend root = true :=
    List.isChain_cons_cons.2 ⟨h.back.canExtend_self, hchain⟩
  rw [activeOwnerHistoryDepth, roots_eq, countExtended_append hself, List.getLast_cons (by simp [SharedRoots.roots])]
  change _ + countExtended h.last.oldest _ = _
  cases hprevious : h.previous with
  | nil => simp [countExtended]
  | cons t rest =>
    have hnot := hnext t (by simp [hprevious])
    simp [SharedRoots.roots, countExtended, hnot]

theorem foldr_copyRoot_shared {l : List (RootNamespace Address)} {children : Children Address}
    (hchain : (next :: l).IsChain fun next root => next.canExtend root = true)
    (hnot : ∀ t ∈ rest.head?, ((next :: l).getLast (by simp)).canExtend t.back = false) :
    ((next :: l).map fun root => (root, children)).foldr copyRoot rest = ⟨next, l, children⟩ :: rest := by
  induction l generalizing next with
  | nil =>
    cases rest with
    | nil => rfl
    | cons t rest =>
      have hcan := hnot t (by simp)
      simp only [List.getLast_singleton] at hcan
      simp [copyRoot, hcan]
  | cons root l ih =>
    rw [List.isChain_cons_cons] at hchain
    rw [List.map_cons, List.foldr_cons, ih hchain.2 (by simpa using hnot), copyRoot, if_pos hchain.1]
    rfl

theorem foldr_copyRoot_groups (hlinked : Linked groups) :
    (groups.flatMap SharedRoots.levels).foldr copyRoot [] = groups := by
  induction groups with
  | nil => rfl
  | cons s rest ih =>
    obtain ⟨hchain, hnext, hrest⟩ := hlinked
    rw [List.flatMap_cons, List.foldr_append, ih hrest]
    exact foldr_copyRoot_shared hchain hnext

theorem copy_eq (hlinked : Linked h.groups) : h.copy = some h := by
  rw [copy, levels, foldr_copyRoot_groups hlinked]
  rfl

section PushBack
variable {owner : Address} {lifetime : NamespaceLifetime}

theorem pushBack_of_canExtend
    (hcan : (⟨h.id, owner, lifetime, .none⟩ : RootNamespace Address).canExtend h.back = true) :
    h.pushBack owner lifetime = { h with last := { h.last with
      back := ⟨h.back.id, h.back.ownerAddress, lifetime, h.back.namespaceAlias⟩, previous := h.last.roots } } := by
  simp [pushBack, hcan]

theorem pushBack_of_not_canExtend
    (hcan : (⟨h.id, owner, lifetime, .none⟩ : RootNamespace Address).canExtend h.back = false) :
    h.pushBack owner lifetime = ⟨h.id, ⟨⟨h.id, owner, lifetime, .none⟩, [], ∅⟩, h.groups⟩ := by
  simp [pushBack, hcan]

theorem canExtend_renew (hcan : (⟨h.id, owner, lifetime, .none⟩ : RootNamespace Address).canExtend h.back = true) :
    (⟨h.back.id, h.back.ownerAddress, lifetime, h.back.namespaceAlias⟩ : RootNamespace Address).canExtend h.back =
      true := by
  simp only [RootNamespace.canExtend, Bool.and_eq_true, decide_eq_true_eq] at hcan ⊢
  exact ⟨⟨trivial, trivial⟩, hcan.2⟩

theorem linked_pushBack (hlinked : Linked h.groups) : Linked (h.pushBack owner lifetime).groups := by
  cases hcan : (⟨h.id, owner, lifetime, .none⟩ : RootNamespace Address).canExtend h.back with
  | true =>
    rw [pushBack_of_canExtend hcan]
    obtain ⟨hchain, hnext, hrest⟩ := hlinked
    refine ⟨List.isChain_cons_cons.2 ⟨canExtend_renew hcan, hchain⟩, ?_, hrest⟩
    simpa [oldest, SharedRoots.roots] using hnext
  | false =>
    rw [pushBack_of_not_canExtend hcan]
    refine ⟨List.isChain_singleton _, ?_, hlinked⟩
    rintro t ⟨rfl⟩
    exact hcan

theorem exists_roots_pushBack (h : RootNamespaceHistory Address) (owner : Address) (lifetime : NamespaceLifetime) :
    ∃ root : RootNamespace Address, root.lifetime = lifetime ∧
    (h.pushBack owner lifetime).roots = root :: h.roots := by
  cases hcan : (⟨h.id, owner, lifetime, .none⟩ : RootNamespace Address).canExtend h.back with
  | true =>
    rw [pushBack_of_canExtend hcan]
    exact ⟨_, rfl, rfl⟩
  | false =>
    rw [pushBack_of_not_canExtend hcan]
    exact ⟨_, rfl, rfl⟩

omit [DecidableEq Address] in
theorem endHeight_le_back (hends : EndsIncrease h.roots) (hmem : root ∈ h.roots) :
    root.lifetime.endHeight ≤ h.back.lifetime.endHeight := by
  rcases List.mem_cons.1 hmem with rfl | hmem
  · exact Nat.le_refl _
  · exact Nat.le_of_lt ((List.pairwise_cons.1 hends).1 root hmem)

theorem endsIncrease_pushBack (hends : EndsIncrease h.roots) (hlt : h.back.lifetime.endHeight < lifetime.endHeight) :
    EndsIncrease (h.pushBack owner lifetime).roots := by
  obtain ⟨root, hlifetime, hroots⟩ := exists_roots_pushBack h owner lifetime
  rw [hroots]
  refine List.pairwise_cons.2 ⟨fun root' hmem => ?_, hends⟩
  rw [hlifetime]
  exact Nat.lt_of_le_of_lt (endHeight_le_back hends hmem) hlt

theorem popBack_pushBack : (h.pushBack owner lifetime).popBack = some h := by
  cases hcan : (⟨h.id, owner, lifetime, .none⟩ : RootNamespace Address).canExtend h.back with
  | true =>
    rw [pushBack_of_canExtend hcan]
    rfl
  | false =>
    rw [pushBack_of_not_canExtend hcan]
    rfl

end PushBack

inductive PopBack : RootNamespaceHistory Address → Option (RootNamespaceHistory Address) → Prop
  | last (id : NamespaceId) (back : RootNamespace Address) (children : Children Address) :
    PopBack ⟨id, ⟨back, [], children⟩, []⟩ none
  | unshared (id : NamespaceId) (back : RootNamespace Address) (children : Children Address) (s : SharedRoots Address)
    (rest : List (SharedRoots Address)) : PopBack ⟨id, ⟨back, [], children⟩, s :: rest⟩ (some ⟨id, s, rest⟩)
  | shared (id : NamespaceId) (back root : RootNamespace Address) (roots : List (RootNamespace Address))
    (children : Children Address) (rest : List (SharedRoots Address)) :
    PopBack ⟨id, ⟨back, root :: roots, children⟩, rest⟩ (some ⟨id, ⟨root, roots, children⟩, rest⟩)

omit [DecidableEq Address] in
theorem popBack_cases (h : RootNamespaceHistory Address) : PopBack h h.popBack := by
  obtain ⟨id, ⟨back, _ | ⟨root, roots⟩, children⟩, _ | ⟨s, rest⟩⟩ := h
  · exact .last ..
  · exact .unshared ..
  · exact .shared ..
  · exact .shared ..

theorem linked_popBack (hpop : PopBack h (some h')) (hlinked : Linked h.groups) : Linked h'.groups := by
  cases hpop with
  | unshared => exact hlinked.2.2
  | shared =>
    obtain ⟨hchain, hnext, hrest⟩ := hlinked
    exact ⟨(List.isChain_cons_cons.1 hchain).2, by simpa [oldest, SharedRoots.roots] using hnext, hrest⟩

section
omit [DecidableEq Address]

theorem roots_popBack (hpop : PopBack h (some h')) : h.roots = h.back :: h'.roots := by
  cases hpop <;> rfl

theorem filter_of_endsIncrease {l : List (RootNamespace Address)} (hends : EndsIncrease (root :: l))
    (hle : root.lifetime.endHeight ≤ height) :
    (root :: l).filter (fun root => decide (height < root.lifetime.endHeight)) = [] := by
  rw [List.filter_eq_nil_iff]
  intro root' hmem
  rcases List.mem_cons.1 hmem with rfl | hmem
  · simpa using hle
  · have hlt := (List.pairwise_cons.1 hends).1 root' hmem
    simp only [decide_eq_true_eq, not_lt]
    omega

theorem prune_eq_nil (hends : EndsIncrease (s.roots ++ rest.flatMap SharedRoots.roots))
    (hle : s.back.lifetime.endHeight ≤ height) : (s :: rest).filterMap (SharedRoots.prune height) = [] := by
  have hfilter := filter_of_endsIncrease (show EndsIncrease (s.back :: (s.previous ++
    rest.flatMap SharedRoots.roots)) from hends) hle
  rw [List.filter_eq_nil_iff] at hfilter
  rw [List.filterMap_eq_nil_iff]
  intro t hmem
  have hroots : t.roots.filter (fun root => decide (height < root.lifetime.endHeight)) = [] := by
    rw [List.filter_eq_nil_iff]
    intro root hroot
    apply hfilter
    rcases List.mem_cons.1 hmem with rfl | hmem
    · exact List.mem_append_left _ hroot
    · exact List.mem_cons_of_mem _ (List.mem_append_right _ (List.mem_flatMap.2 ⟨t, hmem, hroot⟩))
  rw [SharedRoots.prune, hroots]

theorem prune_eq_some (hlt : height < s.back.lifetime.endHeight) : s.prune height =
    some { s with previous := s.previous.filter fun root => decide (height < root.lifetime.endHeight) } := by
  rw [SharedRoots.prune, SharedRoots.roots, List.filter_cons_of_pos (by simpa using hlt)]

theorem filter_initial (height : Nat) {l : List (RootNamespace Address)} (hends : EndsIncrease l) :
    l.filter (fun root => decide (height < root.lifetime.endHeight)) <+: l := by
  induction l with
  | nil => simp
  | cons root l ih =>
    by_cases hlt : height < root.lifetime.endHeight
    · rw [List.filter_cons_of_pos (by simpa using hlt)]
      exact List.cons_prefix_cons.2 ⟨rfl, ih (List.pairwise_cons.1 hends).2⟩
    · rw [filter_of_endsIncrease hends (by omega)]
      simp

end

theorem linked_prune_groups (hlinked : Linked groups) (hends : EndsIncrease (groups.flatMap SharedRoots.roots)) :
    Linked (groups.filterMap (SharedRoots.prune height)) ∧
    ∀ t ∈ (groups.filterMap (SharedRoots.prune height)).head?, ∃ t' ∈ groups.head?, t.back = t'.back := by
  induction groups with
  | nil => exact ⟨trivial, by simp⟩
  | cons s rest ih =>
    rw [List.flatMap_cons] at hends
    obtain ⟨hchain, hnext, hrest⟩ := hlinked
    by_cases hle : s.back.lifetime.endHeight ≤ height
    · rw [prune_eq_nil hends hle]
      exact ⟨trivial, by simp⟩
    have hsome := prune_eq_some (show height < s.back.lifetime.endHeight by omega)
    rw [List.filterMap_cons_some hsome]
    refine ⟨?_, by simp⟩
    obtain ⟨hrestLinked, hhead⟩ := ih hrest (List.pairwise_append.1 hends).2.1
    obtain ⟨ended, hended⟩ := filter_initial height (List.pairwise_append.1 hends).1
    rw [SharedRoots.roots, List.filter_cons_of_pos (by simpa using hle)] at hended
    have hkeptChain : Chained s := hchain
    rw [Chained, SharedRoots.roots, ← hended] at hkeptChain
    refine ⟨hkeptChain.left_of_append, ?_, hrestLinked⟩
    intro t ht
    obtain ⟨t', ht', hback⟩ := hhead t ht
    -- a root is left after this group, so every root of the group is left
    have hkept : s.previous.filter (fun root => decide (height < root.lifetime.endHeight)) = s.previous := by
      rw [List.filter_eq_self]
      intro root hroot
      have htmem : t ∈ rest.filterMap (SharedRoots.prune height) := List.mem_of_mem_head? ht
      by_contra hnot
      cases rest with
      | nil => simp at htmem
      | cons u rest =>
        cases ht'
        have hlt := (List.pairwise_append.1 hends).2.2 root (List.mem_cons_of_mem _ hroot) t'.back
          (by simp [SharedRoots.roots])
        simp only [decide_eq_true_eq, not_lt] at hnot
        rw [prune_eq_nil (List.pairwise_append.1 hends).2.1 (by omega)] at htmem
        cases htmem
    rw [hback]
    simpa [oldest, SharedRoots.roots, hkept] using hnext t' ht'

omit [DecidableEq Address] in
theorem mem_keys_addAllIds {ids : NamespaceIds} {children : Children Address} {id : NamespaceId} :
    id ∈ (addAllIds ids children).keys ↔ id ∈ children.keys ∨ id ∈ ids.keys := by
  have hkeys : (children.keys.map fun id => (id, ())).map Prod.fst = children.keys := by simp [Function.comp_def]
  by_cases hmem : id ∈ children.keys
  · have hfind := SortedMap.find?_insertAll_of_mem (m := ids) (hkeys ▸ children.nodup_keys)
      (List.mem_map.2 ⟨id, hmem, rfl⟩)
    simp only [hmem, true_or, iff_true]
    exact SortedMap.mem_keys_iff.2 ⟨(), hfind⟩
  · have hfind := SortedMap.find?_insertAll_of_notMem (m := ids) (hkeys.symm ▸ hmem)
    simp only [hmem, false_or, SortedMap.mem_keys_iff, addAllIds, hfind]

omit [DecidableEq Address] in
theorem mem_keys_removeAllIds {ids : NamespaceIds} {children : Children Address} {id : NamespaceId} :
    id ∈ (removeAllIds ids children).keys ↔ id ∉ children.keys ∧ id ∈ ids.keys := SortedMap.mem_keys_eraseAll

/-- The loop of `prune`. -/
def prunedChildIds (height : Nat) (levels : List (RootNamespace Address × Children Address)) : NamespaceIds :=
  levels.foldr (fun level ids =>
    if level.1.lifetime.endHeight ≤ height then addAllIds ids level.2 else removeAllIds ids level.2) ∅

variable {levels : List (RootNamespace Address × Children Address)} {id : NamespaceId}

omit [DecidableEq Address] in
theorem exists_level_of_mem_prunedChildIds (hmem : id ∈ (prunedChildIds height levels).keys) :
    ∃ level ∈ levels, id ∈ level.2.keys := by
  induction levels with
  | nil => cases hmem
  | cons level levels ih =>
    rw [prunedChildIds, List.foldr_cons, ← prunedChildIds] at hmem
    split at hmem
    · rcases mem_keys_addAllIds.1 hmem with hmem | hmem
      · exact ⟨level, by simp, hmem⟩
      · exact (ih hmem).imp fun _ h => ⟨List.mem_cons_of_mem _ h.1, h.2⟩
    · exact (ih (mem_keys_removeAllIds.1 hmem).2).imp fun _ h => ⟨List.mem_cons_of_mem _ h.1, h.2⟩

omit [DecidableEq Address] in
theorem mem_prunedChildIds_of_ended (hended : ∀ level ∈ levels, level.1.lifetime.endHeight ≤ height)
    {level : RootNamespace Address × Children Address} (hlevel : level ∈ levels) (hmem : id ∈ level.2.keys) :
    id ∈ (prunedChildIds height levels).keys := by
  induction levels with
  | nil => cases hlevel
  | cons level' levels ih =>
    rw [prunedChildIds, List.foldr_cons, ← prunedChildIds, if_pos (hended level' (by simp)), mem_keys_addAllIds]
    rcases List.mem_cons.1 hlevel with rfl | hlevel
    · exact .inl hmem
    · exact .inr (ih (fun level h => hended level (List.mem_cons_of_mem _ h)) hlevel)

def HasChild (h : RootNamespaceHistory Address) (id : NamespaceId) : Prop := ∃ level ∈ h.levels, id ∈ level.2.keys

omit [DecidableEq Address] in
theorem hasChild_iff : h.HasChild id ↔ ∃ s ∈ h.groups, id ∈ s.children.keys := by
  constructor
  · rintro ⟨level, hlevel, hmem⟩
    obtain ⟨s, hs, hlevel⟩ := List.mem_flatMap.1 hlevel
    obtain ⟨root, -, rfl⟩ := List.mem_map.1 hlevel
    exact ⟨s, hs, hmem⟩
  · rintro ⟨s, hs, hmem⟩
    exact ⟨(s.back, s.children), List.mem_flatMap.2 ⟨s, hs, by simp [SharedRoots.roots]⟩, hmem⟩

/-- The most recent root is kept, with some of the others. -/
structure Kept (h h' : RootNamespaceHistory Address) (height : Nat) : Prop where
  id_eq : h'.id = h.id
  activeChildren_eq : h'.activeChildren = h.activeChildren
  roots_eq : h'.roots = h.roots.filter fun root => decide (height < root.lifetime.endHeight)
  children_mem : ∀ s ∈ h'.groups, ∃ t ∈ h.groups, s.children = t.children

section
omit [DecidableEq Address]

theorem prune_cases (height : Nat) (s : SharedRoots Address) :
    (s.prune height = none ∧ s.roots.filter (fun root => decide (height < root.lifetime.endHeight)) = []) ∨
    ∃ t, s.prune height = some t ∧ t.children = s.children ∧
      t.roots = s.roots.filter fun root => decide (height < root.lifetime.endHeight) := by
  unfold SharedRoots.prune
  split
  next hfilter => exact .inl ⟨rfl, hfilter⟩
  next back previous hfilter => exact .inr ⟨_, rfl, rfl, hfilter.symm⟩

theorem flatMap_prune (height : Nat) (groups : List (SharedRoots Address)) :
    (groups.filterMap (SharedRoots.prune height)).flatMap SharedRoots.roots =
      (groups.flatMap SharedRoots.roots).filter fun root => decide (height < root.lifetime.endHeight) := by
  induction groups with
  | nil => rfl
  | cons s rest ih =>
    rw [List.flatMap_cons, List.filter_append]
    rcases prune_cases height s with ⟨hprune, hroots⟩ | ⟨t, hprune, -, hroots⟩
    · rw [List.filterMap_cons_none hprune, hroots, ih]
      rfl
    · rw [List.filterMap_cons_some hprune, List.flatMap_cons, hroots, ih]

theorem prune_of_ended (hends : EndsIncrease h.roots) (hle : h.back.lifetime.endHeight ≤ height) :
    h.prune height = none ∧ ∀ id, id ∈ (h.prunedIds height).keys ↔ id = h.id ∨ h.HasChild id := by
  have hnil : h.groups.filterMap (SharedRoots.prune height) = [] := prune_eq_nil hends hle
  refine ⟨by rw [prune, hnil]; rfl, fun id => ?_⟩
  have hall : ∀ level ∈ h.levels, level.1.lifetime.endHeight ≤ height := by
    intro level hlevel
    have hroot : level.1 ∈ h.roots := levels_map_fst ▸ List.mem_map_of_mem hlevel
    exact (endHeight_le_back hends hroot).trans hle
  have hids : h.prunedIds height = (prunedChildIds height h.levels).insert h.id () := by
    simp only [prunedIds, hnil]
    rfl
  rw [hids, SortedMap.mem_keys_iff, SortedMap.find?_insert]
  by_cases hid : id = h.id
  · simp [hid]
  · simp only [hid, if_false, false_or, ← SortedMap.mem_keys_iff]
    exact ⟨exists_level_of_mem_prunedChildIds, fun ⟨level, hlevel, hmem⟩ =>
      mem_prunedChildIds_of_ended hall hlevel hmem⟩

theorem prune_of_not_ended (hlt : height < h.back.lifetime.endHeight) :
    ∃ h', h.prune height = some h' ∧ h.Kept h' height ∧
    h'.groups = h.groups.filterMap (SharedRoots.prune height) ∧
    ∀ id ∈ (h.prunedIds height).keys, h.HasChild id ∧ id ∉ h.activeChildren.keys := by
  have hsome := prune_eq_some (s := h.last) hlt
  obtain ⟨last, previous, hgroups, hchildren⟩ : ∃ last previous,
      h.groups.filterMap (SharedRoots.prune height) = last :: previous ∧ last.children = h.last.children :=
    ⟨_, _, List.filterMap_cons_some hsome, rfl⟩
  have hids : h.prunedIds height = prunedChildIds height h.levels := by
    simp only [prunedIds, hgroups]
    rfl
  refine ⟨⟨h.id, last, previous⟩, by rw [prune, hgroups]; rfl, ⟨rfl, hchildren, ?_, ?_⟩, hgroups.symm, ?_⟩
  · have hroots := flatMap_prune height h.groups
    rwa [hgroups] at hroots
  · intro s hs
    change s ∈ last :: previous at hs
    rw [← hgroups] at hs
    obtain ⟨t, ht, hprune⟩ := List.mem_filterMap.1 hs
    rcases prune_cases height t with ⟨hnone, -⟩ | ⟨u, hu, hchildren, -⟩
    · simp [hnone] at hprune
    · obtain rfl := Option.some.inj (hu.symm.trans hprune)
      exact ⟨t, ht, hchildren⟩
  · intro id hmem
    rw [hids] at hmem
    refine ⟨exists_level_of_mem_prunedChildIds hmem, ?_⟩
    -- the children of the most recent root are removed last
    have hlevels : h.levels = (h.back, h.activeChildren) :: h.levels.tail := rfl
    rw [hlevels, prunedChildIds, List.foldr_cons, if_neg (by simpa using hlt), mem_keys_removeAllIds] at hmem
    exact hmem.1

theorem kept_of_prune (hends : EndsIncrease h.roots) (hprune : h.prune height = some h') : h.Kept h' height := by
  by_cases hended : h.back.lifetime.endHeight ≤ height
  · rw [(prune_of_ended hends hended).1] at hprune
    cases hprune
  · obtain ⟨kept, hsome, hkept, -⟩ := prune_of_not_ended (h := h) (Nat.lt_of_not_le hended)
    rw [hprune] at hsome
    cases hsome
    exact hkept

end

end RootNamespaceHistory
end Catapult.Namespaces
