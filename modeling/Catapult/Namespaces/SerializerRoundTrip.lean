import Catapult.Lib.Stateful
import Catapult.Namespaces.Rollback
import Catapult.Namespaces.Serializer

/-!
# Histories are read back from their bytes

A history that is reached is linked: its roots share their children exactly when the later one can extend the earlier
one, and this is how the children are found when it is loaded. The children of a root are written in the order of
their paths, so that every child comes after its parent.

The loops of `Load` count with 32 bits to numbers that have 64 bits, and a path is written with the number of its ids
in one byte. A history is read back exactly when it has fewer than `2 ^ 32` roots, no root has as many children, and
no path has more than 256 ids (`Fits`, `roundTrips_iff`).
-/

namespace Catapult.Namespaces.Serializer
open Fallible Reader SharedRoots

structure Storable (id : NamespaceId) (children : Children Address) : Prop where
  ids : ∀ k child, children.find? k = some child → child.ns.id = k
  rootIds : ∀ k child, children.find? k = some child → child.ns.rootId = id
  ne_root : ∀ k child, children.find? k = some child → k ≠ id
  nested : Nested children
  sized : SizedChildren children

def PathsFit (children : Children Address) : Prop :=
  ∀ k child, children.find? k = some child → child.ns.path.length ≤ 256

section Children
variable {id : NamespaceId} {children : Children Address} {root : RootNamespace Address}

def sortedChildren (children : Children Address) : List (ChildNamespaceData Address) :=
  (sortedChildPaths children).keys.filterMap fun path => children.find? (path.getLastD namespaceBaseId)

def childBytes (child : ChildNamespaceData Address) : List UInt8 :=
  UInt8.ofNat (child.ns.path.length - 1) :: (child.ns.path.tail.flatMap (leBytes 8) ++ saveAlias child.namespaceAlias)

theorem getLastD_path (ns : Namespace) : ns.path.getLastD namespaceBaseId = ns.id := by
  rw [List.getLastD_eq_getLast?, List.getLast?_eq_some_getLast ns.path_ne_nil, Option.getD_some, Namespace.id]

namespace Storable

theorem nodup_paths (hs : Storable id children) : (children.entries.map fun pair => pair.2.ns.path).Nodup := by
  refine List.Nodup.of_map (fun path => path.getLastD namespaceBaseId) ?_
  rw [List.map_map]
  refine cast (congrArg List.Nodup ?_) children.nodup_keys
  refine List.map_congr_left fun pair hpair => ?_
  exact (hs.ids pair.1 pair.2 (SortedMap.mem_entries_iff.1 hpair)).symm.trans (getLastD_path pair.2.ns).symm

theorem nodup_fst (hs : Storable id children) :
    ((children.entries.map fun pair => (pair.2.ns.path, ())).map Prod.fst).Nodup := by
  rw [List.map_map]
  exact hs.nodup_paths

theorem mem_sortedChildPaths (hs : Storable id children) {path : List NamespaceId} :
    path ∈ (sortedChildPaths children).keys ↔
      ∃ child, children.find? child.ns.id = some child ∧ child.ns.path = path := by
  rw [SortedMap.mem_keys_iff, sortedChildPaths]
  constructor
  · rintro ⟨⟨⟩, hfind⟩
    by_contra hnot
    rw [SortedMap.find?_insertAll_of_notMem] at hfind
    · cases hfind
    · intro hmem
      simp only [List.map_map, List.mem_map, Function.comp_apply] at hmem
      obtain ⟨pair, hpair, hpath⟩ := hmem
      have hchild := SortedMap.mem_entries_iff.1 hpair
      exact hnot ⟨pair.2, by rw [hs.ids _ _ hchild, hchild], hpath⟩
  · rintro ⟨child, hchild, rfl⟩
    have hmem : (child.ns.path, ()) ∈ children.entries.map fun pair => (pair.2.ns.path, ()) :=
      List.mem_map.2 ⟨(child.ns.id, child), SortedMap.mem_entries_iff.2 hchild, rfl⟩
    exact ⟨(), SortedMap.find?_insertAll_of_mem hs.nodup_fst hmem⟩

theorem length_sortedChildPaths (hs : Storable id children) :
    (sortedChildPaths children).keys.length = children.size := by
  rw [SortedMap.length_keys, sortedChildPaths, SortedMap.size_insertAll hs.nodup_fst (by simp)]
  rw [SortedMap.size_empty, List.length_map, SortedMap.size, Nat.zero_add]

theorem map_path_sortedChildren (hs : Storable id children) :
    (sortedChildren children).map (fun child => child.ns.path) = (sortedChildPaths children).keys := by
  have hall : ∀ path ∈ (sortedChildPaths children).keys,
      ∃ child, children.find? (path.getLastD namespaceBaseId) = some child ∧ child.ns.path = path := by
    intro path hpath
    obtain ⟨child, hchild, rfl⟩ := hs.mem_sortedChildPaths.1 hpath
    exact ⟨child, by rw [getLastD_path, hchild], rfl⟩
  rw [sortedChildren]
  generalize (sortedChildPaths children).keys = paths at hall
  induction paths with
  | nil => rfl
  | cons path paths ih =>
    obtain ⟨child, hchild, hpath⟩ := hall path List.mem_cons_self
    rw [List.filterMap_cons, hchild, List.map_cons, hpath, ih fun p hp => hall p (List.mem_cons_of_mem _ hp)]

theorem mem_sortedChildren (hs : Storable id children) {child : ChildNamespaceData Address} :
    child ∈ sortedChildren children ↔ children.find? child.ns.id = some child := by
  rw [sortedChildren, List.mem_filterMap]
  constructor
  · rintro ⟨path, -, hfind⟩
    rw [hs.ids _ _ hfind, hfind]
  · intro hfind
    exact ⟨child.ns.path, hs.mem_sortedChildPaths.2 ⟨child, hfind, rfl⟩, by rw [getLastD_path, hfind]⟩

theorem length_sortedChildren (hs : Storable id children) : (sortedChildren children).length = children.size := by
  rw [← hs.length_sortedChildPaths, ← hs.map_path_sortedChildren, List.length_map]

theorem sorted_sortedChildren (hs : Storable id children) :
    (sortedChildren children).Pairwise fun child child' => child.ns.path < child'.ns.path := by
  have hsorted : (sortedChildPaths children).keys.Pairwise (· < ·) :=
    List.pairwise_map.2 (sortedChildPaths children).sorted
  rw [← hs.map_path_sortedChildren, List.pairwise_map] at hsorted
  exact hsorted

theorem savePath_eq (hs : Storable id children) (hroot : root.id = id) {child : ChildNamespaceData Address}
    (hfind : children.find? child.ns.id = some child) : savePath (root, children) child.ns.path =
      if 256 < child.ns.path.length then .error (.dataTruncation (child.ns.path.length - 1))
      else .ok (childBytes child) := by
  have hpos := List.length_pos_iff.2 child.ns.path_ne_nil
  have halias : aliasOf (root, children) child.ns.id = .ok child.namespaceAlias := by
    simp only [aliasOf, hroot, (hs.ne_root _ _ hfind).symm, if_false, hfind]
    rfl
  rw [savePath, getLastD_path, halias, checkedCast]
  by_cases hlt : 256 < child.ns.path.length
  · rw [if_pos (by omega), if_pos hlt]
    rfl
  · rw [if_neg (by omega), if_neg hlt]
    rfl

theorem saveChildren_eq (hs : Storable id children) (hroot : root.id = id) (hfit : PathsFit children) :
    saveChildren (root, children) =
      .ok (leBytes 8 children.size ++ ((sortedChildren children).map childBytes).flatten) := by
  have hpaths : (sortedChildPaths children).keys.mapM (savePath (root, children)) =
      .ok ((sortedChildren children).map childBytes) := by
    rw [← hs.map_path_sortedChildren, List.mapM_map]
    refine mapM_eq_ok fun child hmem => ?_
    have hfind := hs.mem_sortedChildren.1 hmem
    rw [Function.comp_apply, hs.savePath_eq hroot hfind, if_neg (Nat.not_lt.2 (hfit _ _ hfind))]
  rw [saveChildren, hpaths, hs.length_sortedChildPaths]
  rfl

theorem pathsFit_of_saveChildren (hs : Storable id children) (hroot : root.id = id) {bs : List UInt8}
    (hsave : saveChildren (root, children) = .ok bs) : PathsFit children := by
  obtain ⟨pieces, hpieces, -⟩ := bind_eq_ok hsave
  intro k child hfind
  have hid := hs.ids _ _ hfind
  rw [← hid] at hfind
  obtain ⟨piece, -, hpiece⟩ := of_mapM_eq_ok hpieces child.ns.path (hs.mem_sortedChildPaths.2 ⟨child, hfind, rfl⟩)
  by_contra hlt
  rw [hs.savePath_eq hroot hfind, if_pos (Nat.lt_of_not_le hlt)] at hpiece
  cases hpiece

theorem reads_loadChild (hs : Storable id children) (hfit : PathsFit children) {child : ChildNamespaceData Address}
    (hfind : children.find? child.ns.id = some child) (pairs : List (Namespace × NamespaceAlias Address)) :
    Reads (loadChild id pairs) (childBytes child) (pairs ++ [(child.ns, child.namespaceAlias)]) := by
  have hpath := reads_path (hs.rootIds _ _ hfind) (hfit _ _ hfind) (hs.sized.paths _ _ hfind)
  exact hpath.bind (reads_alias (hs.sized.aliases _ _ hfind)).bind_pure

theorem readsFold_loadChild (hs : Storable id children) (hfit : PathsFit children)
    {cs : List (ChildNamespaceData Address)} (hall : ∀ child ∈ cs, children.find? child.ns.id = some child)
    (pairs : List (Namespace × NamespaceAlias Address)) :
    ReadsFold (loadChild id) pairs (cs.map childBytes)
      (pairs ++ cs.map fun child => (child.ns, child.namespaceAlias)) := by
  induction cs generalizing pairs with
  | nil =>
    rw [List.map_nil, List.map_nil, List.append_nil]
    exact .nil pairs
  | cons child cs ih =>
    have htail := ih (fun c hc => hall c (List.mem_cons_of_mem _ hc)) (pairs ++ [(child.ns, child.namespaceAlias)])
    rw [List.append_assoc, List.singleton_append] at htail
    exact .cons (hs.reads_loadChild hfit (hall child List.mem_cons_self) pairs) (by simp [childBytes]) htail

theorem reads_loadChildren (hs : Storable id children) (hfit : PathsFit children) (hlt : children.size < 2 ^ 32) :
    Reads (loadChildren id children.size) ((sortedChildren children).map childBytes).flatten
      ((sortedChildren children).map fun child => (child.ns, child.namespaceAlias)) := by
  have hfold := hs.readsFold_loadChild hfit (fun _ hmem => hs.mem_sortedChildren.1 hmem) []
  have hlength : ((sortedChildren children).map childBytes).length = children.size := by
    rw [List.length_map, hs.length_sortedChildren]
  rw [← hlength] at hlt ⊢
  exact hfold.loop32 hlt

end Storable

open NamespaceCacheDelta (withChildren)

theorem reads_modifyBack {h : RootNamespaceHistory Address} {f : EStateM NamespaceError (SharedRoots Address) Unit}
    {last : SharedRoots Address} (hok : f.run h.last = .ok () last) :
    Reads (modifyBack h f) [] { h with last := last } := by
  intro rest
  rw [modifyBack, hok]
  rfl

theorem reads_addChild {h : RootNamespaceHistory Address} {loaded : Children Address}
    {child : ChildNamespaceData Address} (hroot : child.ns.rootId = h.back.id) (hne : child.ns.id ≠ h.back.id)
    (hnew : loaded.find? child.ns.id = none) (hparent : h.back.id = child.ns.parentId ∨
      ∃ parent, loaded.find? child.ns.parentId = some parent ∧ parent.ns.path.length = child.ns.path.length - 1) :
    Reads (addChild (withChildren h loaded) (child.ns, child.namespaceAlias)) []
      (withChildren h (loaded.insert child.ns.id child)) := by
  have hadd := add_of_parent (s := (withChildren h loaded).last) hnew hparent
  rw [if_pos (show (withChildren h loaded).last.back.id = child.ns.rootId from hroot.symm)] at hadd
  refine (reads_modifyBack hadd).bind_nil ?_
  -- the child that was just added gets its alias
  have halias : (SharedRoots.setAlias child.ns.id child.namespaceAlias).run
      (withChildren h (loaded.insert child.ns.id { ns := child.ns })).last =
      .ok () (withChildren h (loaded.insert child.ns.id child)).last := by
    have heq : (loaded.insert child.ns.id { ns := child.ns }).modify child.ns.id
        (fun data => { data with namespaceAlias := child.namespaceAlias }) = loaded.insert child.ns.id child := by
      refine SortedMap.ext_find? fun k => ?_
      simp only [SortedMap.find?_modify, SortedMap.find?_insert]
      by_cases hk : k = child.ns.id <;> simp [hk]
    have hback : (withChildren h (loaded.insert child.ns.id { ns := child.ns })).last.back.id ≠ child.ns.id := hne.symm
    have hfind : (withChildren h (loaded.insert child.ns.id { ns := child.ns })).last.children.find? child.ns.id =
        some { ns := child.ns } := by
      change (loaded.insert child.ns.id { ns := child.ns }).find? child.ns.id = _
      rw [SortedMap.find?_insert, if_pos rfl]
    rw [← heq]
    simp only [SharedRoots.setAlias, EStateM.run_bind, EStateM.run_get, hback, if_false, hfind]
    rfl
  exact reads_modifyBack halias

theorem lt_append_singleton (path : List NamespaceId) (k : NamespaceId) : path < path ++ [k] := by
  have hlex := List.Lex.append_left (· < ·) (List.Lex.nil (a := k) (l := [])) path
  rwa [List.append_nil] at hlex

theorem Storable.parent_before (hs : Storable id children) {done rest : List (ChildNamespaceData Address)}
    {child : ChildNamespaceData Address} (hsplit : sortedChildren children = done ++ child :: rest) :
    id = child.ns.parentId ∨ ∃ parent ∈ done, parent.ns.id = child.ns.parentId ∧
      parent.ns.path.length = child.ns.path.length - 1 := by
  have hmem : ∀ c, c ∈ done ++ child :: rest ↔ children.find? c.ns.id = some c := fun c => by
    rw [← hsplit, hs.mem_sortedChildren]
  have hfind := (hmem child).1 (by simp)
  rcases hs.nested _ _ hfind with hlength | ⟨parent, hparent, hpath⟩
  · left
    obtain ⟨root, last, hpath⟩ := List.length_eq_two.1 hlength
    have hroot := hs.rootIds _ _ hfind
    simp only [Namespace.rootId, hpath, List.head_cons] at hroot
    simp [Namespace.parentId, hpath, hroot]
  · right
    have hlt : parent.ns.path < child.ns.path := by
      rw [hpath]
      exact lt_append_singleton _ _
    have hsorted := hs.sorted_sortedChildren
    rw [hsplit, List.pairwise_append, List.pairwise_cons] at hsorted
    have hid : parent.ns.id = child.ns.parentId := by
      rw [Namespace.parentId, if_neg (by simp [hpath, parent.ns.path_ne_nil]), hpath, List.dropLast_concat,
        getLastD_path]
    refine ⟨parent, ?_, hid, by rw [hpath]; simp⟩
    rcases List.mem_append.1 ((hmem parent).2 hparent) with hdone | hrest
    · exact hdone
    · rcases List.mem_cons.1 hrest with rfl | hrest
      · exact absurd hlt (lt_irrefl _)
      · exact absurd hlt (lt_asymm (hsorted.2.1.1 parent hrest))

theorem Storable.reads_addChildren (hs : Storable id children) {h : RootNamespaceHistory Address}
    (hback : h.back.id = id) {done rest : List (ChildNamespaceData Address)} {loaded : Children Address}
    (hsplit : sortedChildren children = done ++ rest)
    (hloaded : ∀ k child, loaded.find? k = some child ↔ child ∈ done ∧ child.ns.id = k) :
    Reads ((rest.map fun child => (child.ns, child.namespaceAlias)).foldlM addChild (withChildren h loaded)) []
      (withChildren h children) := by
  induction rest generalizing done loaded with
  | nil =>
    have heq : loaded = children := by
      refine SortedMap.ext_find? fun k => Option.ext fun child => ?_
      rw [hloaded, ← List.append_nil done, ← hsplit, hs.mem_sortedChildren]
      refine ⟨fun ⟨hfind, hid⟩ => hid ▸ hfind, fun hfind => ?_⟩
      have hid := hs.ids _ _ hfind
      exact ⟨hid.symm ▸ hfind, hid⟩
    rw [heq]
    exact Reads.pure _
  | cons child rest ih =>
    have hfind : children.find? child.ns.id = some child := hs.mem_sortedChildren.1 (by simp [hsplit])
    have hnotMem : ∀ c ∈ done, c.ns.id ≠ child.ns.id := by
      intro c hc hid
      have hother : children.find? c.ns.id = some c := hs.mem_sortedChildren.1 (by simp [hsplit, hc])
      rw [hid] at hother
      obtain rfl : child = c := Option.some.inj (hfind.symm.trans hother)
      have hsorted := hs.sorted_sortedChildren
      rw [hsplit, List.pairwise_append] at hsorted
      exact lt_irrefl _ (hsorted.2.2 child hc child List.mem_cons_self)
    have hnew : loaded.find? child.ns.id = none := by
      by_contra hne
      obtain ⟨c, hc⟩ := Option.ne_none_iff_exists'.1 hne
      obtain ⟨hmem, hid⟩ := (hloaded _ _).1 hc
      exact hnotMem c hmem hid
    have hparent : h.back.id = child.ns.parentId ∨ ∃ parent, loaded.find? child.ns.parentId = some parent ∧
        parent.ns.path.length = child.ns.path.length - 1 := by
      rw [hback]
      refine (hs.parent_before hsplit).imp_right fun ⟨parent, hmem, hid, hlength⟩ => ?_
      exact ⟨parent, (hloaded _ _).2 ⟨hmem, hid⟩, hlength⟩
    rw [List.map_cons, List.foldlM_cons]
    refine (reads_addChild ((hs.rootIds _ _ hfind).trans hback.symm)
      (fun heq => hs.ne_root _ _ hfind (heq.trans hback)) hnew hparent).bind_nil ?_
    have hsplit' : sortedChildren children = (done ++ [child]) ++ rest := by
      rw [hsplit, List.append_assoc]
      rfl
    refine ih hsplit' fun k c => ?_
    rw [SortedMap.find?_insert]
    split
    · rename_i hk
      subst hk
      simp only [Option.some.injEq, List.mem_append, List.mem_singleton]
      refine ⟨fun heq => ⟨.inr heq.symm, by rw [heq]⟩, fun ⟨hmem, hid⟩ => ?_⟩
      rcases hmem with hmem | hmem
      · exact absurd hid (hnotMem c hmem)
      · exact hmem.symm
    · rename_i hk
      rw [hloaded, List.mem_append, List.mem_singleton]
      refine ⟨fun ⟨hmem, hid⟩ => ⟨.inl hmem, hid⟩, fun ⟨hmem, hid⟩ => ⟨hmem.resolve_right ?_, hid⟩⟩
      rintro rfl
      exact hk hid.symm

end Children

section Roots
variable {id : NamespaceId} {children : Children Address} {root : RootNamespace Address}
  {rest : List (SharedRoots Address)} {older : Option (RootNamespaceHistory Address)}

def rootBytes (root : RootNamespace Address) (childrenBytes : List UInt8) : List UInt8 :=
  root.ownerAddress.1 ++ (leBytes 8 root.lifetime.startHeight ++ (leBytes 8 root.lifetime.endHeight ++
    (saveAlias root.namespaceAlias ++ childrenBytes)))

def withAlias (h : RootNamespaceHistory Address) (namespaceAlias : NamespaceAlias Address) :
    RootNamespaceHistory Address :=
  { h with last := { h.last with back := { h.last.back with namespaceAlias := namespaceAlias } } }

theorem reads_setAlias {h : RootNamespaceHistory Address} (hid : h.back.id = id)
    (namespaceAlias : NamespaceAlias Address) :
    Reads (modifyBack h (SharedRoots.setAlias id namespaceAlias)) [] (withAlias h namespaceAlias) := by
  have hback : h.last.back.id = id := hid
  refine reads_modifyBack ?_
  simp only [SharedRoots.setAlias, EStateM.run_bind, EStateM.run_get, hback, if_true]
  rfl

theorem reads_loadRootNamespace (hsized : SizedRoot root)
    (hid : (pushBack id root.ownerAddress root.lifetime older).back.id = id) {n : Nat} {childrenBytes : List UInt8}
    {pairs : List (Namespace × NamespaceAlias Address)} {h : RootNamespaceHistory Address} (hn : n < 256 ^ 8)
    (hchildren : Reads (loadChildren id n) childrenBytes pairs)
    (hadd : Reads (pairs.foldlM addChild
      (withAlias (pushBack id root.ownerAddress root.lifetime older) root.namespaceAlias)) [] h) :
    Reads (loadRootNamespace id older) (rootBytes root (leBytes 8 n ++ childrenBytes)) h := by
  rw [loadRootNamespace, rootBytes]
  refine (Reads.bytes root.ownerAddress).bind ?_
  rw [← List.append_assoc]
  refine (reads_lifetime hsized).bind ((reads_alias hsized.namespaceAlias).bind ?_)
  refine (reads_setAlias hid root.namespaceAlias).bind_nil ((Reads.nat hn).bind ?_)
  rw [← List.append_nil childrenBytes]
  exact hchildren.bind hadd

theorem loadRootNamespace_fails (hsized : SizedRoot root)
    (hid : (pushBack id root.ownerAddress root.lifetime older).back.id = id) {n : Nat} (hn : n < 256 ^ 8)
    (hle : 2 ^ 32 ≤ n) (input : List UInt8) :
    Fails (loadRootNamespace id older) (rootBytes root (leBytes 8 n ++ input)) := by
  rw [loadRootNamespace, rootBytes]
  refine (Reads.bytes root.ownerAddress).fails_bind ?_
  rw [← List.append_assoc]
  refine (reads_lifetime hsized).fails_bind ((reads_alias hsized.namespaceAlias).fails_bind ?_)
  refine (reads_setAlias hid root.namespaceAlias).fails_bind ((Reads.nat hn).fails_bind ?_)
  exact (loop32_fails hle input).bind

theorem pushBack_unshared (hroot : root.id = id) (hnot : ∀ t ∈ rest.head?, root.canExtend t.back = false) :
    withAlias (pushBack id root.ownerAddress root.lifetime
      (RootNamespaceHistory.ofGroups id rest)) root.namespaceAlias =
      ⟨id, ⟨root, [], ∅⟩, rest⟩ := by
  obtain ⟨rootId, owner, lifetime, namespaceAlias⟩ := root
  obtain rfl : rootId = id := hroot
  cases rest with
  | nil => rfl
  | cons t rest =>
    have hcan : (⟨rootId, owner, lifetime, .none⟩ : RootNamespace Address).canExtend t.back = false := hnot t rfl
    simp only [RootNamespaceHistory.ofGroups, pushBack, RootNamespaceHistory.pushBack, RootNamespaceHistory.back, hcan]
    rfl

theorem pushBack_shared {back : RootNamespace Address} {previous : List (RootNamespace Address)} (hroot : root.id = id)
    (hcan : root.canExtend back = true) :
    withAlias (pushBack id root.ownerAddress root.lifetime (some ⟨id, ⟨back, previous, children⟩, rest⟩))
      root.namespaceAlias = ⟨id, ⟨root, back :: previous, children⟩, rest⟩ := by
  obtain ⟨rootId, owner, lifetime, namespaceAlias⟩ := root
  obtain rfl : rootId = id := hroot
  have hcan' : (⟨rootId, owner, lifetime, .none⟩ : RootNamespace Address).canExtend back = true := hcan
  simp only [RootNamespace.canExtend, Bool.and_eq_true, decide_eq_true_eq] at hcan
  obtain ⟨⟨hid, howner⟩, -⟩ := hcan
  simp only [pushBack, RootNamespaceHistory.pushBack, RootNamespaceHistory.back, hcan', if_true, ← hid, ← howner]
  rfl

theorem back_id_of_withAlias {h h' : RootNamespaceHistory Address} {namespaceAlias : NamespaceAlias Address}
    (heq : withAlias h namespaceAlias = h') (hid : h'.back.id = id) : h.back.id = id := by
  rw [← heq] at hid
  exact hid

theorem saveRootNamespace_shared {previous : RootNamespace Address} (hcan : root.canExtend previous = true) :
    saveRootNamespace (root, children) (some previous) = .ok (rootBytes root (leBytes 8 0)) := by
  rw [saveRootNamespace, Option.any_some, if_pos hcan]
  rfl

theorem saveRootNamespace_unshared {previous : Option (RootNamespace Address)}
    (hnot : ∀ t ∈ previous, root.canExtend t = false) : saveRootNamespace (root, children) previous =
      (saveChildren (root, children) >>= fun childrenBytes => .ok (rootBytes root childrenBytes)) := by
  have hany : ¬(previous.any (root.canExtend ·)) = true := by
    cases previous with
    | none => simp
    | some t => simp [hnot t rfl]
  rw [saveRootNamespace, if_neg hany]
  rfl

theorem reads_loadRoot {bs : List UInt8} {h : RootNamespaceHistory Address}
    (hread : Reads (loadRootNamespace id older) bs h) : Reads (loadRoot id older) bs (some h) := by
  intro rest
  rw [loadRoot, map_eq_pure_bind]
  exact hread.bind_pure rest

theorem Storable.reads_unshared (hs : Storable id children) (hfit : PathsFit children) (hlt : children.size < 2 ^ 32)
    (hsized : SizedRoot root) (hroot : root.id = id) (hnot : ∀ t ∈ rest.head?, root.canExtend t.back = false) :
    Reads (loadRootNamespace id (RootNamespaceHistory.ofGroups id rest)) (rootBytes root
      (leBytes 8 children.size ++ ((sortedChildren children).map childBytes).flatten))
      ⟨id, ⟨root, [], children⟩, rest⟩ := by
  have hpush := pushBack_unshared hroot hnot
  have hback := @back_id_of_withAlias id _ _ _ hpush hroot
  refine reads_loadRootNamespace hsized hback hs.sized.size (hs.reads_loadChildren hfit hlt) ?_
  rw [hpush]
  have hloaded : ∀ k child, (∅ : Children Address).find? k = some child ↔ child ∈ [] ∧ child.ns.id = k := by simp
  exact hs.reads_addChildren (h := ⟨id, ⟨root, [], children⟩, rest⟩) hroot (List.nil_append _).symm hloaded

theorem reads_shared {back : RootNamespace Address} {previous : List (RootNamespace Address)} (hsized : SizedRoot root)
    (hroot : root.id = id) (hcan : root.canExtend back = true) :
    Reads (loadRoot id (some ⟨id, ⟨back, previous, children⟩, rest⟩)) (rootBytes root (leBytes 8 0))
      (some ⟨id, ⟨root, back :: previous, children⟩, rest⟩) := by
  have hpush := @pushBack_shared id children root rest back previous hroot hcan
  have hback := @back_id_of_withAlias id _ _ _ hpush hroot
  have hnone : Reads (loadChildren id 0) [] [] := (.nil [] : ReadsFold (loadChild id) [] [] []).loop32 (by decide)
  have hread := reads_loadRootNamespace (h := ⟨id, ⟨root, back :: previous, children⟩, rest⟩) hsized hback
    (show 0 < 256 ^ 8 by decide) hnone (by rw [hpush]; exact Reads.pure _)
  rw [List.append_nil] at hread
  exact reads_loadRoot hread

theorem rootBytes_ne_nil (childrenBytes : List UInt8) : rootBytes root childrenBytes ≠ [] := by
  intro hnil
  have hlength := congrArg List.length hnil
  simp [rootBytes, root.ownerAddress.2] at hlength

end Roots

section Groups
variable {id : NamespaceId} {groups rest : List (SharedRoots Address)} {s : SharedRoots Address}

structure StorableGroup (id : NamespaceId) (s : SharedRoots Address) : Prop where
  ids : ∀ root ∈ s.roots, root.id = id
  sized : ∀ root ∈ s.roots, SizedRoot root
  children : Storable id s.children

/-- The children can be counted with 32 bits, and the ids of their paths with one byte. -/
structure FitsGroup (s : SharedRoots Address) : Prop where
  size : s.children.size < 2 ^ 32
  paths : PathsFit s.children

def Saved (id : NamespaceId) (levels : List Level) (history : Option (RootNamespaceHistory Address)) : Prop :=
  ∃ pieces : List (List UInt8), saveRoots levels = .ok pieces.flatten ∧ pieces.length = levels.length ∧
    ReadsFold (loadRoot id) none pieces history

theorem Saved.cons {levels : List Level} {level : Level} {history history' : Option (RootNamespaceHistory Address)}
    (hsaved : Saved id levels history) {childrenBytes : List UInt8}
    (hsave : saveRootNamespace level (levels.head?.map Prod.fst) = .ok (rootBytes level.1 childrenBytes))
    (hread : Reads (loadRoot id history) (rootBytes level.1 childrenBytes) history') :
    Saved id (level :: levels) history' := by
  obtain ⟨pieces, hpieces, hlength, hfold⟩ := hsaved
  refine ⟨pieces ++ [rootBytes level.1 childrenBytes], ?_, by simp [hlength], ?_⟩
  · rw [saveRoots, hpieces, hsave, List.flatten_append, List.flatten_singleton]
    rfl
  · exact hfold.append (.cons hread (rootBytes_ne_nil _) (.nil _))

theorem head?_levels (rest : List (SharedRoots Address)) :
    (rest.flatMap SharedRoots.levels).head?.map Prod.fst = rest.head?.map SharedRoots.back := by
  cases rest <;> rfl

theorem saved_roots {children : Children Address} (hsaved : Saved id (rest.flatMap SharedRoots.levels)
      (RootNamespaceHistory.ofGroups id rest)) {root : RootNamespace Address} {roots : List (RootNamespace Address)}
    (hs : StorableGroup id ⟨root, roots, children⟩) (hfits : FitsGroup ⟨root, roots, children⟩)
    (hchain : Chained ⟨root, roots, children⟩)
    (hnext : ∀ t ∈ rest.head?, (oldest ⟨root, roots, children⟩).canExtend t.back = false) :
    Saved id (SharedRoots.levels ⟨root, roots, children⟩ ++ rest.flatMap SharedRoots.levels)
      (some ⟨id, ⟨root, roots, children⟩, rest⟩) := by
  induction roots generalizing root with
  | nil =>
    have hroot := hs.ids root List.mem_cons_self
    have hsized := hs.sized root List.mem_cons_self
    refine hsaved.cons ?_ (reads_loadRoot (hs.children.reads_unshared hfits.paths hfits.size hsized hroot hnext))
    rw [head?_levels, saveRootNamespace_unshared, hs.children.saveChildren_eq hroot hfits.paths]
    · rfl
    · intro previous hprevious
      obtain ⟨t, ht, rfl⟩ := Option.map_eq_some_iff.1 hprevious
      exact hnext t ht
  | cons back roots ih =>
    obtain ⟨hcan, hchain⟩ := List.isChain_cons_cons.1 hchain
    have holder := ih ⟨fun r hr => hs.ids r (List.mem_cons_of_mem _ hr), fun r hr =>
      hs.sized r (List.mem_cons_of_mem _ hr),
      hs.children⟩ ⟨hfits.size, hfits.paths⟩ hchain (by simpa [oldest, SharedRoots.roots] using hnext)
    refine holder.cons ?_ (reads_shared (hs.sized root List.mem_cons_self) (hs.ids root List.mem_cons_self) hcan)
    exact saveRootNamespace_shared hcan

theorem saved_groups (hgroups : ∀ s ∈ groups, StorableGroup id s) (hfits : ∀ s ∈ groups, FitsGroup s)
    (hlinked : Linked groups) :
    Saved id (groups.flatMap SharedRoots.levels) (RootNamespaceHistory.ofGroups id groups) := by
  induction groups with
  | nil => exact ⟨[], rfl, rfl, .nil none⟩
  | cons s rest ih =>
    obtain ⟨hchain, hnext, hrest⟩ := hlinked
    have holder := ih (fun t ht => hgroups t (List.mem_cons_of_mem _ ht))
      (fun t ht => hfits t (List.mem_cons_of_mem _ ht)) hrest
    exact saved_roots holder (hgroups s List.mem_cons_self) (hfits s List.mem_cons_self) hchain hnext

theorem exists_saveRoots_of_append {levels older : List Level} {bs : List UInt8}
    (hsave : saveRoots (levels ++ older) = .ok bs) : ∃ bs' tail, saveRoots older = .ok bs' ∧ bs = bs' ++ tail := by
  induction levels generalizing bs with
  | nil => exact ⟨bs, [], hsave, (List.append_nil _).symm⟩
  | cons level levels ih =>
    obtain ⟨roots, hroots, hrest⟩ := bind_eq_ok hsave
    obtain ⟨root, -, hok⟩ := bind_eq_ok hrest
    obtain ⟨bs', tail, hbs', rfl⟩ := ih hroots
    cases hok
    exact ⟨bs', tail ++ root, hbs', List.append_assoc ..⟩

theorem exists_roots_eq (s : SharedRoots Address) : ∃ newer, s.roots = newer ++ [s.oldest] :=
  ⟨s.roots.dropLast, (List.dropLast_append_getLast _).symm⟩

theorem fitsGroup_of_saved {newer : List (SharedRoots Address)} {bs : List UInt8} {depth : Nat}
    (hsaved : Saved id (rest.flatMap SharedRoots.levels) (RootNamespaceHistory.ofGroups id rest))
    (hs : StorableGroup id s) (hnext : ∀ t ∈ rest.head?, s.oldest.canExtend t.back = false)
    (hsave : saveRoots ((newer ++ s :: rest).flatMap SharedRoots.levels) = .ok bs)
    (hdepth : (rest.flatMap SharedRoots.levels).length < depth)
    (hload : ¬Fails (loop32 SerializerError.endOfStream (loadRoot id) depth none) bs) : FitsGroup s := by
  obtain ⟨newerRoots, hroots⟩ := exists_roots_eq s
  have hmem : s.oldest ∈ s.roots := by rw [hroots]; simp
  have hoid := hs.ids _ hmem
  obtain ⟨pieces, hpieces, hlength, hfold⟩ := hsaved
  rw [List.flatMap_append, List.flatMap_cons, SharedRoots.levels, hroots, List.map_append, List.append_assoc,
    ← List.append_assoc] at hsave
  obtain ⟨bs', tail, hbs', rfl⟩ := exists_saveRoots_of_append hsave
  obtain ⟨older, holder, hok⟩ := bind_eq_ok hbs'
  obtain rfl := Except.ok.inj (hpieces.symm.trans holder)
  obtain ⟨piece, hpiece, hok⟩ := bind_eq_ok hok
  cases hok
  have hsaveRoot : saveRootNamespace (s.oldest, s.children) (rest.head?.map SharedRoots.back) = .ok piece := by
    rw [← head?_levels]
    exact hpiece
  rw [saveRootNamespace_unshared fun previous hprevious => by
    obtain ⟨t, ht, rfl⟩ := Option.map_eq_some_iff.1 hprevious
    exact hnext t ht] at hsaveRoot
  obtain ⟨childrenBytes, hchildren, hok⟩ := bind_eq_ok hsaveRoot
  cases hok
  have hfit := hs.children.pathsFit_of_saveChildren hoid hchildren
  refine ⟨?_, hfit⟩
  by_contra hnot
  rw [hs.children.saveChildren_eq hoid hfit] at hchildren
  cases hchildren
  -- the loop over the roots gets to the oldest one of the group, whose children are never all loaded
  apply hload
  rw [List.append_assoc]
  refine hfold.loop32_fails ?_ (by omega)
  have hpush := pushBack_unshared hoid hnext
  have hfails := loadRootNamespace_fails (hs.sized _ hmem) (@back_id_of_withAlias id _ _ _ hpush hoid)
    hs.children.sized.size (Nat.le_of_not_lt hnot) (((sortedChildren s.children).map childBytes).flatten ++ tail)
  have hbytes : rootBytes s.oldest (leBytes 8 s.children.size ++
      ((sortedChildren s.children).map childBytes).flatten) ++ tail = rootBytes s.oldest (leBytes 8 s.children.size ++
      (((sortedChildren s.children).map childBytes).flatten ++ tail)) := by
    simp only [rootBytes, List.append_assoc]
  rw [hbytes, loadRoot, map_eq_pure_bind]
  exact hfails.bind

theorem fitsGroups_of_saved {bs : List UInt8} {depth : Nat} (hgroups : ∀ s ∈ groups, StorableGroup id s)
    (hlinked : Linked groups) (newer : List (SharedRoots Address))
    (hsave : saveRoots ((newer ++ groups).flatMap SharedRoots.levels) = .ok bs)
    (hdepth : (groups.flatMap SharedRoots.levels).length ≤ depth)
    (hload : ¬Fails (loop32 SerializerError.endOfStream (loadRoot id) depth none) bs) : ∀ s ∈ groups, FitsGroup s := by
  induction groups generalizing newer with
  | nil => exact fun _ hmem => nomatch hmem
  | cons s rest ih =>
    obtain ⟨-, hnext, hrest⟩ := hlinked
    have hs := hgroups s List.mem_cons_self
    rw [List.flatMap_cons, List.length_append] at hdepth
    have hpos : 0 < s.levels.length := by simp [SharedRoots.roots]
    have hsplit : newer ++ s :: rest = (newer ++ [s]) ++ rest := by rw [List.append_assoc]; rfl
    have holder := ih (fun t ht => hgroups t (List.mem_cons_of_mem _ ht)) hrest (newer ++ [s]) (hsplit ▸ hsave)
      (by omega)
    have hsaved := saved_groups (fun t ht => hgroups t (List.mem_cons_of_mem _ ht)) holder hrest
    intro t ht
    rcases List.mem_cons.1 ht with rfl | ht
    · exact fitsGroup_of_saved hsaved hs hnext hsave (by omega) hload
    · exact holder t ht

end Groups

section RoundTrip
variable {cache : NamespaceCacheDelta Address} {id : NamespaceId} {h : RootNamespaceHistory Address} {pruned : Nat}

/-- A history is read back and is saved with the same bytes again. The serializer without histories does so with the
most recent root. -/
structure RoundTrips (h : RootNamespaceHistory Address) : Prop where
  historical : ∃ bs h', save h = .ok bs ∧ Reads load bs (h'.id, some h') ∧ h' = h ∧ save h' = .ok bs
  nonHistorical : ∃ bs h', saveNonHistorical h = .ok bs ∧ Reads loadNonHistorical bs h' ∧ h'.id = h.id ∧
    h'.levels = [(h.back, h.activeChildren)] ∧ saveNonHistorical h' = .ok bs

/-- The roots and the children can be counted with 32 bits, and the ids of a path with one byte. -/
structure Fits (h : RootNamespaceHistory Address) : Prop where
  historyDepth : h.historyDepth < 2 ^ 32
  groups : ∀ s ∈ h.groups, FitsGroup s

theorem storableGroup_of_reachable (hreachable : NamespaceCacheDelta.ReachableAbove pruned cache)
    (hfind : cache.historyById.find? id = some h) (hsized : Sized h) : ∀ s ∈ h.groups, StorableGroup h.id s := by
  have hc := hreachable.sound.coherent
  have hnested := hreachable.sound.nested id h hfind
  have hid := hc.id_eq _ _ hfind
  have hvalid := hc.valid _ _ hfind
  intro s hs
  have hroots : ∀ root ∈ s.roots, root ∈ h.roots := fun root hroot => List.mem_flatMap.2 ⟨s, hs, hroot⟩
  refine ⟨fun root hroot => (hnested.ids root (hroots root hroot)).trans hid.symm,
    fun root hroot => hsized.roots root (hroots root hroot), ?_⟩
  refine ⟨fun k child hchild => (hvalid.children s hs k child hchild).1,
    fun k child hchild => (hvalid.children s hs k child hchild).2, fun k child hchild heq => ?_,
    hnested.nested s hs, hsized.children s hs⟩
  -- the id of a child is not the id of a root
  have hhas : h.HasChild k := RootNamespaceHistory.hasChild_iff.2 ⟨s, hs, SortedMap.mem_keys_iff.2 ⟨child, hchild⟩⟩
  have hnone := (hc.canOwn id h k hfind hhas).1
  rw [heq, hid, hfind] at hnone
  cases hnone

theorem reads_load {bs : List UInt8} {history : Option (RootNamespaceHistory Address)} (hsized : Sized h)
    (hread : Reads (loop32 .endOfStream (loadRoot h.id) h.historyDepth none) bs history) :
    Reads load (saveHeader h .includeHistoryDepth ++ bs) (h.id, history) :=
  (reads_header hsized).bind hread.bind_pure

theorem load_fails {bs : List UInt8} (hsized : Sized h)
    (hfails : Fails (loop32 .endOfStream (loadRoot h.id) h.historyDepth none) bs) :
    Fails load (saveHeader h .includeHistoryDepth ++ bs) :=
  (reads_header hsized).fails_bind hfails.bind

theorem reads_of_fits (hgroups : ∀ s ∈ h.groups, StorableGroup h.id s) (hlinked : Linked h.groups) (hsized : Sized h)
    (hfits : Fits h) : ∃ bs, save h = .ok bs ∧ Reads load bs (h.id, some h) := by
  obtain ⟨pieces, hpieces, hlength, hfold⟩ := saved_groups hgroups hfits.groups hlinked
  have hsave : saveRoots h.levels = .ok pieces.flatten := hpieces
  refine ⟨saveHeader h .includeHistoryDepth ++ pieces.flatten, by rw [save, hsave]; rfl, reads_load hsized ?_⟩
  have hdepth : pieces.length = h.historyDepth := hlength
  rw [← hdepth]
  exact hfold.loop32 (hdepth ▸ hfits.historyDepth)

theorem reads_nonHistorical_of_fits (hgroup : StorableGroup h.id h.last) (hsized : Sized h) (hfits : FitsGroup h.last) :
    ∃ bs h', saveNonHistorical h = .ok bs ∧ Reads loadNonHistorical bs h' ∧ h'.id = h.id ∧
      h'.levels = [(h.back, h.activeChildren)] ∧ saveNonHistorical h' = .ok bs := by
  have hmem : h.last.back ∈ h.last.roots := List.mem_cons_self
  have hroot := hgroup.ids _ hmem
  have hsave : saveRootNamespace (h.back, h.activeChildren) none =
    .ok (rootBytes h.back (leBytes 8 h.activeChildren.size ++
      ((sortedChildren h.activeChildren).map childBytes).flatten)) := by
    have hchildren : saveChildren (h.back, h.activeChildren) = .ok (leBytes 8 h.activeChildren.size ++
        ((sortedChildren h.activeChildren).map childBytes).flatten) := hgroup.children.saveChildren_eq hroot hfits.paths
    rw [saveRootNamespace_unshared (by simp), hchildren]
    rfl
  refine ⟨_, ⟨h.id, ⟨h.back, [], h.activeChildren⟩, []⟩, by rw [saveNonHistorical, hsave]; rfl, ?_, rfl, rfl, ?_⟩
  · refine (Reads.nat hsized.id).bind_pure.bind ?_
    exact @Storable.reads_unshared h.id _ _ [] hgroup.children hfits.paths hfits.size (hgroup.sized _ hmem) hroot
      (by simp)
  · rw [saveNonHistorical]
    change saveRootNamespace (h.back, h.activeChildren) none >>= _ = _
    rw [hsave]
    rfl

theorem fits_of_reads (hgroups : ∀ s ∈ h.groups, StorableGroup h.id s) (hlinked : Linked h.groups) (hsized : Sized h)
    {bs : List UInt8} {result : NamespaceId × Option (RootNamespaceHistory Address)} (hsave : save h = .ok bs)
    (hread : Reads load bs result) : Fits h := by
  obtain ⟨roots, hroots, hok⟩ := bind_eq_ok hsave
  cases hok
  have hload : ¬Fails (loop32 .endOfStream (loadRoot h.id) h.historyDepth none) roots := fun hfails =>
    load_fails hsized hfails _ _ hread.run
  refine ⟨?_, fitsGroups_of_saved hgroups hlinked [] hroots (Nat.le_refl _) hload⟩
  by_contra hnot
  exact hload (loop32_fails (Nat.le_of_not_lt hnot) roots)

/-- A history in a cache that is reached is read back exactly when it fits. -/
theorem roundTrips_iff (hreachable : NamespaceCacheDelta.ReachableAbove pruned cache)
    (hfind : cache.historyById.find? id = some h) (hsized : Sized h) : RoundTrips h ↔ Fits h := by
  have hgroups := storableGroup_of_reachable hreachable hfind hsized
  have hlinked := (hreachable.sound.coherent.valid _ _ hfind).linked
  constructor
  · rintro ⟨⟨bs, h', hsave, hread, rfl, -⟩, -⟩
    exact fits_of_reads hgroups hlinked hsized hsave hread
  · intro hfits
    obtain ⟨bs, hsave, hread⟩ := reads_of_fits hgroups hlinked hsized hfits
    exact ⟨⟨bs, h, hsave, hread, rfl, hsave⟩, reads_nonHistorical_of_fits (hgroups h.last List.mem_cons_self) hsized
      (hfits.groups h.last List.mem_cons_self)⟩

end RoundTrip

section Renewals
open NamespaceCacheDelta

def renewedOwner : Address := ⟨List.replicate 24 1, rfl⟩

def renewedRoot (n : Nat) : RootNamespace Address := ⟨1, renewedOwner, ⟨n, n + 2, by omega⟩, .none⟩

def olderRoots : Nat → List (RootNamespace Address)
  | 0 => []
  | n + 1 => renewedRoot n :: olderRoots n

/-- A root that was renewed `n` times. -/
def renewedHistory (n : Nat) : RootNamespaceHistory Address := ⟨1, ⟨renewedRoot n, olderRoots n, ∅⟩, []⟩

def renewals : Nat → NamespaceCacheDelta Address
  | 0 => Operation.apply empty (.insertRoot (renewedRoot 0))
  | n + 1 => Operation.apply (renewals n) (.insertRoot (renewedRoot (n + 1)))

theorem pushBack_renewedHistory (n : Nat) :
    (renewedHistory n).pushBack renewedOwner (renewedRoot (n + 1)).lifetime = renewedHistory (n + 1) := by
  have hcan : (⟨1, renewedOwner, (renewedRoot (n + 1)).lifetime, .none⟩ : RootNamespace Address).canExtend
      (renewedRoot n) = true := by
    simp [RootNamespace.canExtend, NamespaceLifetime.isActive, renewedRoot]
  rw [RootNamespaceHistory.pushBack_of_canExtend hcan]
  rfl

theorem not_hasChild_renewedHistory (n : Nat) (k : NamespaceId) : ¬(renewedHistory n).HasChild k := by
  rw [RootNamespaceHistory.hasChild_iff]
  rintro ⟨s, hs, hmem⟩
  rw [List.mem_singleton.1 hs] at hmem
  exact nomatch hmem

theorem reachable_renewals (n : Nat) : ReachableAbove 0 (renewals n) ∧
    ∀ k, (renewals n).historyById.find? k = if k = 1 then some (renewedHistory n) else none := by
  induction n with
  | zero =>
    refine ⟨.step (.insertRoot (renewedRoot 0)) .empty ⟨fun h hfind => (nomatch hfind), fun k h hfind => nomatch hfind⟩
      (by simp [Registers, renewedRoot]), fun k => ?_⟩
    obtain ⟨cache', hrun, hr, -⟩ := insertRoot_spec coherent_empty (renewedRoot 0)
    simp only [renewals, Operation.apply, hrun, stateOf]
    exact Coherent.find_history_of_replaces hr k
  | succ n ih =>
    obtain ⟨hreachable, hfind⟩ := ih
    have hadmissible : (renewals n).Admissible (.insertRoot (renewedRoot (n + 1))) := by
      refine ⟨fun h hh => ?_, fun k h hh => ?_⟩
      · change (renewals n).historyById.find? 1 = some h at hh
        rw [hfind, if_pos rfl] at hh
        cases hh
        change n + 2 < n + 1 + 2
        omega
      · rw [hfind] at hh
        split at hh
        · cases hh
          exact not_hasChild_renewedHistory n _
        · cases hh
    refine ⟨hreachable.step (.insertRoot (renewedRoot (n + 1))) hadmissible (by simp [Registers, renewedRoot]),
      fun k => ?_⟩
    obtain ⟨cache', hrun, hr, -⟩ := insertRoot_spec hreachable.sound.coherent (renewedRoot (n + 1))
    simp only [renewals, Operation.apply, hrun, stateOf]
    have hroot : (renewals n).historyById.find? (renewedRoot (n + 1)).id = some (renewedHistory n) := hfind 1
    rw [historyWith, hroot] at hr
    rw [Coherent.find_history_of_replaces hr, hfind]
    by_cases hk : k = 1
    · rw [if_pos (show k = (renewedRoot (n + 1)).id from hk), if_pos hk]
      exact congrArg some (pushBack_renewedHistory n)
    · rw [if_neg (show k ≠ (renewedRoot (n + 1)).id from hk), if_neg hk, if_neg hk]

theorem mem_olderRoots {n : Nat} {root : RootNamespace Address} (hmem : root ∈ olderRoots n) :
    ∃ i, i < n ∧ root = renewedRoot i := by
  induction n with
  | zero => cases hmem
  | succ n ih =>
    rcases List.mem_cons.1 hmem with rfl | hmem
    · exact ⟨n, by omega, rfl⟩
    · obtain ⟨i, hlt, rfl⟩ := ih hmem
      exact ⟨i, by omega, rfl⟩

theorem length_olderRoots (n : Nat) : (olderRoots n).length = n := by
  induction n with
  | zero => rfl
  | succ n ih => rw [olderRoots, List.length_cons, ih]

theorem historyDepth_renewedHistory (n : Nat) : (renewedHistory n).historyDepth = n + 1 := by
  rw [RootNamespaceHistory.historyDepth_eq]
  simp [renewedHistory, RootNamespaceHistory.groups, SharedRoots.roots, length_olderRoots]

theorem sized_renewedHistory {n : Nat} (hlt : n + 2 < 256 ^ 8) : Sized (renewedHistory n) := by
  refine ⟨by simp [renewedHistory], by rw [historyDepth_renewedHistory]; omega, fun root hroot => ?_, fun s hs => ?_⟩
  · obtain ⟨i, hle, rfl⟩ : ∃ i, i ≤ n ∧ root = renewedRoot i := by
      simp only [renewedHistory, RootNamespaceHistory.roots, RootNamespaceHistory.groups, List.flatMap_cons,
        List.flatMap_nil, List.append_nil, SharedRoots.roots] at hroot
      rcases List.mem_cons.1 hroot with rfl | hroot
      · exact ⟨n, Nat.le_refl _, rfl⟩
      · obtain ⟨i, hlt, rfl⟩ := mem_olderRoots hroot
        exact ⟨i, Nat.le_of_lt hlt, rfl⟩
    exact ⟨by change i < _; omega, by change i + 2 < _; omega, trivial⟩
  · rw [List.mem_singleton.1 hs]
    exact ⟨by simp [renewedHistory], by rintro _ _ ⟨⟩, by rintro _ _ ⟨⟩⟩

/-- A root that was renewed once is read back. -/
theorem roundTrips_renewed_once : RoundTrips (renewedHistory 1) := by
  obtain ⟨hreachable, hfind⟩ := reachable_renewals 1
  refine (roundTrips_iff hreachable (hfind 1) (sized_renewedHistory (by decide))).2 ⟨by decide, fun s hs => ?_⟩
  rw [List.mem_singleton.1 hs]
  exact ⟨by decide, fun _ _ hfind => nomatch hfind⟩

/-- A root that was renewed so often that the roots cannot be counted with 32 bits is not read back. -/
theorem not_roundTrips_renewed : (∃ cache, ReachableAbove 0 cache ∧
      cache.historyById.find? 1 = some (renewedHistory (2 ^ 32 - 1))) ∧
    Sized (renewedHistory (2 ^ 32 - 1)) ∧ ¬RoundTrips (renewedHistory (2 ^ 32 - 1)) := by
  obtain ⟨hreachable, hfind⟩ := reachable_renewals (2 ^ 32 - 1)
  have hsized : Sized (renewedHistory (2 ^ 32 - 1)) := sized_renewedHistory (by decide)
  refine ⟨⟨_, hreachable, hfind 1⟩, hsized, fun htrips => ?_⟩
  obtain ⟨bs, h', hsave, hread, -, -⟩ := htrips.historical
  have hfits := fits_of_reads (storableGroup_of_reachable hreachable (hfind 1) hsized)
    (hreachable.sound.coherent.valid _ _ (hfind 1)).linked hsized hsave hread
  have hdepth := hfits.historyDepth
  rw [historyDepth_renewedHistory] at hdepth
  omega

end Renewals
end Catapult.Namespaces.Serializer
