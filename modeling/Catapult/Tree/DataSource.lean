import Catapult.Tree.Simulation

/-!
# Data sources of patricia trees

A data source holds nodes by their hash. What is saved are nodes whose links are references (`Saved`). When the hash
tells the saved nodes that occur apart (`CollisionFree`), it does not matter whether saving replaces a node or keeps the
one that was there (`DataSource`).
-/

namespace Catapult.Tree
variable {Hash : Type*}

def TreeNode.Saved (hasher : NodeHasher Hash) : TreeNode Hash → Prop
  | leaf _ _ => True
  | branch _ links => ∀ i, links i = .empty ∨ ∃ hash, hash ≠ hasher.zero ∧ links i = .reference hash
  | _ => False

/-- Saved nodes that the hash tells apart, none of them with the zero hash. -/
structure CollisionFree (hasher : NodeHasher Hash) (nodes : Set (TreeNode Hash)) : Prop where
  saved : ∀ node ∈ nodes, node.Saved hasher
  inj : Set.InjOn (fun node => node.hash hasher) nodes
  ne_zero : ∀ node ∈ nodes, node.hash hasher ≠ hasher.zero

def Sound (hasher : NodeHasher Hash) (nodes : Set (TreeNode Hash)) (get : Hash → TreeNode Hash) : Prop :=
  ∀ hash, get hash = .empty ∨ (get hash ∈ nodes ∧ (get hash).hash hasher = hash)

/-- The operations of a data source. A node that is saved again may replace the node or leave it. -/
structure DataSource (hasher : NodeHasher Hash) (Source : Type*) where
  get : Source → Hash → TreeNode Hash
  set : Source → TreeNode Hash → Source
  get_set_of_ne : ∀ source node hash, hash ≠ node.hash hasher → get (set source node) hash = get source hash
  get_set_self : ∀ source node, node.Saved hasher → get (set source node) (node.hash hasher) = node ∨
    (get source (node.hash hasher) ≠ .empty ∧ get (set source node) (node.hash hasher) = get source (node.hash hasher))

theorem Extends.refl (store : Hash → TreeNode Hash) : Extends store store := fun _ _ => rfl

theorem Extends.trans {s₁ s₂ s₃ : Hash → TreeNode Hash} (h₁ : Extends s₁ s₂) (h₂ : Extends s₂ s₃) : Extends s₁ s₃ := by
  intro hash hne
  have h := h₁ hash hne
  rw [h₂ hash (by rwa [h]), h]

section CollisionFree
variable {hasher : NodeHasher Hash} {nodes : Set (TreeNode Hash)} (hfree : CollisionFree hasher nodes)
include hfree

theorem Sound.zero {get : Hash → TreeNode Hash} (h : Sound hasher nodes get) : get hasher.zero = .empty := by
  rcases h hasher.zero with h | ⟨hmem, hhash⟩
  · exact h
  · exact absurd hhash (hfree.ne_zero _ hmem)

theorem Sound.readable {store : Hash → TreeNode Hash} (h : Sound hasher nodes store) : Readable hasher store store :=
  ⟨Extends.refl _, Sound.zero hfree h⟩

namespace DataSource
variable {Source : Type*} (api : DataSource hasher Source) {source : Source} {node : TreeNode Hash}

theorem get_set (hs : Sound hasher nodes (api.get source)) (hn : node ∈ nodes) :
    api.get (api.set source node) (node.hash hasher) = node := by
  rcases api.get_set_self source node (hfree.saved _ hn) with h | ⟨hne, h⟩
  · exact h
  · rw [h]
    obtain ⟨hmem, hhash⟩ := (hs (node.hash hasher)).resolve_left hne
    exact hfree.inj hmem hn hhash

theorem sound_set (hs : Sound hasher nodes (api.get source)) (hn : node ∈ nodes) :
    Sound hasher nodes (api.get (api.set source node)) := by
  intro hash
  by_cases hh : hash = node.hash hasher
  · subst hh
    rw [api.get_set hfree hs hn]
    exact .inr ⟨hn, rfl⟩
  · rw [api.get_set_of_ne _ _ _ hh]
    exact hs hash

theorem extends_set (hs : Sound hasher nodes (api.get source)) (hn : node ∈ nodes) :
    Extends (api.get source) (api.get (api.set source node)) := by
  intro hash hne
  by_cases hh : hash = node.hash hasher
  · subst hh
    rw [api.get_set hfree hs hn]
    obtain ⟨hmem, hhash⟩ := (hs (node.hash hasher)).resolve_left hne
    exact hfree.inj hn hmem hhash.symm
  · exact api.get_set_of_ne _ _ _ hh

theorem get_foldl_set (hs : Sound hasher nodes (api.get source)) {l : List (TreeNode Hash)}
    (hl : ∀ node ∈ l, node ∈ nodes) :
    Sound hasher nodes (api.get (l.foldl api.set source)) ∧
      Extends (api.get source) (api.get (l.foldl api.set source)) ∧
      ∀ node ∈ l, api.get (l.foldl api.set source) (node.hash hasher) = node := by
  induction l generalizing source with
  | nil => exact ⟨hs, Extends.refl _, fun node h => by simp at h⟩
  | cons n l ih =>
    obtain ⟨hn, hl⟩ := List.forall_mem_cons.1 hl
    obtain ⟨hsound, hext, hget⟩ := ih (api.sound_set hfree hs hn) hl
    refine ⟨hsound, (api.extends_set hfree hs hn).trans hext, fun node hnode => ?_⟩
    rcases List.mem_cons.1 hnode with rfl | hnode
    · have hself := api.get_set hfree hs hn
      rw [List.foldl_cons, hext _ (by rw [hself]; rintro rfl; exact hfree.saved _ hn), hself]
    · exact hget node hnode

end DataSource
end CollisionFree

def linkTo (hasher : NodeHasher Hash) : Trie Nibble Hash → TreeNode Hash
  | .empty => .empty
  | t => .reference (trieHash hasher t)

def savedNode (hasher : NodeHasher Hash) : Trie Nibble Hash → TreeNode Hash
  | .empty => .empty
  | .leaf path value => .leaf path value
  | .branch path children => .branch path fun i => linkTo hasher (children i)

def Stored (hasher : NodeHasher Hash) (store : Hash → TreeNode Hash) : Trie Nibble Hash → Prop
  | .empty => True
  | .leaf path value => store (trieHash hasher (.leaf path value)) = .leaf path value
  | .branch path children =>
    store (trieHash hasher (.branch path children)) = savedNode hasher (.branch path children) ∧
      ∀ i, Stored hasher store (children i)

/-- The nodes of the trie, as they are saved, are among `nodes`. -/
def NodesIn (hasher : NodeHasher Hash) (nodes : Set (TreeNode Hash)) : Trie Nibble Hash → Prop
  | .empty => True
  | .leaf path value => .leaf path value ∈ nodes
  | .branch path children => savedNode hasher (.branch path children) ∈ nodes ∧ ∀ i, NodesIn hasher nodes (children i)

theorem NodesIn.mem {hasher : NodeHasher Hash} {nodes : Set (TreeNode Hash)} {t : Trie Nibble Hash}
    (h : NodesIn hasher nodes t) (ht : t ≠ .empty) : savedNode hasher t ∈ nodes := by
  cases t with
  | empty => exact absurd rfl ht
  | leaf path value => exact h
  | branch path children => exact h.1

namespace Stored
variable {hasher : NodeHasher Hash} {nodes : Set (TreeNode Hash)} {store store' : Hash → TreeNode Hash}
  {t : Trie Nibble Hash}

theorem get_eq (h : Stored hasher store t) (ht : t ≠ .empty) : store (trieHash hasher t) = savedNode hasher t := by
  cases t with
  | empty => exact absurd rfl ht
  | leaf path value => exact h
  | branch path children => exact h.1

theorem savedNode_ne_empty (ht : t ≠ .empty) : savedNode hasher t ≠ .empty := by
  cases t with
  | empty => exact absurd rfl ht
  | leaf path value => simp [savedNode]
  | branch path children => simp [savedNode]

theorem mono (h : Stored hasher store t) (hle : Extends store store') : Stored hasher store' t := by
  induction t with
  | empty => trivial
  | leaf path value =>
    have hget : store (trieHash hasher (.leaf path value)) = .leaf path value := h
    show store' _ = _
    rw [hle _ (by rw [hget]; simp), hget]
  | branch path children ih =>
    refine ⟨?_, fun i => ih i (h.2 i)⟩
    rw [hle _ (by rw [h.1]; exact savedNode_ne_empty (by simp)), h.1]

theorem denotes (h : Stored hasher store t) : Denotes hasher store t (savedNode hasher t) := by
  induction t with
  | empty => rfl
  | leaf path value => rfl
  | branch path children ih =>
    refine Denotes.of_links fun i => ?_
    cases hc : children i with
    | empty => exact .inl rfl
    | leaf p v =>
      refine .inr ⟨by simp, rfl, ?_⟩
      have hi := h.2 i
      rw [hc] at hi
      rw [hi.get_eq (by simp)]
      rfl
    | branch p c =>
      have hi := h.2 i
      have ihi := ih i hi
      rw [hc] at hi ihi
      refine .inr ⟨by simp, rfl, ?_⟩
      rw [hi.get_eq (by simp)]
      exact ihi

theorem of_denotes (hfree : CollisionFree hasher nodes) (hs : Sound hasher nodes store) (ht : t ≠ .empty)
    (h : Denotes hasher store t (store (trieHash hasher t))) : Stored hasher store t := by
  induction t with
  | empty => exact absurd rfl ht
  | leaf path value => exact h
  | branch path children ih =>
    obtain ⟨links, heq, hlinks⟩ := h
    have hsaved := hfree.saved _ ((hs _).resolve_left (by rw [heq]; simp)).1
    rw [heq] at hsaved
    have hchild : ∀ i, links i = linkTo hasher (children i) ∧ Stored hasher store (children i) := by
      intro i
      rcases hlinks i with hi | ⟨hne, hi, hd⟩
      · -- a saved node has no linked nodes
        cases hc : children i with
        | empty => rw [hc] at hi; exact ⟨hi, trivial⟩
        | leaf p v =>
          rw [hc] at hi
          rcases hsaved i with hl | ⟨hash, -, hl⟩ <;> rw [hl] at hi <;> cases hi
        | branch p c =>
          rw [hc] at hi
          obtain ⟨links', hl', -⟩ := hi
          rcases hsaved i with hl | ⟨hash, -, hl⟩ <;> rw [hl] at hl' <;> cases hl'
      · refine ⟨?_, ih i hne hd⟩
        rw [hi]
        cases hc : children i with
        | empty => exact absurd hc hne
        | leaf p v => rfl
        | branch p c => rfl
    refine ⟨?_, fun i => (hchild i).2⟩
    rw [heq, savedNode]
    congr 1
    funext i
    exact (hchild i).1

end Stored

/-- The hashes of the nodes that are reachable from a root through the data source. -/
inductive Reachable (hasher : NodeHasher Hash) (get : Hash → TreeNode Hash) (rootHash : Hash) : Hash → Prop
  | root (h : rootHash ≠ hasher.zero) : Reachable hasher get rootHash rootHash
  | link {hash : Hash} {path : TreeNodePath} {links : Nibble → TreeNode Hash} (h : Reachable hasher get rootHash hash)
      (hget : get hash = .branch path links) (i : Nibble) (hi : (links i).hash hasher ≠ hasher.zero) :
      Reachable hasher get rootHash ((links i).hash hasher)

theorem hash_linkTo (hasher : NodeHasher Hash) (t : Trie Nibble Hash) :
    (linkTo hasher t).hash hasher = trieHash hasher t := by
  cases t <;> rfl

theorem hash_savedNode (hasher : NodeHasher Hash) (t : Trie Nibble Hash) :
    (savedNode hasher t).hash hasher = trieHash hasher t := by
  cases t with
  | empty => rfl
  | leaf path value => rfl
  | branch path children =>
    rw [savedNode, TreeNode.hash, trieHash]
    simp only [hash_linkTo]

theorem Stored.get_ne_empty {hasher : NodeHasher Hash} {store : Hash → TreeNode Hash} {t : Trie Nibble Hash}
    {hash : Hash} (h : Stored hasher store t)
    (hreach : Reachable hasher store (trieHash hasher t) hash) : store hash ≠ .empty := by
  have hsub : ∃ u, u ≠ .empty ∧ hash = trieHash hasher u ∧ Stored hasher store u := by
    induction hreach with
    | root hne => exact ⟨t, fun ht => hne (by rw [ht]; rfl), rfl, h⟩
    | link _ hget i hi ih =>
      obtain ⟨u, hu, rfl, hstored⟩ := ih
      rw [hstored.get_eq hu] at hget
      cases u with
      | empty => exact absurd rfl hu
      | leaf path value => cases hget
      | branch path children =>
        cases hget
        rw [hash_linkTo] at hi ⊢
        exact ⟨children i, fun hc => hi (by rw [hc]; rfl), rfl, hstored.2 i⟩
  obtain ⟨u, hu, rfl, hstored⟩ := hsub
  rw [hstored.get_eq hu]
  exact Stored.savedNode_ne_empty hu

theorem trieHash_ne_zero {hasher : NodeHasher Hash} {nodes : Set (TreeNode Hash)} (hfree : CollisionFree hasher nodes)
    {t : Trie Nibble Hash} (h : NodesIn hasher nodes t) (ht : t ≠ .empty) : trieHash hasher t ≠ hasher.zero := by
  rw [← hash_savedNode]
  exact hfree.ne_zero _ (h.mem ht)

/-- `hasLinkedNode`. -/
def TreeNode.isLinked : TreeNode Hash → Bool
  | leaf .. => true
  | branch .. => true
  | _ => false

/-- `compactLinks`: every linked node becomes a reference. -/
def compactLinks (hasher : NodeHasher Hash) (links : Nibble → TreeNode Hash) : Nibble → TreeNode Hash :=
  fun i => if (links i).isLinked then .reference ((links i).hash hasher) else links i

/-- `saveAll`: the linked nodes of a branch are saved before the branch with compacted links. -/
def saveAll {Source : Type*} (hasher : NodeHasher Hash) (save : Source → TreeNode Hash → Source) :
    TreeNode Hash → Source → Source
  | .branch path links, source =>
    let source := (List.finRange 16).foldl
      (fun source i => if (links i).isLinked then saveAll hasher save (links i) source else source) source
    save source (.branch path (compactLinks hasher links))
  | node, source => save source node

section SaveAll
variable {hasher : NodeHasher Hash} {nodes : Set (TreeNode Hash)} {Source : Type*} {api : DataSource hasher Source}
  {source source' : Source} {t : Trie Nibble Hash} {node : TreeNode Hash}

/-- The data source has changed from `source` to `source'` by saving some of `nodes`. -/
structure Saves (api : DataSource hasher Source) (nodes : Set (TreeNode Hash)) (source source' : Source) : Prop where
  sound : Sound hasher nodes (api.get source')
  ext : Extends (api.get source) (api.get source')
  keeps : ∀ P : Source → Prop, (∀ s, ∀ node ∈ nodes, P s → P (api.set s node)) → P source → P source'

theorem Saves.refl (hs : Sound hasher nodes (api.get source)) : Saves api nodes source source :=
  ⟨hs, .refl _, fun _ _ h => h⟩

theorem Saves.trans {source'' : Source} (h : Saves api nodes source source') (h' : Saves api nodes source' source'') :
    Saves api nodes source source'' :=
  ⟨h'.sound, h.ext.trans h'.ext, fun P hset hp => h'.keeps P hset (h.keeps P hset hp)⟩

/-- The data source has all nodes of the trie afterwards. -/
structure SavedIn (api : DataSource hasher Source) (nodes : Set (TreeNode Hash)) (source source' : Source)
    (t : Trie Nibble Hash) : Prop extends Saves api nodes source source' where
  stored : Stored hasher (api.get source') t

theorem savedIn_set (hfree : CollisionFree hasher nodes) (hs : Sound hasher nodes (api.get source))
    (hmem : savedNode hasher t ∈ nodes) (ht : t ≠ .empty)
    (hchildren : ∀ path children, t = .branch path children → ∀ i, Stored hasher (api.get source) (children i)) :
    SavedIn api nodes source (api.set source (savedNode hasher t)) t := by
  have hext := api.extends_set hfree hs hmem
  refine ⟨⟨api.sound_set hfree hs hmem, hext, fun P hset hp => hset _ _ hmem hp⟩, ?_⟩
  have hget := api.get_set hfree hs hmem
  rw [hash_savedNode] at hget
  cases t with
  | empty => exact absurd rfl ht
  | leaf path value => exact hget
  | branch path children => exact ⟨hget, fun i => (hchildren path children rfl i).mono hext⟩

theorem saves_foldl {children : Nibble → Trie Nibble Hash} {step : Source → Nibble → Source}
    (hstep : ∀ s i, Saves api nodes source s → SavedIn api nodes s (step s i) (children i))
    (indexes : List Nibble) {s : Source} (h : Saves api nodes source s) :
    Saves api nodes s (indexes.foldl step s) ∧
      ∀ i ∈ indexes, Stored hasher (api.get (indexes.foldl step s)) (children i) := by
  induction indexes generalizing s with
  | nil => exact ⟨.refl h.sound, fun i hi => by simp at hi⟩
  | cons i indexes ih =>
    have hi := hstep s i h
    obtain ⟨hsaves, hstored⟩ := ih (h.trans hi.toSaves)
    refine ⟨hi.toSaves.trans hsaves, fun j hj => ?_⟩
    rcases List.mem_cons.1 hj with rfl | hj
    · exact hi.stored.mono hsaves.ext
    · exact hstored j hj

theorem LinkDenotes.compact {links : Nibble → TreeNode Hash} {store : Hash → TreeNode Hash} {i : Nibble}
    (h : LinkDenotes hasher store t (links i)) : compactLinks hasher links i = linkTo hasher t := by
  unfold compactLinks
  rcases h with h | ⟨hne, h, -⟩
  · cases t with
    | empty => rw [show links i = .empty from h]; rfl
    | leaf path value => rw [show links i = .leaf path value from h]; rfl
    | branch path children =>
      have hhash := h.hash_eq
      obtain ⟨links', hl, -⟩ := h
      rw [hl] at hhash ⊢
      simp only [TreeNode.isLinked, if_true, hhash]
      rfl
  · rw [h]
    cases t with
    | empty => exact absurd rfl hne
    | leaf path value => rfl
    | branch path children => rfl

theorem savedIn_saveAll (hfree : CollisionFree hasher nodes) (hs : Sound hasher nodes (api.get source))
    (h : Denotes hasher (api.get source) t node) (hnodes : NodesIn hasher nodes t) (ht : t ≠ .empty) :
    SavedIn api nodes source (saveAll hasher api.set node source) t := by
  induction t generalizing node source with
  | empty => exact absurd rfl ht
  | leaf path value =>
    rw [show node = .leaf path value from h, saveAll]
    · exact savedIn_set hfree hs (hnodes.mem ht) ht nofun
    · simp
  | branch path children ih =>
    obtain ⟨links, rfl, hlinks⟩ := h
    rw [saveAll]
    have hstep : ∀ s i, Saves api nodes source s → SavedIn api nodes s
        (if (links i).isLinked then saveAll hasher api.set (links i) s else s) (children i) := by
      intro s i hsaves
      rcases hlinks i with hi | ⟨hne, hi, hd⟩
      · by_cases hc : children i = .empty
        · rw [hc] at hi ⊢
          rw [show links i = .empty from hi]
          exact ⟨.refl hsaves.sound, trivial⟩
        · have hlinked : (links i).isLinked = true := by
            cases hchild : children i with
            | empty => exact absurd hchild hc
            | leaf p v => rw [hchild] at hi; rw [show links i = .leaf p v from hi]; rfl
            | branch p c => rw [hchild] at hi; obtain ⟨l, hl, -⟩ := hi; rw [hl]; rfl
          rw [if_pos hlinked]
          exact ih i hsaves.sound (hi.mono hsaves.ext) (hnodes.2 i) hc
      · rw [hi]
        exact ⟨.refl hsaves.sound, (Stored.of_denotes hfree hs hne hd).mono hsaves.ext⟩
    obtain ⟨hsaves, hstored⟩ := saves_foldl hstep (List.finRange 16) (.refl hs)
    have hnode : (TreeNode.branch path (compactLinks hasher links) : TreeNode Hash) =
        savedNode hasher (.branch path children) := by
      rw [savedNode]
      congr 1
      funext i
      exact LinkDenotes.compact (hlinks i)
    have hset := savedIn_set hfree hsaves.sound hnodes.1 ht fun p c heq i => by
      cases heq
      exact hstored i (List.mem_finRange i)
    rw [hnode]
    exact ⟨hsaves.trans hset.toSaves, hset.stored⟩

end SaveAll

/-!
## Data sources in memory (`MemoryDataSource`, `ReadThroughMemoryDataSource`)
-/

/-- `MemoryDataSource`: leaf nodes and branch nodes by their hashes. -/
structure MemoryDataSource (hasher : NodeHasher Hash) where
  leafNodes : List (TreeNodePath × Hash)
  branchNodes : List (TreeNodePath × (Nibble → TreeNode Hash))
  leaf_nodup : (leafNodes.map fun n => hasher.leaf n.1 n.2).Nodup
  branch_nodup : (branchNodes.map fun n => (TreeNode.branch n.1 n.2).hash hasher).Nodup

namespace MemoryDataSource
variable {hasher : NodeHasher Hash} [DecidableEq Hash]

def empty : MemoryDataSource hasher := ⟨[], [], List.nodup_nil, List.nodup_nil⟩

def findLeaf (m : MemoryDataSource hasher) (hash : Hash) : Option (TreeNodePath × Hash) :=
  m.leafNodes.find? fun n => decide (hasher.leaf n.1 n.2 = hash)

def findBranch (m : MemoryDataSource hasher) (hash : Hash) : Option (TreeNodePath × (Nibble → TreeNode Hash)) :=
  m.branchNodes.find? fun n => decide ((TreeNode.branch n.1 n.2).hash hasher = hash)

def get (m : MemoryDataSource hasher) (hash : Hash) : TreeNode Hash :=
  match m.findLeaf hash, m.findBranch hash with
  | some n, _ => .leaf n.1 n.2
  | none, some n => .branch n.1 n.2
  | none, none => .empty

/-- The nodes that `forEach` visits. -/
def nodes (m : MemoryDataSource hasher) : List (TreeNode Hash) :=
  (m.leafNodes.map fun n => .leaf n.1 n.2) ++ m.branchNodes.map fun n => .branch n.1 n.2

theorem notMem_of_find?_eq_none {α β : Type*} [DecidableEq β] {f : α → β} {l : List α} {b : β}
    (h : l.find? (fun a => decide (f a = b)) = none) : b ∉ l.map f := by
  intro hmem
  obtain ⟨a, ha, rfl⟩ := List.mem_map.1 hmem
  have := List.find?_eq_none.1 h a ha
  simp at this

/-- `set`: `emplace` keeps a node that has the hash already. -/
def set (m : MemoryDataSource hasher) : TreeNode Hash → MemoryDataSource hasher
  | .leaf path value =>
    match h : m.findLeaf (hasher.leaf path value) with
    | some _ => m
    | none =>
      { m with
        leafNodes := (path, value) :: m.leafNodes
        leaf_nodup := List.nodup_cons.2 ⟨notMem_of_find?_eq_none h, m.leaf_nodup⟩ }
  | .branch path links =>
    match h : m.findBranch ((TreeNode.branch path links).hash hasher) with
    | some _ => m
    | none =>
      { m with
        branchNodes := (path, links) :: m.branchNodes
        branch_nodup := List.nodup_cons.2 ⟨notMem_of_find?_eq_none h, m.branch_nodup⟩ }
  | _ => m

theorem get_set_of_ne (m : MemoryDataSource hasher) (node : TreeNode Hash) {hash : Hash} (h : hash ≠ node.hash hasher) :
    (m.set node).get hash = m.get hash := by
  cases node with
  | empty => rfl
  | reference hash => rfl
  | leaf path value =>
    have hne : ¬ hasher.leaf path value = hash := fun he => h he.symm
    rw [set]
    split
    · rfl
    · simp only [get, findLeaf, findBranch, List.find?_cons, hne, decide_false]
  | branch path links =>
    have hne : ¬ (TreeNode.branch path links).hash hasher = hash := fun he => h he.symm
    rw [set]
    split
    · rfl
    · simp only [get, findLeaf, findBranch, List.find?_cons, hne, decide_false]

theorem get_set_self (m : MemoryDataSource hasher) {node : TreeNode Hash} (hn : node.Saved hasher) :
    (m.set node).get (node.hash hasher) = node ∨
      (m.get (node.hash hasher) ≠ .empty ∧ (m.set node).get (node.hash hasher) = m.get (node.hash hasher)) := by
  cases node with
  | empty => exact hn.elim
  | reference hash => exact hn.elim
  | leaf path value =>
    rw [set]
    split
    · rename_i n hfind
      refine .inr ⟨?_, rfl⟩
      rw [TreeNode.hash, get, hfind]
      simp
    · left
      simp [get, findLeaf, TreeNode.hash]
  | branch path links =>
    rw [set]
    split
    · rename_i n hfind
      refine .inr ⟨?_, rfl⟩
      rw [get, hfind]
      cases m.findLeaf ((TreeNode.branch path links).hash hasher) <;> simp
    · cases hleaf : m.findLeaf ((TreeNode.branch path links).hash hasher) with
      | none =>
        left
        rw [get]
        simp only [findLeaf] at hleaf
        simp [findLeaf, findBranch, hleaf]
      | some n =>
        right
        simp only [findLeaf] at hleaf
        simp [get, findLeaf, hleaf]

theorem get_mem_nodes {m : MemoryDataSource hasher} {hash : Hash} (h : m.get hash ≠ .empty) :
    m.get hash ∈ m.nodes ∧ (m.get hash).hash hasher = hash := by
  unfold get at h ⊢
  unfold nodes
  cases hleaf : m.findLeaf hash with
  | some n =>
    have hmem := List.mem_of_find?_eq_some hleaf
    have hhash := List.find?_some hleaf
    simp only [decide_eq_true_eq] at hhash
    exact ⟨List.mem_append_left _ (List.mem_map.2 ⟨n, hmem, rfl⟩), hhash⟩
  | none =>
    cases hbranch : m.findBranch hash with
    | some n =>
      have hmem := List.mem_of_find?_eq_some hbranch
      have hhash := List.find?_some hbranch
      simp only [decide_eq_true_eq] at hhash
      exact ⟨List.mem_append_right _ (List.mem_map.2 ⟨n, hmem, rfl⟩), hhash⟩
    | none => rw [hleaf, hbranch] at h; exact absurd rfl h

theorem mem_nodes_set {m : MemoryDataSource hasher} {node node' : TreeNode Hash} (h : node' ∈ (m.set node).nodes) :
    node' ∈ m.nodes ∨ node' = node := by
  cases node with
  | empty => exact .inl h
  | reference hash => exact .inl h
  | leaf path value =>
    rw [set] at h
    split at h
    · exact .inl h
    · exact (List.mem_cons.1 h).symm
  | branch path links =>
    rw [set] at h
    split at h
    · exact .inl h
    · rw [nodes, List.map_cons] at h
      exact (List.mem_cons.1 (List.perm_middle.mem_iff.1 h)).symm

def api : DataSource hasher (MemoryDataSource hasher) where
  get := get
  set := set
  get_set_of_ne m node _ h := m.get_set_of_ne node h
  get_set_self m _ hn := m.get_set_self hn

end MemoryDataSource

/-- `ReadThroughMemoryDataSource` over a backing data source that is read by `backing`. -/
def readThrough (hasher : NodeHasher Hash) [DecidableEq Hash] (backing : Hash → TreeNode Hash) :
    DataSource hasher (MemoryDataSource hasher) where
  get m hash := if (m.get hash).isEmpty then backing hash else m.get hash
  set := MemoryDataSource.set
  get_set_of_ne m node hash h := by rw [m.get_set_of_ne node h]
  get_set_self m node hn := by
    have hempty : ∀ n : TreeNode Hash, n.isEmpty = false ↔ n ≠ .empty := fun n => by cases n <;> simp [TreeNode.isEmpty]
    rcases m.get_set_self hn with h | ⟨hne, h⟩
    · left
      have hnode : node.isEmpty = false := (hempty node).2 (by rintro rfl; exact hn)
      rw [h, hnode]
      rfl
    · right
      rw [h, (hempty _).2 hne]
      exact ⟨hne, rfl⟩

end Catapult.Tree
