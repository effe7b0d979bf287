import Mathlib.Logic.Equiv.List
import Catapult.Tree.DataSource
import Catapult.Tree.HistoryIndependence

/-!
# Trees with deltas (`BasePatriciaTree`, `BasePatriciaTreeDelta`)

A delta reads the data source of its base tree through a memory data source of its own. Checkpoints save the nodes of
the delta tree into the memory; a commit copies the memory into the data source of the base tree and hands the root
over.

`Maps` is what a tree and its attached delta stand for. `Refines` relates the two: the data source of the base has all
nodes of the base tree, and the delta tree is readable through its memory.
-/

namespace Catapult.Tree
variable {Hash Source Key Value : Type*} {hasher : NodeHasher Hash}

structure BasePatriciaTreeDelta (hasher : NodeHasher Hash) where
  memory : MemoryDataSource hasher
  baseRootHash : Hash
  root : TreeNode Hash

/-- A base tree; `delta` is the delta that `m_pWeakDelta` locks. -/
structure BasePatriciaTree (hasher : NodeHasher Hash) (Source : Type*) where
  dataSource : Source
  root : TreeNode Hash
  delta : Option (BasePatriciaTreeDelta hasher)

/-- An order in which the nodes of an unordered map are visited. -/
structure VisitOrder (α : Type*) where
  order : List α → List α
  perm : ∀ l, (order l).Perm l

/-- The calls on a tree and on its attached delta. `release` drops the delta. -/
inductive BaseOperation (Key Value Hash : Type*) where
  | rebase
  | release
  | set (key : Key) (value : Value)
  | unset (key : Key)
  | setCheckpoint
  | commit (order : VisitOrder (TreeNode Hash))

section Operations
variable [DecidableEq Hash] (api : DataSource hasher Source) (encoder : Encoder Key Value Hash)

namespace BasePatriciaTreeDelta

/-- `m_dataSource.get` of the delta. -/
def read (source : Source) (delta : BasePatriciaTreeDelta hasher) : Hash → TreeNode Hash :=
  (readThrough hasher (api.get source)).get delta.memory

/-- The constructor: the root stays empty when there is no node for the hash. -/
def create (source : Source) (rootHash : Hash) : BasePatriciaTreeDelta hasher where
  memory := .empty
  baseRootHash := rootHash
  root := api.get source rootHash

def apply (source : Source) (operation : Operation Key Value) (delta : BasePatriciaTreeDelta hasher) :
    Option (BasePatriciaTreeDelta hasher) :=
  (operation.applyToRoot hasher (delta.read api source) encoder delta.root).map fun root => { delta with root }

def setCheckpoint (delta : BasePatriciaTreeDelta hasher) : BasePatriciaTreeDelta hasher :=
  if delta.root.isEmpty then delta
  else { delta with memory := saveAll hasher MemoryDataSource.set delta.root delta.memory }

def copyPendingChangesTo (order : VisitOrder (TreeNode Hash)) (delta : BasePatriciaTreeDelta hasher)
    (source : Source) : Source :=
  (order.order delta.memory.nodes).foldl api.set source

/-- `copyRootTo`: the new root of the base tree. -/
def copyRoot (source : Source) (delta : BasePatriciaTreeDelta hasher) : TreeNode Hash :=
  if delta.root.hash hasher = hasher.zero then .empty else delta.read api source (delta.root.hash hasher)

/-- `reset`: `none` when there is no node for the hash. -/
def reset (source : Source) (rootHash : Hash) (delta : BasePatriciaTreeDelta hasher) :
    Option (BasePatriciaTreeDelta hasher) :=
  if rootHash = hasher.zero then some { delta with root := .empty, baseRootHash := rootHash }
  else if (delta.read api source rootHash).isEmpty then none
  else some { delta with root := delta.read api source rootHash, baseRootHash := rootHash }

def lookup (source : Source) (delta : BasePatriciaTreeDelta hasher) (key : Key) :
    Option (Option Hash × List (TreeNode Hash)) :=
  PatriciaTree.lookup hasher (delta.read api source) delta.root (encoder.path key)

end BasePatriciaTreeDelta

namespace BasePatriciaTree

def create (source : Source) : BasePatriciaTree hasher Source := ⟨source, .empty, none⟩

/-- The constructor with a root hash: `none` when there is no node for the hash. -/
def load (source : Source) (rootHash : Hash) : Option (BasePatriciaTree hasher Source) :=
  if (api.get source rootHash).isEmpty then none else some ⟨source, api.get source rootHash, none⟩

/-- `rebase`: `none` when there is an attached delta already. -/
def rebase (tree : BasePatriciaTree hasher Source) : Option (BasePatriciaTree hasher Source) :=
  match tree.delta with
  | some _ => none
  | none => some { tree with delta := some (.create api tree.dataSource (tree.root.hash hasher)) }

/-- `commit`: `none` when there is no attached delta, or when its root cannot be loaded again. -/
def commit (order : VisitOrder (TreeNode Hash)) (tree : BasePatriciaTree hasher Source) :
    Option (BasePatriciaTree hasher Source) :=
  match tree.delta with
  | none => none
  | some delta =>
    let delta := delta.setCheckpoint
    let dataSource := delta.copyPendingChangesTo api order tree.dataSource
    let root := delta.copyRoot api dataSource
    (delta.reset api dataSource (delta.root.hash hasher)).map fun delta => ⟨dataSource, root, some delta⟩

def onDelta (f : BasePatriciaTreeDelta hasher → Option (BasePatriciaTreeDelta hasher))
    (tree : BasePatriciaTree hasher Source) : Option (BasePatriciaTree hasher Source) :=
  (tree.delta.bind f).map fun delta => { tree with delta := some delta }

def apply (tree : BasePatriciaTree hasher Source) :
    BaseOperation Key Value Hash → Option (BasePatriciaTree hasher Source)
  | .rebase => tree.rebase api
  | .release => some { tree with delta := none }
  | .set key value => tree.onDelta (·.apply api encoder tree.dataSource (.set key value))
  | .unset key => tree.onDelta (·.apply api encoder tree.dataSource (.unset key))
  | .setCheckpoint => tree.onDelta (some ·.setCheckpoint)
  | .commit order => tree.commit api order

def run (tree : BasePatriciaTree hasher Source) (operations : List (BaseOperation Key Value Hash)) :
    Option (BasePatriciaTree hasher Source) :=
  operations.foldlM (apply api encoder) tree

def lookup (tree : BasePatriciaTree hasher Source) (key : Key) : Option (Option Hash × List (TreeNode Hash)) :=
  PatriciaTree.lookup hasher (api.get tree.dataSource) tree.root (encoder.path key)

end BasePatriciaTree
end Operations

/-- The maps that a tree and its attached delta stand for. -/
structure Maps (Key Value : Type*) where
  base : Key → Option Value
  delta : Option (Key → Option Value)

namespace Maps
variable [DecidableEq Key]

def apply (maps : Maps Key Value) : BaseOperation Key Value Hash → Option (Maps Key Value)
  | .rebase =>
    match maps.delta with
    | some _ => none
    | none => some { maps with delta := some maps.base }
  | .release => some { maps with delta := none }
  | .set key value => maps.delta.map fun map => { maps with delta := some (Function.update map key (some value)) }
  | .unset key => maps.delta.map fun map => { maps with delta := some (Function.update map key none) }
  | .setCheckpoint => maps.delta.map fun _ => maps
  | .commit _ => maps.delta.map fun map => ⟨map, some map⟩

def run (maps : Maps Key Value) (operations : List (BaseOperation Key Value Hash)) : Option (Maps Key Value) :=
  operations.foldlM apply maps

end Maps

section Refinement
variable {api : DataSource hasher Source} {nodes : Set (TreeNode Hash)} {encoder : Encoder Key Value Hash}
  {map : Key → Option Value} {source source' : Source} {root : TreeNode Hash} {store : Hash → TreeNode Hash}

/-- The data source has all nodes of the tree of the map, and `root` is its root. -/
def IsTree (api : DataSource hasher Source) (nodes : Set (TreeNode Hash)) (encoder : Encoder Key Value Hash)
    (map : Key → Option Value) (source : Source) (root : TreeNode Hash) : Prop :=
  Sound hasher nodes (api.get source) ∧
    ∃ t, TrieOf encoder map t ∧ Stored hasher (api.get source) t ∧ root = savedNode hasher t

theorem IsTree.represents (h : IsTree api nodes encoder map source root) :
    Represents hasher (api.get source) encoder map root := by
  obtain ⟨-, t, ht, hstored, rfl⟩ := h
  exact ⟨t, ht, hstored.denotes⟩

theorem IsTree.get_hash (hfree : CollisionFree hasher nodes) (h : IsTree api nodes encoder map source root) :
    api.get source (root.hash hasher) = root := by
  obtain ⟨hs, t, -, hstored, rfl⟩ := h
  rw [hash_savedNode]
  by_cases ht : t = .empty
  · subst ht
    exact hs.zero hfree
  · exact hstored.get_eq ht

theorem isTree_create (encoder : Encoder Key Value Hash) (hs : Sound hasher nodes (api.get source)) :
    IsTree api nodes encoder (fun _ => none) source .empty :=
  ⟨hs, .empty, TrieOf.empty encoder, trivial, rfl⟩

/-- A tree that is loaded by the hash of its root. -/
theorem isTree_load [DecidableEq Hash] {rootHash : Hash} {tree : BasePatriciaTree hasher Source}
    (hfree : CollisionFree hasher nodes) (hs : Sound hasher nodes (api.get source))
    (hrep : Represents hasher (api.get source) encoder map (api.get source rootHash))
    (hload : BasePatriciaTree.load api source rootHash = some tree) :
    IsTree api nodes encoder map tree.dataSource tree.root := by
  rw [BasePatriciaTree.load] at hload
  split at hload
  · cases hload
  rename_i hroot
  cases hload
  obtain ⟨t, ht, hd⟩ := hrep
  have hne : t ≠ .empty := fun he => hroot (hd.isEmpty_iff.2 he)
  have hget : api.get source rootHash ≠ .empty := fun he => hroot (by rw [he]; rfl)
  have hhash : trieHash hasher t = rootHash := hd.hash_eq.symm.trans ((hs rootHash).resolve_left hget).2
  have hstored : Stored hasher (api.get source) t := Stored.of_denotes hfree hs hne (by rwa [hhash])
  exact ⟨hs, t, ht, hstored, hhash ▸ hstored.get_eq hne⟩

variable [DecidableEq Hash] {delta : BasePatriciaTreeDelta hasher} {tree : BasePatriciaTree hasher Source}
  {maps : Maps Key Value}

/-- The delta has saved nodes only, in its memory and behind it, and its root is the tree of the map. -/
structure DeltaRefines (api : DataSource hasher Source) (nodes : Set (TreeNode Hash)) (encoder : Encoder Key Value Hash)
    (source : Source) (map : Key → Option Value) (delta : BasePatriciaTreeDelta hasher) : Prop where
  backing : Sound hasher nodes (api.get source)
  memory : ∀ node ∈ delta.memory.nodes, node ∈ nodes
  represents : Represents hasher (delta.read api source) encoder map delta.root

/-- A checkpoint saves no other nodes than these. -/
def BasePatriciaTreeDelta.SavesIn (api : DataSource hasher Source) (nodes : Set (TreeNode Hash)) (source : Source)
    (delta : BasePatriciaTreeDelta hasher) : Prop :=
  ∀ t, Denotes hasher (delta.read api source) t delta.root → NodesIn hasher nodes t

def BaseOperation.Saves : BaseOperation Key Value Hash → Prop
  | setCheckpoint | commit _ => True
  | _ => False

/-- The nodes that the run saves are among `nodes`. -/
def BasePatriciaTree.SavesIn (api : DataSource hasher Source) (nodes : Set (TreeNode Hash))
    (encoder : Encoder Key Value Hash) (tree : BasePatriciaTree hasher Source)
    (operations : List (BaseOperation Key Value Hash)) : Prop :=
  ∀ before operation after tree' delta, operations = before ++ operation :: after → operation.Saves →
    tree.run api encoder before = some tree' → tree'.delta = some delta → delta.SavesIn api nodes tree'.dataSource

structure Refines (api : DataSource hasher Source) (nodes : Set (TreeNode Hash)) (encoder : Encoder Key Value Hash)
    (maps : Maps Key Value) (tree : BasePatriciaTree hasher Source) : Prop where
  base : IsTree api nodes encoder maps.base tree.dataSource tree.root
  delta : Option.Rel (DeltaRefines api nodes encoder tree.dataSource) maps.delta tree.delta
  baseRoot : ∀ delta, tree.delta = some delta → delta.baseRootHash = tree.root.hash hasher

theorem read_of_memory {hash : Hash} (h : delta.memory.get hash ≠ .empty) :
    delta.read api source hash = delta.memory.get hash := by
  have hne : (delta.memory.get hash).isEmpty = false := by
    cases hm : delta.memory.get hash <;> simp_all [TreeNode.isEmpty]
  rw [BasePatriciaTreeDelta.read, readThrough]
  simp only [hne]
  rfl

theorem read_of_backing {hash : Hash} (h : delta.memory.get hash = .empty) :
    delta.read api source hash = api.get source hash := by
  rw [BasePatriciaTreeDelta.read, readThrough]
  simp only [h]
  rfl

theorem read_create (source : Source) (rootHash : Hash) :
    (BasePatriciaTreeDelta.create api source rootHash).read api source = api.get source := by
  funext hash
  exact read_of_backing rfl

theorem DeltaRefines.sound (h : DeltaRefines api nodes encoder source map delta) :
    Sound hasher nodes (delta.read api source) := by
  intro hash
  by_cases hm : delta.memory.get hash = .empty
  · rw [read_of_backing hm]
    exact h.backing hash
  · rw [read_of_memory hm]
    obtain ⟨hmem, hhash⟩ := MemoryDataSource.get_mem_nodes hm
    exact .inr ⟨h.memory _ hmem, hhash⟩

theorem extends_read (hext : Extends (api.get source) (api.get source')) :
    Extends (delta.read api source) (delta.read api source') := by
  intro hash hne
  by_cases hm : delta.memory.get hash = .empty
  · rw [read_of_backing hm] at hne ⊢
    rw [read_of_backing hm, hext hash hne]
  · rw [read_of_memory hm, read_of_memory hm]

theorem copyPendingChangesTo_spec (hfree : CollisionFree hasher nodes) (hs : Sound hasher nodes (api.get source))
    (hmemory : ∀ node ∈ delta.memory.nodes, node ∈ nodes) (order : VisitOrder (TreeNode Hash)) :
    Sound hasher nodes (api.get (delta.copyPendingChangesTo api order source)) ∧
      Extends (api.get source) (api.get (delta.copyPendingChangesTo api order source)) ∧
      Extends (delta.read api source) (api.get (delta.copyPendingChangesTo api order source)) := by
  obtain ⟨hsound, hext, hget⟩ := api.get_foldl_set hfree hs fun node hnode =>
    hmemory node ((order.perm _).mem_iff.1 hnode)
  refine ⟨hsound, hext, fun hash hne => ?_⟩
  by_cases hm : delta.memory.get hash = .empty
  · rw [read_of_backing hm] at hne ⊢
    exact hext hash hne
  · obtain ⟨hmem, hhash⟩ := MemoryDataSource.get_mem_nodes hm
    have h := hget _ ((order.perm _).mem_iff.2 hmem)
    rw [hhash] at h
    rw [read_of_memory hm]
    exact h

namespace DeltaRefines

theorem create (hfree : CollisionFree hasher nodes) (h : IsTree api nodes encoder map source root) :
    DeltaRefines api nodes encoder source map (.create api source (root.hash hasher)) := by
  refine ⟨h.1, fun node hnode => absurd hnode List.not_mem_nil, ?_⟩
  rw [read_create, BasePatriciaTreeDelta.create, h.get_hash hfree]
  exact h.represents

theorem apply [DecidableEq Key] (hfree : CollisionFree hasher nodes)
    (h : DeltaRefines api nodes encoder source map delta) (operation : Operation Key Value) :
    ∃ delta', delta.apply api encoder source operation = some delta' ∧ delta'.baseRootHash = delta.baseRootHash ∧
      DeltaRefines api nodes encoder source (operation.applyToMap map) delta' := by
  obtain ⟨root, happly, hroot⟩ := h.represents.apply (h.sound.readable hfree) operation
  refine ⟨{ delta with root }, ?_, rfl, h.backing, h.memory, hroot⟩
  rw [BasePatriciaTreeDelta.apply, happly]
  rfl

theorem run [DecidableEq Key] (hfree : CollisionFree hasher nodes)
    (h : DeltaRefines api nodes encoder source map delta) (operations : List (Operation Key Value)) :
    ∃ delta', operations.foldlM (fun delta operation => delta.apply api encoder source operation) delta = some delta' ∧
      DeltaRefines api nodes encoder source (operations.foldl Operation.applyToMap map) delta' := by
  induction operations generalizing map delta with
  | nil => exact ⟨delta, rfl, h⟩
  | cons operation operations ih =>
    obtain ⟨next, happly, -, hnext⟩ := h.apply hfree operation
    obtain ⟨delta', hrun, hdelta'⟩ := ih hnext
    refine ⟨delta', ?_, hdelta'⟩
    rw [List.foldlM_cons, happly]
    exact hrun

theorem setCheckpoint (hfree : CollisionFree hasher nodes) (h : DeltaRefines api nodes encoder source map delta)
    (hnodes : delta.SavesIn api nodes source) :
    DeltaRefines api nodes encoder source map delta.setCheckpoint ∧ delta.setCheckpoint.root = delta.root ∧
      delta.setCheckpoint.baseRootHash = delta.baseRootHash ∧
      ∃ t, TrieOf encoder map t ∧ Stored hasher (delta.setCheckpoint.read api source) t ∧
        NodesIn hasher nodes t ∧ delta.root.hash hasher = trieHash hasher t := by
  obtain ⟨t, ht, hd⟩ := h.represents
  have hnodes := hnodes t hd
  by_cases hempty : t = .empty
  · subst hempty
    have hroot : delta.root.isEmpty = true := hd.isEmpty_iff.2 rfl
    rw [BasePatriciaTreeDelta.setCheckpoint, if_pos hroot]
    exact ⟨h, rfl, rfl, _, ht, trivial, trivial, hd.hash_eq⟩
  · have hroot : ¬ delta.root.isEmpty = true := fun he => hempty (hd.isEmpty_iff.1 he)
    have hsave : SavedIn (readThrough hasher (api.get source)) nodes delta.memory delta.setCheckpoint.memory t := by
      rw [BasePatriciaTreeDelta.setCheckpoint, if_neg hroot]
      exact savedIn_saveAll hfree h.sound hd hnodes hempty
    have heq : delta.setCheckpoint.root = delta.root ∧ delta.setCheckpoint.baseRootHash = delta.baseRootHash := by
      rw [BasePatriciaTreeDelta.setCheckpoint, if_neg hroot]
      exact ⟨rfl, rfl⟩
    have hmemory : ∀ node ∈ delta.setCheckpoint.memory.nodes, node ∈ nodes := by
      refine hsave.keeps (fun m => ∀ node ∈ m.nodes, node ∈ nodes) (fun m node hnode hm node' hnode' => ?_) h.memory
      rcases MemoryDataSource.mem_nodes_set hnode' with hold | rfl
      · exact hm node' hold
      · exact hnode
    refine ⟨⟨h.backing, hmemory, t, ht, ?_⟩, heq.1, heq.2, t, ht, hsave.stored, hnodes, hd.hash_eq⟩
    rw [heq.1]
    exact hd.mono hsave.ext

end DeltaRefines

theorem Refines.commit (hfree : CollisionFree hasher nodes)
    (hbase : IsTree api nodes encoder maps.base tree.dataSource tree.root) (htree : tree.delta = some delta)
    (h : DeltaRefines api nodes encoder tree.dataSource map delta) (hnodes : delta.SavesIn api nodes tree.dataSource)
    (order : VisitOrder (TreeNode Hash)) :
    ∃ tree' delta', tree.commit api order = some tree' ∧ tree'.delta = some delta' ∧ tree'.root = delta'.root ∧
      Refines api nodes encoder ⟨map, some map⟩ tree' := by
  obtain ⟨hd, hroot, -, t, ht, hstored, hnodes, hhash⟩ := h.setCheckpoint hfree hnodes
  rw [BasePatriciaTree.commit, htree]
  simp only
  generalize hδ : delta.setCheckpoint = δ at hd hroot hstored ⊢
  obtain ⟨hsound, hext, hcopied⟩ := copyPendingChangesTo_spec hfree hbase.1 hd.memory order
  generalize δ.copyPendingChangesTo api order tree.dataSource = dataSource at hsound hext hcopied ⊢
  have hstored' : Stored hasher (δ.read api dataSource) t := hstored.mono (extends_read hext)
  have hbase' : IsTree api nodes encoder map dataSource (savedNode hasher t) :=
    ⟨hsound, t, ht, hstored.mono hcopied, rfl⟩
  rw [BasePatriciaTreeDelta.copyRoot, BasePatriciaTreeDelta.reset, hroot, hhash]
  by_cases hempty : t = .empty
  · subst hempty
    have hzero : trieHash hasher .empty = hasher.zero := rfl
    rw [if_pos hzero, if_pos hzero]
    refine ⟨_, _, rfl, rfl, rfl, hbase', .some ⟨hsound, hd.memory, .empty, ht, rfl⟩, fun delta' heq => ?_⟩
    cases heq
    rfl
  · have hne := trieHash_ne_zero hfree hnodes hempty
    have hget := hstored'.get_eq hempty
    have hroot' : ¬ (savedNode hasher t).isEmpty = true := by
      cases t <;> simp_all [savedNode, TreeNode.isEmpty]
    rw [if_neg hne, if_neg hne, hget, if_neg hroot']
    refine ⟨_, _, rfl, rfl, rfl, hbase', .some ⟨hsound, hd.memory, t, ht, hstored'.denotes⟩, fun delta' heq => ?_⟩
    cases heq
    rw [hash_savedNode]

theorem Refines.onDelta (h : Refines api nodes encoder maps tree) (hmap : maps.delta = some map)
    {map' : Key → Option Value} {f : BasePatriciaTreeDelta hasher → Option (BasePatriciaTreeDelta hasher)}
    (hf : ∀ delta, tree.delta = some delta → DeltaRefines api nodes encoder tree.dataSource map delta →
      ∃ delta', f delta = some delta' ∧ delta'.baseRootHash = delta.baseRootHash ∧
        DeltaRefines api nodes encoder tree.dataSource map' delta') :
    ∃ tree', tree.onDelta f = some tree' ∧ Refines api nodes encoder { maps with delta := some map' } tree' := by
  have hrel := h.delta
  rw [hmap] at hrel
  cases hdelta : tree.delta with
  | none => rw [hdelta] at hrel; cases hrel
  | some delta =>
    rw [hdelta] at hrel
    cases hrel with
    | some hd =>
    obtain ⟨delta', heq, hbase, hd'⟩ := hf delta hdelta hd
    refine ⟨{ tree with delta := some delta' }, ?_, h.base, .some hd', fun δ hδ => ?_⟩
    · rw [BasePatriciaTree.onDelta, hdelta, Option.bind_some, heq]
      rfl
    · cases hδ
      rw [hbase, h.baseRoot delta hdelta]

variable [DecidableEq Key]

theorem Refines.apply (hfree : CollisionFree hasher nodes) (h : Refines api nodes encoder maps tree)
    (operation : BaseOperation Key Value Hash)
    (hnodes : operation.Saves → ∀ delta, tree.delta = some delta → delta.SavesIn api nodes tree.dataSource)
    {maps' : Maps Key Value} (hspec : maps.apply operation = some maps') :
    ∃ tree', tree.apply api encoder operation = some tree' ∧ Refines api nodes encoder maps' tree' := by
  have hrel := h.delta
  cases operation with
  | rebase =>
    cases hmap : maps.delta with
    | some map => simp [Maps.apply, hmap] at hspec
    | none =>
      simp only [Maps.apply, hmap, Option.some.injEq] at hspec
      subst hspec
      rw [hmap] at hrel
      cases hdelta : tree.delta with
      | some delta => rw [hdelta] at hrel; cases hrel
      | none =>
        rw [BasePatriciaTree.apply, BasePatriciaTree.rebase, hdelta]
        refine ⟨_, rfl, h.base, .some (DeltaRefines.create hfree h.base), ?_⟩
        intro delta heq
        cases heq
        rfl
  | release =>
    cases hspec
    exact ⟨_, rfl, h.base, .none, nofun⟩
  | set key value =>
    obtain ⟨map, hmap, rfl⟩ := Option.map_eq_some_iff.1 hspec
    exact h.onDelta hmap fun delta _ hd => hd.apply hfree (.set key value)
  | unset key =>
    obtain ⟨map, hmap, rfl⟩ := Option.map_eq_some_iff.1 hspec
    exact h.onDelta hmap fun delta _ hd => hd.apply hfree (.unset key)
  | setCheckpoint =>
    obtain ⟨map, hmap, rfl⟩ := Option.map_eq_some_iff.1 hspec
    obtain ⟨tree', happly, htree'⟩ := h.onDelta hmap fun delta hdelta hd => by
      obtain ⟨hd', -, hbase, -⟩ := hd.setCheckpoint hfree (hnodes trivial delta hdelta)
      exact ⟨_, rfl, hbase, hd'⟩
    refine ⟨tree', happly, ?_⟩
    rwa [← hmap] at htree'
  | commit order =>
    obtain ⟨map, hmap, rfl⟩ := Option.map_eq_some_iff.1 hspec
    rw [hmap] at hrel
    cases hdelta : tree.delta with
    | none => rw [hdelta] at hrel; cases hrel
    | some delta =>
      rw [hdelta] at hrel
      cases hrel with
      | some hd =>
      obtain ⟨tree', -, hcommit, -, -, htree'⟩ :=
        Refines.commit hfree h.base hdelta hd (hnodes trivial delta hdelta) order
      exact ⟨tree', hcommit, htree'⟩

theorem Refines.run (hfree : CollisionFree hasher nodes) (h : Refines api nodes encoder maps tree)
    (operations : List (BaseOperation Key Value Hash)) (hnodes : tree.SavesIn api nodes encoder operations)
    {maps' : Maps Key Value} (hspec : maps.run operations = some maps') :
    ∃ tree', tree.run api encoder operations = some tree' ∧ Refines api nodes encoder maps' tree' := by
  induction operations generalizing maps tree with
  | nil =>
    cases hspec
    exact ⟨tree, rfl, h⟩
  | cons operation operations ih =>
    rw [Maps.run, List.foldlM_cons] at hspec
    obtain ⟨next, hnext, hspec⟩ := Option.bind_eq_some_iff.1 hspec
    obtain ⟨tree₁, happly, htree₁⟩ := h.apply hfree operation
      (fun hsave delta hdelta => hnodes [] operation operations tree delta rfl hsave rfl hdelta) hnext
    have hrest : tree₁.SavesIn api nodes encoder operations := by
      intro before next after tree' delta heq hsave hrun
      refine hnodes (operation :: before) next after tree' delta (congrArg (operation :: ·) heq) hsave ?_
      rw [BasePatriciaTree.run, List.foldlM_cons, happly]
      exact hrun
    obtain ⟨tree', hrun, htree'⟩ := ih htree₁ hrest hspec
    refine ⟨tree', ?_, htree'⟩
    rw [BasePatriciaTree.run, List.foldlM_cons, happly]
    exact hrun

/-- What holds for a tree that has committed its delta: the roots agree, keys are found as in the map,
all nodes that are reachable from the root are in the data source, and a later rebase finds the map again. -/
structure Committed (api : DataSource hasher Source) (encoder : Encoder Key Value Hash) (map : Key → Option Value)
    (tree : BasePatriciaTree hasher Source) : Prop where
  root_eq : ∃ delta, tree.delta = some delta ∧ tree.root.hash hasher = delta.root.hash hasher
  lookup : ∀ key, ∃ nodePath, tree.lookup api encoder key = some ((map key).map encoder.encodeValue, nodePath)
  present : ∀ hash, Reachable hasher (api.get tree.dataSource) (tree.root.hash hasher) hash →
    api.get tree.dataSource hash ≠ .empty ∧ (api.get tree.dataSource hash).hash hasher = hash
  rebase : ∃ tree' delta', tree.run api encoder [.release, .rebase] = some tree' ∧ tree'.delta = some delta' ∧
    ∀ key, ∃ nodePath, delta'.lookup api encoder tree'.dataSource key =
      some ((map key).map encoder.encodeValue, nodePath)

/-- Commit preserves the tree: from every tree without a delta, after any calls on the tree and its deltas,
with any number of rebases, checkpoints and commits among them. The hash tells the nodes apart that the data source has
and that the checkpoints and commits save. -/
theorem commit_preserves {nodes : Set (TreeNode Hash)} (hfree : CollisionFree hasher nodes)
    (api : DataSource hasher Source) (encoder : Encoder Key Value Hash) (map : Key → Option Value) (source : Source)
    (root : TreeNode Hash) (htree : IsTree api nodes encoder map source root)
    (operations : List (BaseOperation Key Value Hash)) (order : VisitOrder (TreeNode Hash))
    (hnodes : BasePatriciaTree.SavesIn api nodes encoder ⟨source, root, none⟩ (operations ++ [.commit order]))
    (base deltaMap : Key → Option Value) (hspec : Maps.run ⟨map, none⟩ operations = some ⟨base, some deltaMap⟩) :
    ∃ tree', BasePatriciaTree.run api encoder ⟨source, root, none⟩ (operations ++ [BaseOperation.commit order]) =
        some tree' ∧
      Committed api encoder deltaMap tree' := by
  have hinit : Refines api nodes encoder ⟨map, none⟩ (⟨source, root, none⟩ : BasePatriciaTree hasher Source) :=
    ⟨htree, .none, nofun⟩
  obtain ⟨tree, hrun, h⟩ := hinit.run hfree operations (fun before operation after tree' delta heq =>
    hnodes before operation (after ++ [.commit order]) tree' delta (by rw [heq, List.append_assoc]; rfl)) hspec
  have hrel := h.delta
  cases hdelta : tree.delta with
  | none => rw [hdelta] at hrel; cases hrel
  | some delta =>
    rw [hdelta] at hrel
    cases hrel with
    | some hd =>
    obtain ⟨tree', delta', hcommit, hdelta', hroot, h'⟩ := Refines.commit hfree h.base hdelta hd
      (hnodes operations (.commit order) [] tree delta rfl trivial hrun hdelta) order
    refine ⟨tree', ?_, ⟨delta', hdelta', by rw [hroot]⟩, fun key => ?_, ?_, ?_⟩
    · rw [BasePatriciaTree.run, List.foldlM_append]
      rw [BasePatriciaTree.run] at hrun
      rw [hrun]
      show (tree.apply api encoder (.commit order)).bind some = some tree'
      rw [BasePatriciaTree.apply, hcommit]
      rfl
    · exact h'.base.represents.lookup (Sound.readable hfree h'.base.1) key
    · obtain ⟨hs, t, -, hstored, ht⟩ := h'.base
      intro hash hreach
      rw [ht, hash_savedNode] at hreach
      have hne := hstored.get_ne_empty hreach
      exact ⟨hne, ((hs hash).resolve_left hne).2⟩
    · have hmaps : Maps.run (⟨deltaMap, some deltaMap⟩ : Maps Key Value)
          ([.release, .rebase] : List (BaseOperation Key Value Hash)) = some ⟨deltaMap, some deltaMap⟩ := rfl
      have hnone : tree'.SavesIn api nodes encoder [.release, .rebase] := by
        rintro before operation after _ _ heq hsave
        have hmem : operation ∈ ([.release, .rebase] : List (BaseOperation Key Value Hash)) :=
          heq ▸ List.mem_append_right _ List.mem_cons_self
        rcases List.mem_pair.1 hmem with rfl | rfl <;> exact hsave.elim
      obtain ⟨tree'', hrun'', h''⟩ := h'.run hfree _ hnone hmaps
      have hrel'' := h''.delta
      cases hdelta'' : tree''.delta with
      | none => rw [hdelta''] at hrel''; cases hrel''
      | some delta'' =>
        rw [hdelta''] at hrel''
        cases hrel'' with
        | some hd'' =>
        exact ⟨tree'', delta'', hrun'', hdelta'', fun key =>
          hd''.represents.lookup (Sound.readable hfree hd''.sound) key⟩

end Refinement

def codeHasher : NodeHasher Nat where
  leaf path value := 2 * Encodable.encode (path, value) + 1
  branch path links := 2 * Encodable.encode (path, List.ofFn links) + 2
  zero := 0

theorem codeHasher_ne_zero {node : TreeNode Nat} (h : node.Saved codeHasher) :
    node.hash codeHasher ≠ codeHasher.zero := by
  cases node with
  | empty | reference => exact h.elim
  | leaf path value => exact Nat.succ_ne_zero _
  | branch path links => exact Nat.succ_ne_zero _

def codeNodes : Set (TreeNode Nat) := {node | node.Saved codeHasher}

theorem collisionFree_codeHasher : CollisionFree codeHasher codeNodes where
  saved _ h := h
  ne_zero _ h := codeHasher_ne_zero h
  inj := by
    rintro (_ | ⟨path, value⟩ | ⟨path, links⟩ | _) h (_ | ⟨path', value'⟩ | ⟨path', links'⟩ | _) h' heq <;>
      first | exact h.elim | exact h'.elim | skip
    · have hcode := Encodable.encode_injective (Nat.eq_of_mul_eq_mul_left (by omega) (Nat.add_right_cancel heq))
      obtain ⟨rfl, rfl⟩ := Prod.mk.inj hcode
      rfl
    · simp only [TreeNode.hash, codeHasher] at heq
      omega
    · simp only [TreeNode.hash, codeHasher] at heq
      omega
    · have hcode := Encodable.encode_injective (Nat.eq_of_mul_eq_mul_left (by omega) (Nat.add_right_cancel heq))
      obtain ⟨rfl, hlinks⟩ := Prod.mk.inj hcode
      refine congrArg _ (funext fun i => ?_)
      have hi := congrFun (List.ofFn_injective hlinks) i
      rcases h i with hl | ⟨hash, hne, hl⟩ <;> rcases h' i with hl' | ⟨hash', hne', hl'⟩ <;>
        simp only [hl, hl'] at hi ⊢
      · exact absurd hi.symm hne'
      · exact absurd hi hne
      · exact congrArg TreeNode.reference hi

theorem nodesIn_codeNodes (t : Trie Nibble Nat) : NodesIn codeHasher codeNodes t := by
  induction t with
  | empty | leaf => trivial
  | branch path children ih =>
    refine ⟨fun i => ?_, ih⟩
    by_cases hempty : children i = .empty
    · exact .inl (by simp [hempty, linkTo])
    · have hne := codeHasher_ne_zero ((ih i).mem hempty)
      rw [hash_savedNode] at hne
      refine .inr ⟨_, hne, ?_⟩
      cases hc : children i with
      | empty => exact absurd hc hempty
      | leaf | branch => simp [hc, linkTo]

/-- Two keys over a checkpoint, one of them removed again, on a new tree. -/
theorem commit_preserves_sample :
    ∃ tree', BasePatriciaTree.run MemoryDataSource.api byteEncoder
        (BasePatriciaTree.create (MemoryDataSource.empty : MemoryDataSource codeHasher))
        ([BaseOperation.rebase, .set 0x11 5, .setCheckpoint, .set 0x12 6, .unset 0x11] ++
          [BaseOperation.commit ⟨id, .refl⟩]) = some tree' ∧
      Committed MemoryDataSource.api byteEncoder
        (Function.update (Function.update (Function.update (fun _ => none) 0x11 (some 5)) 0x12 (some 6))
          0x11 none) tree' :=
  commit_preserves collisionFree_codeHasher MemoryDataSource.api byteEncoder (fun _ => none)
    MemoryDataSource.empty .empty (isTree_create byteEncoder fun _ => .inl rfl) _ ⟨id, .refl⟩
    (fun _ _ _ _ _ _ _ _ _ t _ => nodesIn_codeNodes t) (fun _ => none) _ rfl

end Catapult.Tree
