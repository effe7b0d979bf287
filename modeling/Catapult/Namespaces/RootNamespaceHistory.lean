import Catapult.Lib.SortedMap
import Mathlib.Algebra.Order.Group.Nat

/-!
# Root namespaces and their histories (`RootNamespace`, `RootNamespaceHistory`)

A history has the root namespaces that were registered for one id. A root that is renewed before it expires
shares its children with the root before, through a pointer: a child that is added to the most recent root is a
child of all the roots it extends. `SharedRoots` are consecutive roots with one pointer to their children, and
a history is a list of them, the most recent first. A history in a cache is never empty.

What can throw is an `EStateM` computation, with the state that is left when something is thrown.
-/

namespace Catapult.Namespaces

abbrev NamespaceId := Nat

def namespaceBaseId : NamespaceId := 0

structure Namespace where
  path : List NamespaceId
  path_ne_nil : path ≠ []
  deriving DecidableEq

namespace Namespace

def id (ns : Namespace) : NamespaceId := ns.path.getLast ns.path_ne_nil

def rootId (ns : Namespace) : NamespaceId := ns.path.head ns.path_ne_nil

def parentId (ns : Namespace) : NamespaceId :=
  if ns.path.length = 1 then namespaceBaseId else ns.path.dropLast.getLastD namespaceBaseId

def createChild (ns : Namespace) (id : NamespaceId) : Namespace := ⟨ns.path ++ [id], by simp⟩

def ofId (id : NamespaceId) : Namespace := ⟨[id], by simp⟩

@[simp] theorem id_ofId (id : NamespaceId) : (ofId id).id = id := rfl

@[simp] theorem rootId_ofId (id : NamespaceId) : (ofId id).rootId = id := rfl

end Namespace

structure NamespaceLifetime where
  startHeight : Nat
  endHeight : Nat
  start_lt_end : startHeight < endHeight
  deriving DecidableEq

def NamespaceLifetime.isActive (lifetime : NamespaceLifetime) (height : Nat) : Bool :=
  decide (lifetime.startHeight ≤ height) && decide (height < lifetime.endHeight)

inductive NamespaceAlias (Address : Type) where
  | none
  | mosaicId (id : Nat)
  | address (address : Address)
  deriving DecidableEq

structure RootNamespace (Address : Type) where
  id : NamespaceId
  ownerAddress : Address
  lifetime : NamespaceLifetime
  namespaceAlias : NamespaceAlias Address := .none
  deriving DecidableEq

structure ChildNamespaceData (Address : Type) where
  ns : Namespace
  namespaceAlias : NamespaceAlias Address := .none
  deriving DecidableEq

abbrev Children (Address : Type) := SortedMap NamespaceId (ChildNamespaceData Address)

inductive NamespaceError where
  /-- "no root namespace exists for namespace" -/
  | noRootNamespace (id : NamespaceId)
  /-- "no namespace exists" -/
  | noNamespace (id : NamespaceId)
  /-- "cannot remove root namespace with children" -/
  | rootWithChildren (id : NamespaceId)
  /-- "child namespace already exists (id)" -/
  | childAlreadyExists (id : NamespaceId)
  /-- "child namespace has no parent, (child id, parent id)" -/
  | childHasNoParent (id parentId : NamespaceId)
  /-- "child has incorrect path (id)" -/
  | childHasIncorrectPath (id : NamespaceId)
  /-- "child namespace has incorrect root, (child id, root id)" -/
  | childHasIncorrectRoot (id rootId : NamespaceId)
  /-- "cannot remove child namespace (id)" -/
  | cannotRemoveChild (id : NamespaceId)
  /-- "cannot remove child namespace because it has decendents (id)" -/
  | childHasDescendents (id : NamespaceId)
  /-- "namespace (id) being linked is not under (root)" -/
  | notUnderRoot (id rootId : NamespaceId)

section
variable {Address : Type} [DecidableEq Address]

def RootNamespace.canExtend (root previous : RootNamespace Address) : Bool :=
  decide (root.id = previous.id) && decide (root.ownerAddress = previous.ownerAddress) &&
    previous.lifetime.isActive root.lifetime.startHeight

/-- Consecutive roots of a history that share their children, the most recent first. -/
structure SharedRoots (Address : Type) where
  back : RootNamespace Address
  previous : List (RootNamespace Address)
  children : Children Address

namespace SharedRoots

def roots (s : SharedRoots Address) : List (RootNamespace Address) := s.back :: s.previous

def levels (s : SharedRoots Address) : List (RootNamespace Address × Children Address) :=
  s.roots.map fun root => (root, s.children)

/-- `RootNamespace::add`. -/
def add (ns : Namespace) : EStateM NamespaceError (SharedRoots Address) Unit := do
  let s ← get
  if (s.children.find? ns.id).isSome then
    throw (.childAlreadyExists ns.id)
  if s.back.id ≠ ns.parentId then
    match s.children.find? ns.parentId with
    | none => throw (.childHasNoParent ns.id ns.parentId)
    | some parent =>
      if parent.ns.path.length ≠ ns.path.length - 1 then
        throw (.childHasIncorrectPath ns.id)
  if s.back.id ≠ ns.rootId then
    throw (.childHasIncorrectRoot ns.id ns.rootId)
  set { s with children := s.children.emplace ns.id { ns := ns } }

def hasDescendents (children : Children Address) (level : Nat) (id : NamespaceId) : Bool :=
  children.entries.any fun pair =>
    decide (level < pair.2.ns.path.length) && decide (pair.2.ns.path[level - 1]? = some id)

/-- `RootNamespace::remove`. -/
def remove (id : NamespaceId) : EStateM NamespaceError (SharedRoots Address) Unit := do
  let s ← get
  match s.children.find? id with
  | none => throw (.cannotRemoveChild id)
  | some child =>
    if hasDescendents s.children child.ns.path.length id then
      throw (.childHasDescendents id)
    set { s with children := s.children.erase id }

/-- `RootNamespace::setAlias`. The alias of a root is its own, the alias of a child is shared. -/
def setAlias (id : NamespaceId) (namespaceAlias : NamespaceAlias Address) :
    EStateM NamespaceError (SharedRoots Address) Unit := do
  let s ← get
  if s.back.id = id then
    set { s with back := { s.back with namespaceAlias := namespaceAlias } }
  else
    match s.children.find? id with
    | none => throw (.notUnderRoot id s.back.id)
    | some _ =>
      set { s with children := s.children.modify id fun child => { child with namespaceAlias := namespaceAlias } }

def prune (height : Nat) (s : SharedRoots Address) : Option (SharedRoots Address) :=
  match s.roots.filter fun root => decide (height < root.lifetime.endHeight) with
  | [] => none
  | back :: previous => some { s with back := back, previous := previous }

end SharedRoots

structure RootNamespaceHistory (Address : Type) where
  id : NamespaceId
  last : SharedRoots Address
  previous : List (SharedRoots Address)

/-- `std::set<NamespaceId>`. -/
abbrev NamespaceIds := SortedMap NamespaceId Unit

def addAllIds (ids : NamespaceIds) (children : Children Address) : NamespaceIds :=
  ids.insertAll (children.keys.map fun id => (id, ()))

def removeAllIds (ids : NamespaceIds) (children : Children Address) : NamespaceIds := ids.eraseAll children.keys

namespace RootNamespaceHistory

def groups (h : RootNamespaceHistory Address) : List (SharedRoots Address) := h.last :: h.previous

def ofGroups (id : NamespaceId) : List (SharedRoots Address) → Option (RootNamespaceHistory Address)
  | [] => none
  | last :: previous => some ⟨id, last, previous⟩

def roots (h : RootNamespaceHistory Address) : List (RootNamespace Address) := h.groups.flatMap SharedRoots.roots

def levels (h : RootNamespaceHistory Address) : List (RootNamespace Address × Children Address) :=
  h.groups.flatMap SharedRoots.levels

def back (h : RootNamespaceHistory Address) : RootNamespace Address := h.last.back

/-- The children of `back`. -/
def activeChildren (h : RootNamespaceHistory Address) : Children Address := h.last.children

def historyDepth (h : RootNamespaceHistory Address) : Nat := h.levels.length

/-- The number of roots until one that cannot be extended by the root after it. -/
def countExtended (next : RootNamespace Address) : List (RootNamespace Address) → Nat
  | [] => 0
  | root :: roots => if next.canExtend root then countExtended root roots + 1 else 0

def activeOwnerHistoryDepth (h : RootNamespaceHistory Address) : Nat := countExtended h.back h.roots

def numActiveRootChildren (h : RootNamespaceHistory Address) : Nat := h.activeChildren.size

def numAllHistoricalChildren (h : RootNamespaceHistory Address) : Nat := (h.levels.map fun level => level.2.size).sum

def ofRoot (id : NamespaceId) (owner : Address) (lifetime : NamespaceLifetime) : RootNamespaceHistory Address :=
  ⟨id, ⟨⟨id, owner, lifetime, .none⟩, [], ∅⟩, []⟩

def pushBack (h : RootNamespaceHistory Address) (owner : Address) (lifetime : NamespaceLifetime) :
    RootNamespaceHistory Address :=
  let newRootNamespace : RootNamespace Address := ⟨h.id, owner, lifetime, .none⟩
  if newRootNamespace.canExtend h.back then
    -- `renew`: the same children, and the alias of the root is copied
    { h with last := { h.last with
        back := ⟨h.back.id, h.back.ownerAddress, lifetime, h.back.namespaceAlias⟩
        previous := h.last.roots } }
  else { h with last := ⟨newRootNamespace, [], ∅⟩, previous := h.groups }

/-- `pop_back`; the result is `none` when the history is empty. -/
def popBack (h : RootNamespaceHistory Address) : Option (RootNamespaceHistory Address) :=
  match h.last.previous with
  | [] => ofGroups h.id h.previous
  | back :: previous => some { h with last := { h.last with back := back, previous := previous } }

/-- The ids that `prune` returns; it iterates from the oldest root on. -/
def prunedIds (h : RootNamespaceHistory Address) (height : Nat) : NamespaceIds :=
  let ids := h.levels.foldr (fun level ids =>
    if level.1.lifetime.endHeight ≤ height then addAllIds ids level.2 else removeAllIds ids level.2) ∅
  if (h.groups.filterMap (SharedRoots.prune height)).isEmpty then ids.insert h.id () else ids

def prune (h : RootNamespaceHistory Address) (height : Nat) : Option (RootNamespaceHistory Address) :=
  ofGroups h.id (h.groups.filterMap (SharedRoots.prune height))

/-- A root in the loop of the copy constructor: it has the children of the root before when it can extend it. -/
def copyRoot (level : RootNamespace Address × Children Address) :
    List (SharedRoots Address) → List (SharedRoots Address)
  | [] => [⟨level.1, [], level.2⟩]
  | s :: rest =>
    if level.1.canExtend s.back then { s with back := level.1, previous := s.roots } :: rest
    else ⟨level.1, [], level.2⟩ :: s :: rest

/-- The copy constructor. A delta copies a history before it is modified for the first time. -/
def copy (h : RootNamespaceHistory Address) : Option (RootNamespaceHistory Address) :=
  ofGroups h.id (h.levels.foldr copyRoot [])

end RootNamespaceHistory
end
end Catapult.Namespaces
