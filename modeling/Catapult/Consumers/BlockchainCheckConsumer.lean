import Catapult.Consumers.BlockElement
import Mathlib.Data.List.Basic

/-!
# `BlockchainCheckConsumer`

The checks of a list of blocks on its own: its last timestamp, the links from block to block and from importance block
to importance block, and that no transaction is there twice. The first block and the first importance block are linked
to nothing here.
-/

namespace Catapult.Consumers
open Chain (add64)

variable {Hash Transaction Statement : Type} [DecidableEq Hash]

structure BlockchainCheckConsumer where
  maxBlockFutureTime : Nat
  time : Nat

namespace BlockchainCheckConsumer

def isLink (previousElement : BlockElement Hash Transaction Statement) (currentBlock : Block Hash) : Bool :=
  isChainLink previousElement.block previousElement.entityHash currentBlock

def insertHashes (hashes : List Hash) : List (TransactionElement Hash Transaction) → Option (List Hash)
  | [] => some hashes
  | transaction :: transactions =>
    if transaction.entityHash ∈ hashes then none
    else insertHashes (transaction.entityHash :: hashes) transactions

/-- The loop over the elements, with the previous element, the hash of the previous importance block and the hashes of
the transactions so far. -/
def checkElements : List (BlockElement Hash Transaction Statement) →
    Option (BlockElement Hash Transaction Statement) → Option Hash → List Hash → Except Interrupt Unit
  | [], _, _, _ => .ok ()
  | element :: elements, previousElement, previousImportanceBlockHash, hashes =>
    if previousElement.any (fun previous => !isLink previous element.block) then
      .error (abortWith .remoteChainImproperLink)
    else if isImportanceBlock element.block.type ∧
        previousImportanceBlockHash.any (fun hash => hash ≠ element.block.previousImportanceBlockHash) then
      .error (abortWith .remoteChainImproperImportanceLink)
    else
      let importanceBlockHash :=
        if isImportanceBlock element.block.type then some element.entityHash else previousImportanceBlockHash
      match insertHashes hashes element.transactions with
      | none => .error (abortWith .remoteChainDuplicateTransactions)
      | some hashes => checkElements elements (some element) importanceBlockHash hashes

def check (consumer : BlockchainCheckConsumer) (elements : List (BlockElement Hash Transaction Statement)) :
    Except Interrupt Unit :=
  match elements.getLast? with
  | none => .error (abortWith .emptyInput)
  | some last =>
    if last.block.timestamp ≤ add64 consumer.time consumer.maxBlockFutureTime then checkElements elements none none []
    else .error (abortWith .remoteChainTooFarInFuture)

variable {elements : List (BlockElement Hash Transaction Statement)}
  {element next : BlockElement Hash Transaction Statement}

theorem checkElements_cons_eq_ok {previousElement : Option (BlockElement Hash Transaction Statement)}
    {previousHash : Option Hash} {hashes : List Hash}
    (h : checkElements (element :: elements) previousElement previousHash hashes = .ok ()) :
    (∀ previous ∈ previousElement, isLink previous element.block) ∧
    (isImportanceBlock element.block.type →
      ∀ hash ∈ previousHash, element.block.previousImportanceBlockHash = hash) ∧
    ∃ hashes', checkElements elements (some element)
      (if isImportanceBlock element.block.type then some element.entityHash else previousHash) hashes' = .ok () := by
  unfold checkElements at h
  split at h
  · cases h
  rename_i hlink
  split at h
  · cases h
  rename_i himportance
  dsimp only at h
  split at h
  · cases h
  rename_i hashes' _
  refine ⟨?_, ?_, hashes', h⟩
  · intro previous hprevious
    rw [Option.mem_def] at hprevious
    subst hprevious
    by_contra hnot
    exact hlink (by simpa using hnot)
  · intro htype hash hhash
    rw [Option.mem_def] at hhash
    subst hhash
    by_contra hnot
    exact himportance ⟨htype, by simpa using fun heq => hnot heq.symm⟩

theorem isLink_of_checkElements {previousElement : Option (BlockElement Hash Transaction Statement)}
    {previousHash : Option Hash} {hashes : List Hash}
    (h : checkElements elements previousElement previousHash hashes = .ok ()) {i : Nat}
    (hi : elements[i]? = some element) (hnext : elements[i + 1]? = some next) : isLink element next.block := by
  induction elements generalizing previousElement previousHash hashes i with
  | nil => cases hi
  | cons first elements ih =>
    obtain ⟨-, -, hashes', hrest⟩ := checkElements_cons_eq_ok h
    cases i with
    | zero =>
      cases elements with
      | nil => cases hnext
      | cons second elements =>
        obtain ⟨hlink, -⟩ := checkElements_cons_eq_ok hrest
        rw [List.getElem?_cons_zero, Option.some.injEq] at hi
        rw [List.getElem?_cons_succ, List.getElem?_cons_zero, Option.some.injEq] at hnext
        subst hi hnext
        exact hlink _ rfl
    | succ i => exact ih hrest hi hnext

/-- An importance block holds the hash of the last importance block before it, where `previousHash` is that of the
blocks before the list. -/
theorem link_of_checkElements {previousElement : Option (BlockElement Hash Transaction Statement)}
    {previousHash : Option Hash} {hashes : List Hash}
    (h : checkElements elements previousElement previousHash hashes = .ok ()) {i : Nat}
    (hi : elements[i]? = some element) (htype : isImportanceBlock element.block.type) {hash : Hash}
    (hprevious : ∀ j previous, elements[j]? = some previous → j < i → ¬isImportanceBlock previous.block.type)
    (hhash : previousHash = some hash) : element.block.previousImportanceBlockHash = hash := by
  induction elements generalizing previousElement previousHash hashes i with
  | nil => cases hi
  | cons first elements ih =>
    obtain ⟨-, himportance, hashes', hrest⟩ := checkElements_cons_eq_ok h
    cases i with
    | zero =>
      rw [List.getElem?_cons_zero, Option.some.injEq] at hi
      subst hi
      exact himportance htype hash hhash
    | succ i =>
      have hfirst := hprevious 0 first rfl (Nat.succ_pos i)
      rw [if_neg hfirst] at hrest
      exact ih hrest hi (fun j previous hj hlt => hprevious (j + 1) previous hj (Nat.succ_lt_succ hlt)) hhash

theorem importanceLink_of_checkElements {previousElement : Option (BlockElement Hash Transaction Statement)}
    {previousHash : Option Hash} {hashes : List Hash}
    (h : checkElements elements previousElement previousHash hashes = .ok ()) {i j : Nat}
    (hi : elements[i]? = some element) (htype : isImportanceBlock element.block.type) (hij : i < j)
    (hj : elements[j]? = some next) (hnext : isImportanceBlock next.block.type)
    (hbetween : ∀ k other, elements[k]? = some other → i < k → k < j → ¬isImportanceBlock other.block.type) :
    next.block.previousImportanceBlockHash = element.entityHash := by
  induction elements generalizing previousElement previousHash hashes i j with
  | nil => cases hi
  | cons first elements ih =>
    obtain ⟨-, -, hashes', hrest⟩ := checkElements_cons_eq_ok h
    obtain _ | j := j
    · cases hij
    cases i with
    | zero =>
      rw [List.getElem?_cons_zero, Option.some.injEq] at hi
      subst hi
      rw [if_pos htype] at hrest
      exact link_of_checkElements hrest hj hnext
        (fun k other hk hlt => hbetween (k + 1) other hk (Nat.succ_pos k) (Nat.succ_lt_succ hlt)) rfl
    | succ i =>
      exact ih hrest hi (Nat.lt_of_succ_lt_succ hij) hj
        (fun k other hk hik hkj => hbetween (k + 1) other hk (Nat.succ_lt_succ hik) (Nat.succ_lt_succ hkj))

theorem checkElements_of_check {consumer : BlockchainCheckConsumer} (h : consumer.check elements = .ok ()) :
    checkElements elements none none [] = .ok () := by
  unfold check at h
  split at h
  · cases h
  · split at h
    · exact h
    · cases h

end BlockchainCheckConsumer

end Catapult.Consumers
