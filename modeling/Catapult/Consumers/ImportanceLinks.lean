import Catapult.Consumers.BlockchainCheckConsumer
import Catapult.Consumers.ChainSwitch

/-!
# The chain of importance blocks

An importance block holds the hash of the block at the previous importance height. The links between the importance
blocks of a peer list are checked by `BlockchainCheckConsumer`, the link of the first one by `BlockchainSyncConsumer`
against the storage before the switch: no importance height of the list lies between the two, so that the block it is
linked to is one that stays.
-/

namespace Catapult.Consumers
open BlockchainProcessor (received)
open BlockchainSyncConsumer
open Chain (add64)

variable {Hash Transaction Statement Delta Cache : Type}
  {storage kept elements processed : List (BlockElement Hash Transaction Statement)}
  {element : BlockElement Hash Transaction Statement} {grouping height startHeight i : Nat}

def IsImportanceHeight (grouping height : Nat) : Prop := height ≠ 1 ∧ height % grouping = 0

def previousImportanceHeight (grouping height : Nat) : Nat := if grouping < height then height - grouping else 1

/-- Every importance block holds the hash of the block at the previous importance height. -/
def ImportanceLinked (grouping : Nat) (storage : List (BlockElement Hash Transaction Statement)) : Prop :=
  ∀ height element, elementAt storage height = some element → IsImportanceHeight grouping height →
    ∃ previous, elementAt storage (previousImportanceHeight grouping height) = some previous ∧
      element.block.previousImportanceBlockHash = previous.entityHash

/-- The type of every block follows from its height. -/
def TypesFollow (grouping : Nat) (elements : List (BlockElement Hash Transaction Statement)) : Prop :=
  ∀ element ∈ elements, element.block.type = calculateBlockTypeFromHeight element.block.height grouping

theorem isImportanceBlock_calculate (hheight : height ≠ 1) :
    isImportanceBlock (calculateBlockTypeFromHeight height grouping) ↔ IsImportanceHeight grouping height := by
  unfold isImportanceBlock calculateBlockTypeFromHeight IsImportanceHeight
  rw [if_neg hheight]
  split
  · rename_i hmod
    simp [hheight, hmod]
  · rename_i hmod
    simp [hmod]

theorem IsImportanceHeight.add_le {other : Nat} (h : IsImportanceHeight grouping height)
    (hother : IsImportanceHeight grouping other) (hlt : other < height) : other + grouping ≤ height := by
  have hdvd := Nat.dvd_sub (Nat.dvd_of_mod_eq_zero h.2) (Nat.dvd_of_mod_eq_zero hother.2)
  have := Nat.le_of_dvd (by omega) hdvd
  omega

theorem IsImportanceHeight.sub (h : IsImportanceHeight grouping height) (hlt : grouping < height)
    (hne : height - grouping ≠ 1) : IsImportanceHeight grouping (height - grouping) :=
  ⟨hne, by rw [← Nat.mod_eq_sub_mod (Nat.le_of_lt hlt)]; exact h.2⟩

theorem IsImportanceHeight.le_previous {other : Nat} (h : IsImportanceHeight grouping height)
    (hother : IsImportanceHeight grouping other) (hpos : 1 ≤ other) (hlt : other < height) :
    other ≤ previousImportanceHeight grouping height := by
  have hle := h.add_le hother hlt
  unfold previousImportanceHeight
  rw [if_pos (by omega)]
  omega

theorem IsImportanceHeight.previous_lt (h : IsImportanceHeight grouping height) (hpos : 2 ≤ height) :
    1 ≤ previousImportanceHeight grouping height ∧ previousImportanceHeight grouping height < height := by
  have hgrouping : grouping ≠ 0 := by
    rintro rfl
    have := h.2
    rw [Nat.mod_zero] at this
    omega
  unfold previousImportanceHeight
  split
  · omega
  · omega

theorem elementAt_append_of_le (hle : height ≤ kept.length) :
    elementAt (kept ++ elements) height = elementAt kept height := by
  unfold elementAt
  split
  · rfl
  · rw [List.getElem?_append_left (by omega)]

theorem elementAt_append_of_lt (hlt : kept.length < height) :
    elementAt (kept ++ elements) height = elements[height - (kept.length + 1)]? := by
  unfold elementAt
  rw [if_neg (by omega), List.getElem?_append_right (by omega)]
  congr 1
  omega

theorem elementAt_take {count : Nat} (hle : height ≤ count) :
    elementAt (storage.take count) height = elementAt storage height := by
  unfold elementAt
  split
  · rfl
  · rw [List.getElem?_take_of_lt (by omega)]

theorem exists_received_eq (h : processed.map received = elements.map received) (hi : processed[i]? = some element) :
    ∃ peer, elements[i]? = some peer ∧ received peer = received element := by
  have hget := congrArg (·[i]?) h
  simp only [List.getElem?_map, hi, Option.map_some] at hget
  obtain ⟨peer, hpeer, heq⟩ := Option.map_eq_some_iff.1 hget.symm
  exact ⟨peer, hpeer, heq⟩

variable [DecidableEq Hash]

/-- The links of a list give consecutive heights, as long as these do not wrap around. -/
theorem consecutiveFrom_of_checkElements {first : BlockElement Hash Transaction Statement}
    (hcheck : BlockchainCheckConsumer.checkElements elements none none [] = .ok ())
    (hfirst : elements.head? = some first) (hsmall : first.block.height + elements.length ≤ 2 ^ 64) :
    ConsecutiveFrom first.block.height elements := by
  intro i
  induction i with
  | zero =>
    intro element hi
    rw [← List.head?_eq_getElem?, hfirst, Option.some.injEq] at hi
    rw [hi, Nat.add_zero]
  | succ i ih =>
    intro element hi
    have hlt := (List.getElem?_eq_some_iff.1 hi).1
    obtain ⟨previous, hprevious⟩ : ∃ previous, elements[i]? = some previous :=
      ⟨_, List.getElem?_eq_getElem (by omega)⟩
    have hlink := BlockchainCheckConsumer.isLink_of_checkElements hcheck hprevious hi
    unfold BlockchainCheckConsumer.isLink isChainLink at hlink
    split at hlink
    · cases hlink
    · rename_i hheight
      rw [not_or, not_not, ih previous hprevious] at hheight
      rw [← hheight.1, add64, Nat.mod_eq_of_lt (by omega)]
      omega

omit [DecidableEq Hash] in
theorem isImportanceBlock_iff (htypes : TypesFollow grouping elements) (hheights : ConsecutiveFrom startHeight elements)
    (hstart : 2 ≤ startHeight) (hi : elements[i]? = some element) :
    isImportanceBlock element.block.type ↔ IsImportanceHeight grouping (startHeight + i) := by
  rw [htypes element (List.mem_of_getElem? hi), hheights i element hi]
  exact isImportanceBlock_calculate (by omega)

theorem link_of_le_previous {previousIndex : Nat}
    (hcheck : BlockchainCheckConsumer.checkElements elements none none [] = .ok ())
    (htypes : TypesFollow grouping elements) (hheights : ConsecutiveFrom startHeight elements)
    (hstart : 2 ≤ startHeight) (hi : elements[i]? = some element)
    (himportance : IsImportanceHeight grouping (startHeight + i))
    (hprevious : previousImportanceHeight grouping (startHeight + i) = startHeight + previousIndex) :
    ∃ previous, elements[previousIndex]? = some previous ∧
      element.block.previousImportanceBlockHash = previous.entityHash := by
  have hlt := (himportance.previous_lt (by omega)).2
  have hbound := (List.getElem?_eq_some_iff.1 hi).1
  obtain ⟨previous, hget⟩ : ∃ previous, elements[previousIndex]? = some previous :=
    ⟨_, List.getElem?_eq_getElem (by omega)⟩
  have hprevious' : IsImportanceHeight grouping (startHeight + previousIndex) := by
    unfold previousImportanceHeight at hprevious
    split at hprevious
    · rename_i hgrouping
      rw [← hprevious]
      exact himportance.sub hgrouping (by omega)
    · omega
  refine ⟨previous, hget, BlockchainCheckConsumer.importanceLink_of_checkElements hcheck hget
    ((isImportanceBlock_iff htypes hheights hstart hget).2 hprevious') (by omega) hi
    ((isImportanceBlock_iff htypes hheights hstart hi).2 himportance) ?_⟩
  intro k other hk hgt hlt' hother
  have := himportance.le_previous ((isImportanceBlock_iff htypes hheights hstart hk).1 hother) (by omega) (by omega)
  omega

omit [DecidableEq Hash] in
theorem link_of_previous_lt (hfirst : FirstLinked grouping storage elements) (htypes : TypesFollow grouping elements)
    (hheights : ConsecutiveFrom startHeight elements) (hstart : 2 ≤ startHeight) (hi : elements[i]? = some element)
    (himportance : IsImportanceHeight grouping (startHeight + i))
    (hprevious : previousImportanceHeight grouping (startHeight + i) < startHeight) :
    ∃ previous, elementAt storage (previousImportanceHeight grouping (startHeight + i)) = some previous ∧
      element.block.previousImportanceBlockHash = previous.entityHash := by
  obtain ⟨previousHeight, previous, hgrouped, hstored, hhash⟩ :=
    hfirst i element hi ((isImportanceBlock_iff htypes hheights hstart hi).2 himportance) (by
      intro j other hj hlt hother
      have := himportance.le_previous ((isImportanceBlock_iff htypes hheights hstart hj).1 hother) (by omega) (by omega)
      omega)
  rw [(previousGroupedHeight_eq_some hgrouped).2, hheights i element hi] at hstored
  exact ⟨previous, hstored, hhash⟩

omit [DecidableEq Hash] in
theorem firstLinked_of_map_received (h : FirstLinked grouping storage processed)
    (hreceived : processed.map received = elements.map received) : FirstLinked grouping storage elements := by
  intro i element hi htype hbefore
  obtain ⟨peer, hpeer, heq⟩ := exists_received_eq hreceived.symm hi
  have hblock : peer.block = element.block := congrArg Prod.fst heq
  rw [← hblock] at htype ⊢
  refine h i peer hpeer htype fun j other hj hlt => ?_
  obtain ⟨peer', hpeer', heq'⟩ := exists_received_eq hreceived hj
  have hblock' : peer'.block = other.block := congrArg Prod.fst heq'
  rw [← hblock']
  exact hbefore j peer' hpeer' hlt

/-- A switch that both consumers accept keeps the importance blocks linked. -/
theorem importanceLinked_of_sync (checkConsumer : BlockchainCheckConsumer)
    (handlers : BlockchainSyncHandlers Hash Transaction Statement Delta Cache) (grouping : Nat) (source : InputSource)
    (elements : List (BlockElement Hash Transaction Statement))
    (world world' : World Hash Transaction Statement Delta Cache)
    (hstored : Stored world.storage) (hlength : world.storage.length < 2 ^ 63) (hsize : elements.length < 2 ^ 63)
    (hlinked : ImportanceLinked grouping world.storage) (htypes : TypesFollow grouping elements)
    (hcheck : checkConsumer.check elements = .ok ())
    (hsync : sync handlers grouping elements source world = .ok () world') :
    ImportanceLinked grouping world'.storage := by
  obtain ⟨first, syncState, processed, cacheDelta, hhead, hchecked, hreceived, hfirst, hstorage, -⟩ := sync_eq_ok hsync
  obtain ⟨hstart, hend, -⟩ := isLinked_eq_true hchecked.linked
  have hloop := BlockchainCheckConsumer.checkElements_of_check hcheck
  have hheights := consecutiveFrom_of_checkElements hloop hhead (by omega)
  obtain ⟨-, hlen, htake⟩ := take_append_cons_drop hchecked.common
  have hcommon : syncState.commonBlockElement.block.height = first.block.height - 1 := by
    rw [hstored _ _ (elementAt_eq_some hchecked.common).2]
    omega
  rw [hcommon] at hstorage
  have hkept : (world.storage.take (first.block.height - 1)).length + 1 = first.block.height := by
    rw [htake, List.length_append, List.length_singleton]
    omega
  -- a block below the list is the one that was there before the switch
  have hbelow : ∀ height, height < first.block.height →
      elementAt world'.storage height = elementAt world.storage height := by
    intro height hlt
    rw [hstorage, elementAt_append_of_le (by omega), elementAt_take (by omega)]
  have habove : ∀ i, elementAt world'.storage (first.block.height + i) = processed[i]? := by
    intro i
    rw [hstorage, elementAt_append_of_lt (by omega), hkept, Nat.add_sub_cancel_left]
  intro height element hat himportance
  by_cases hlt : height < first.block.height
  · rw [hbelow height hlt] at hat
    obtain ⟨previous, hprevious, hhash⟩ := hlinked height element hat himportance
    refine ⟨previous, ?_, hhash⟩
    have := himportance.previous_lt (by have := himportance.1; have := (elementAt_eq_some hat).1; omega)
    rw [hbelow _ (by omega)]
    exact hprevious
  · obtain ⟨i, rfl⟩ := Nat.exists_eq_add_of_le (Nat.not_lt.1 hlt)
    rw [habove] at hat
    obtain ⟨peer, hpeer, heq⟩ := exists_received_eq hreceived hat
    have hblock : peer.block = element.block := congrArg Prod.fst heq
    rw [← hblock]
    by_cases hprevious : previousImportanceHeight grouping (first.block.height + i) < first.block.height
    · rw [hbelow _ hprevious]
      have hfirst' := firstLinked_of_map_received hfirst hreceived
      exact link_of_previous_lt hfirst' htypes hheights hstart hpeer himportance hprevious
    · obtain ⟨j, hj⟩ := Nat.exists_eq_add_of_le (Nat.not_lt.1 hprevious)
      obtain ⟨previous, hget, hhash⟩ := link_of_le_previous hloop htypes hheights hstart hpeer himportance hj
      obtain ⟨stored, hstored', heq'⟩ := exists_received_eq hreceived.symm hget
      have hhash' : stored.entityHash = previous.entityHash := congrArg (fun r => r.2.1) heq'
      rw [hj, habove, hhash, ← hhash']
      exact ⟨stored, hstored', rfl⟩

theorem importanceLinked_sampleWorld : ImportanceLinked 2 sampleWorld.storage := by
  intro height element hat himportance
  match height, hat, himportance with
  | 1, _, h => exact absurd rfl h.1
  | 2, rfl, _ => exact ⟨_, rfl, rfl⟩
  | 3, _, h => exact absurd h.2 (by decide)

theorem typesFollow_samplePeers : TypesFollow 2 samplePeers := by
  intro element hmem
  obtain ⟨i, hi⟩ := List.getElem?_of_mem hmem
  match i, hi with
  | 0, rfl => rfl
  | 1, rfl => rfl

/-- Blocks 3 and 4 replace block 3, and block 4 is linked to block 2. -/
theorem importanceLinked_of_sync_sample :
    ∃ world', sync sampleHandlers 2 samplePeers .remotePull sampleWorld = .ok () world' ∧
      ImportanceLinked 2 world'.storage :=
  ⟨_, rfl, importanceLinked_of_sync ⟨1000, 5000⟩ sampleHandlers 2 .remotePull samplePeers sampleWorld _
    stored_sampleWorld (by decide) (by decide) importanceLinked_sampleWorld typesFollow_samplePeers rfl rfl⟩

end Catapult.Consumers
