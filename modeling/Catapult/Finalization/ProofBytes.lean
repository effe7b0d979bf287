import Catapult.Finalization.ProofGrouping
import Catapult.Io.BlockElement

/-!
# The bytes of a finalization proof

`CreateFinalizationProof` computes the size of every message group and of the proof in one pass and copies the header,
the hashes and the signatures in another. `messageGroups` is how a proof is read again: a container of entities that
are found through their sizes.

The messages that the verifier makes of the groups are the messages of the round again.
-/

namespace Catapult.Finalization
open Reader FinalizationMessage RoundMessageAggregator

def hashBytes (hash : Hash256) : List UInt8 := beBytes 32 hash.toNat

def pairBytes (pair : ParentPublicKeySignaturePair) : List UInt8 :=
  beBytes 32 pair.parentPublicKey.toNat ++ beBytes 64 pair.signature.toNat

def signatureBytes (signature : BmTreeSignature) : List UInt8 := pairBytes signature.root ++ pairBytes signature.bottom

namespace FinalizationMessageGroup

/-- `sizeof(FinalizationMessageGroup)`: size, counts, stage and height. -/
def headerSize : Nat := 4 + 4 + 4 + 4 + 8

def size (group : FinalizationMessageGroup) : Nat :=
  headerSize + group.hashes.length * 32 + group.signatures.length * 192

def bytes (group : FinalizationMessageGroup) : List UInt8 :=
  leBytes 4 group.size ++ (leBytes 4 group.hashes.length ++ (leBytes 4 group.signatures.length ++
    (leBytes 4 group.stage.toNat ++ (leBytes 8 group.height.toNat ++
      (group.hashes.flatMap hashBytes ++ group.signatures.flatMap signatureBytes)))))

end FinalizationMessageGroup

namespace FinalizationProof

/-- `CalculateTotalSize`, with the header. -/
def size (proof : FinalizationProof) : Nat :=
  proofHeaderSize + (proof.messageGroups.map FinalizationMessageGroup.size).sum

def bytes (proof : FinalizationProof) : List UInt8 :=
  leBytes 4 proof.size ++ (leBytes 4 proof.version.toNat ++ (leBytes 4 proof.round.epoch.toNat ++
    (leBytes 4 proof.round.point.toNat ++ (leBytes 8 proof.height.toNat ++
      (hashBytes proof.hash ++ proof.messageGroups.flatMap FinalizationMessageGroup.bytes)))))

end FinalizationProof

def readBitVec (k : Nat) : Reader Unit (BitVec (8 * k)) := do
  let raw ← bytes () k
  return BitVec.ofNat (8 * k) (ofLeBytes raw.1.reverse)

def readPair : Reader Unit ParentPublicKeySignaturePair := do
  let parentPublicKey ← readBitVec 32
  let signature ← readBitVec 64
  return ⟨parentPublicKey, signature⟩

def readSignature : Reader Unit BmTreeSignature := do
  let root ← readPair
  let bottom ← readPair
  return ⟨root, bottom⟩

/-- The fields of a group at its start, with the hashes and the signatures that they count. -/
def readMessageGroup : Reader Unit FinalizationMessageGroup := do
  let _size ← nat () 4
  let hashesCount ← nat () 4
  let signaturesCount ← nat () 4
  let stage ← uint32 ()
  let height ← uint64 ()
  let hashes ← times (readBitVec 32) hashesCount
  let signatures ← times readSignature signaturesCount
  if hcount : hashes.length < 2 ^ 32 then
    return ⟨stage, height, hashes, signatures, hcount⟩
  else throw ()

/-- `MessageGroups` over the bytes after the header; `none` when the iteration meets an error. -/
def messageGroups : (fuel : Nat) → List UInt8 → Option (List FinalizationMessageGroup)
  | _, [] => some []
  | 0, _ :: _ => none
  | fuel + 1, b :: rest =>
    let entities := b :: rest
    let size := ofLeBytes (entities.take 4)
    if entities.length < 4 ∨ entities.length < size ∨ size < FinalizationMessageGroup.headerSize then none
    else match readMessageGroup entities with
      | .error .. => none
      | .ok group _ =>
        if entities.length = size then some [group]
        else if entities.length < size + Io.paddingSize size then none
        else (messageGroups fuel (entities.drop (size + Io.paddingSize size))).map (group :: ·)

def readProofHeader : Reader Unit (UInt32 × FinalizationRound × UInt64 × Hash256) := do
  let _size ← nat () 4
  let version ← uint32 ()
  let epoch ← uint32 ()
  let point ← uint32 ()
  let height ← uint64 ()
  let hash ← readBitVec 32
  return (version, ⟨epoch, point⟩, height, hash)

def readProof (proof : List UInt8) : Option FinalizationProof :=
  match readProofHeader proof with
  | .error .. => none
  | .ok (version, round, height, hash) payload =>
    (messageGroups payload.length payload).map fun groups => ⟨version, round, height, hash, groups⟩

theorem length_hashBytes (hash : Hash256) : (hashBytes hash).length = 32 := length_beBytes 32 _

theorem length_signatureBytes (signature : BmTreeSignature) : (signatureBytes signature).length = 192 := by
  simp only [signatureBytes, pairBytes, List.length_append, length_beBytes]

theorem length_flatMap_of_width {α : Type*} {f : α → List UInt8} {k : Nat} (h : ∀ a, (f a).length = k) (l : List α) :
    (l.flatMap f).length = l.length * k := by
  induction l with
  | nil => exact (Nat.zero_mul k).symm
  | cons a l ih => rw [List.flatMap_cons, List.length_append, ih, h, List.length_cons, Nat.succ_mul, Nat.add_comm]

namespace FinalizationMessageGroup

theorem length_bytes (group : FinalizationMessageGroup) : group.bytes.length = group.size := by
  simp only [bytes, List.length_append, length_leBytes, length_flatMap_of_width length_hashBytes,
    length_flatMap_of_width length_signatureBytes, size, headerSize]
  omega

theorem paddingSize_size (group : FinalizationMessageGroup) : Io.paddingSize group.size = 0 := by
  rw [Io.paddingSize, if_pos]
  simp only [size, headerSize]
  omega

end FinalizationMessageGroup

theorem FinalizationProof.length_bytes (proof : FinalizationProof) : proof.bytes.length = proof.size := by
  have hgroups : (proof.messageGroups.flatMap FinalizationMessageGroup.bytes).length =
      (proof.messageGroups.map FinalizationMessageGroup.size).sum := by
    rw [List.length_flatMap, List.map_congr_left fun group _ => group.length_bytes]
  simp only [bytes, List.length_append, length_leBytes, length_hashBytes, hgroups, size, proofHeaderSize]
  omega

theorem Reads.bitVec {k : Nat} (x : BitVec (8 * k)) : Reads (readBitVec k) (beBytes k x.toNat) x := by
  have hpow : (256 : Nat) ^ k = 2 ^ (8 * k) := by rw [Nat.pow_mul]
  have hvalue : BitVec.ofNat (8 * k) (ofLeBytes (beBytes k x.toNat).reverse) = x := by
    rw [beBytes, List.reverse_reverse, ofLeBytes_leBytes (by rw [hpow]; exact x.isLt), BitVec.ofNat_toNat,
      BitVec.setWidth_eq]
  have hbytes : Reads (Reader.bytes () k) (beBytes k x.toNat) ⟨beBytes k x.toNat, length_beBytes k _⟩ :=
    Reads.bytes ⟨beBytes k x.toNat, length_beBytes k _⟩
  have hread := hbytes.bind_pure (b := fun raw => BitVec.ofNat (8 * k) (ofLeBytes raw.1.reverse))
  simp only [hvalue] at hread
  exact hread

theorem Reads.pair (pair : ParentPublicKeySignaturePair) : Reads readPair (pairBytes pair) pair :=
  (Reads.bitVec (k := 32) pair.parentPublicKey).bind (Reads.bitVec (k := 64) pair.signature).bind_pure

theorem Reads.signature (signature : BmTreeSignature) : Reads readSignature (signatureBytes signature) signature :=
  (Reads.pair signature.root).bind (Reads.pair signature.bottom).bind_pure

theorem Reads.messageGroup {group : FinalizationMessageGroup} (hsize : group.size < 2 ^ 32) :
    Reads readMessageGroup group.bytes group := by
  have hsignatures : group.signatures.length < 256 ^ 4 := by
    have : group.size = FinalizationMessageGroup.headerSize + group.hashes.length * 32 +
      group.signatures.length * 192 := rfl
    omega
  have hcounts := group.hashesCount_lt
  unfold readMessageGroup FinalizationMessageGroup.bytes
  refine (Reads.nat (by omega)).bind ((Reads.nat (by omega)).bind ((Reads.nat hsignatures).bind ?_))
  refine (Reads.uint32 group.stage).bind ((Reads.uint64 group.height).bind ?_)
  refine (Reads.times (g := hashBytes) fun hash _ => Reads.bitVec (k := 32) hash).bind ?_
  rw [← List.append_nil (group.signatures.flatMap signatureBytes)]
  refine (Reads.times (g := signatureBytes) fun signature _ => Reads.signature signature).bind ?_
  rw [dif_pos group.hashesCount_lt]
  exact Reads.pure group

theorem messageGroups_flatMap {groups : List FinalizationMessageGroup}
    (hsize : (groups.map FinalizationMessageGroup.size).sum < 2 ^ 32) {fuel : Nat} (hfuel : groups.length ≤ fuel) :
    messageGroups fuel (groups.flatMap FinalizationMessageGroup.bytes) = some groups := by
  induction groups generalizing fuel with
  | nil => rw [List.flatMap_nil, messageGroups]
  | cons group groups ih =>
    rw [List.map_cons, List.sum_cons] at hsize
    have hlength := group.length_bytes
    have hheader : FinalizationMessageGroup.headerSize ≤ group.size := by
      unfold FinalizationMessageGroup.size
      omega
    have hfour : 4 ≤ group.size := Nat.le_trans (by decide) hheader
    have hfirst : ofLeBytes ((group.bytes ++ groups.flatMap FinalizationMessageGroup.bytes).take 4) = group.size := by
      rw [List.take_append_of_le_length (by omega), FinalizationMessageGroup.bytes,
        List.take_left' (length_leBytes 4 _), ofLeBytes_leBytes (by omega)]
    have hread := Reads.messageGroup (show group.size < 2 ^ 32 by omega) (groups.flatMap FinalizationMessageGroup.bytes)
    obtain ⟨fuel, rfl⟩ : ∃ n, fuel = n + 1 := ⟨fuel - 1, by rw [List.length_cons] at hfuel; omega⟩
    rw [List.flatMap_cons]
    obtain ⟨b, rest, hcons⟩ : ∃ b rest, group.bytes ++ groups.flatMap FinalizationMessageGroup.bytes = b :: rest := by
      refine List.exists_cons_of_ne_nil fun hnil => ?_
      have := congrArg List.length hnil
      rw [List.length_append, List.length_nil] at this
      omega
    have htotal : (b :: rest).length = group.size + (groups.flatMap FinalizationMessageGroup.bytes).length := by
      rw [← hcons, List.length_append, hlength]
    have hdrop : (b :: rest).drop group.size = groups.flatMap FinalizationMessageGroup.bytes := by
      rw [← hcons, ← hlength, List.drop_left]
    rw [hcons] at hfirst hread ⊢
    rw [messageGroups]
    simp only [hfirst, hread, group.paddingSize_size, Nat.add_zero]
    rw [if_neg (by omega)]
    by_cases hlast : groups.flatMap FinalizationMessageGroup.bytes = []
    · rw [hlast, List.length_nil, Nat.add_zero] at htotal
      rw [if_pos htotal]
      cases groups with
      | nil => rfl
      | cons next _ =>
        rw [List.flatMap_cons, List.append_eq_nil_iff] at hlast
        have hnext := next.length_bytes
        rw [hlast.1, List.length_nil, FinalizationMessageGroup.size, FinalizationMessageGroup.headerSize] at hnext
        omega
    · have hpos := List.length_pos_iff.2 hlast
      rw [if_neg (by omega), if_neg (by omega), hdrop, ih (by omega) (by rw [List.length_cons] at hfuel; omega)]
      rfl

theorem length_le_flatMap_bytes (groups : List FinalizationMessageGroup) :
    groups.length ≤ (groups.flatMap FinalizationMessageGroup.bytes).length := by
  induction groups with
  | nil => exact Nat.le_refl _
  | cons group groups ih =>
    rw [List.flatMap_cons, List.length_append, List.length_cons, group.length_bytes, FinalizationMessageGroup.size,
      FinalizationMessageGroup.headerSize]
    omega

theorem readProof_bytes {proof : FinalizationProof} (hsize : proof.size < 2 ^ 32) :
    readProof proof.bytes = some proof := by
  have hgroups : (proof.messageGroups.map FinalizationMessageGroup.size).sum < 2 ^ 32 := by
    unfold FinalizationProof.size at hsize
    omega
  have hheader : Reads readProofHeader (leBytes 4 proof.size ++ (leBytes 4 proof.version.toNat ++
      (leBytes 4 proof.round.epoch.toNat ++ (leBytes 4 proof.round.point.toNat ++ (leBytes 8 proof.height.toNat ++
        hashBytes proof.hash))))) (proof.version, proof.round, proof.height, proof.hash) := by
    unfold readProofHeader
    refine (Reads.nat (by omega)).bind ((Reads.uint32 proof.version).bind ?_)
    refine (Reads.uint32 proof.round.epoch).bind ((Reads.uint32 proof.round.point).bind ?_)
    exact (Reads.uint64 proof.height).bind (Reads.bitVec (k := 32) proof.hash).bind_pure
  have hread := hheader (proof.messageGroups.flatMap FinalizationMessageGroup.bytes)
  simp only [List.append_assoc] at hread
  unfold readProof FinalizationProof.bytes
  rw [hread]
  dsimp only
  rw [messageGroups_flatMap hgroups (length_le_flatMap_bytes _)]
  rfl

/-- What is written for the messages of a round: the size of the proof is that of its parts, it is read as it was
written, and the verifier gets the messages back. -/
structure Lossless (statistics : FinalizationStatistics) (messages : List FinalizationMessage)
    (proof : FinalizationProof) : Prop where
  header : proof.version = FinalizationProof.currentVersion ∧ proof.round = statistics.round ∧
    proof.height = statistics.height ∧ proof.hash = statistics.hash
  size_eq : ofLeBytes (proof.bytes.take 4) = proof.bytes.length
  parts : proof.bytes.length =
    proofHeaderSize + (proof.messageGroups.map fun group => group.bytes.length).sum
  group_size_eq : ∀ group ∈ proof.messageGroups, ofLeBytes (group.bytes.take 4) = group.bytes.length
  nonempty : ∀ group ∈ proof.messageGroups, group.signatures ≠ []
  read : readProof proof.bytes = some proof
  perm : proof.messages.Perm messages

theorem signatures_ne_nil {round : FinalizationRound} (messages : List FinalizationMessage) :
    ∀ group ∈ groupMessages round messages, group.2 ≠ [] := by
  have hfind : ∀ key group, (messages.foldl (groupMessage round) ∅).find? key = some group → group.2 ≠ [] := by
    induction messages using List.reverseRecOn with
    | nil => exact fun key group h => by cases h
    | append_singleton messages message ih =>
      intro key group h
      rw [List.foldl_append, List.foldl_cons, List.foldl_nil, groupMessage] at h
      split at h
      · rw [SortedMap.find?_alter] at h
        split at h
        · cases h
          unfold SignatureGroup.addSignature
          split
          · exact List.cons_ne_nil _ _
          · exact List.append_ne_nil_of_right_ne_nil _ (List.cons_ne_nil _ _)
        · exact ih key group h
      · exact ih key group h
  intro group hgroup
  obtain ⟨e, he, rfl⟩ := List.mem_map.1 hgroup
  exact hfind e.1 e.2 (SortedMap.mem_entries_iff.1 he)

/-- Grouping the messages of a round is lossless whenever the proof fits in its 32-bit size. -/
theorem createFinalizationProof_lossless (statistics : FinalizationStatistics) (messages : List FinalizationMessage)
    (h : ∀ m ∈ messages, CanGroup statistics.round m)
    (hfits : proofHeaderSize + ((groupMessages statistics.round messages).map SignatureGroup.size).sum < 2 ^ 32) :
    ∃ proof, createFinalizationProof statistics messages = some proof ∧ Lossless statistics messages proof := by
  have hproof := createFinalizationProof_of_fits hfits
  generalize hp : (⟨FinalizationProof.currentVersion, statistics.round, statistics.height, statistics.hash,
    (groupMessages statistics.round messages).map SignatureGroup.toMessageGroup⟩ : FinalizationProof) = proof at hproof
  have hgroups : proof.messageGroups = (groupMessages statistics.round messages).map SignatureGroup.toMessageGroup := by
    rw [← hp]
  have hsizes : (proof.messageGroups.map FinalizationMessageGroup.size).sum =
      ((groupMessages statistics.round messages).map SignatureGroup.size).sum := by
    rw [hgroups, List.map_map]
    rfl
  have hsize : proof.size < 2 ^ 32 := by
    rw [FinalizationProof.size, hsizes]
    exact hfits
  refine ⟨proof, hproof, ?_, ?_, ?_, fun group hgroup => ?_, fun group hgroup => ?_, readProof_bytes hsize,
    perm_of_createFinalizationProof h hproof⟩
  · rw [← hp]
    exact ⟨rfl, rfl, rfl, rfl⟩
  · rw [proof.length_bytes, FinalizationProof.bytes, List.take_left' (length_leBytes 4 _),
      ofLeBytes_leBytes (by omega)]
  · have hlengths : proof.messageGroups.map (fun group => group.bytes.length) =
        proof.messageGroups.map FinalizationMessageGroup.size :=
      List.map_congr_left fun group _ => group.length_bytes
    rw [proof.length_bytes, hlengths]
    rfl
  · have hle : group.size ≤ (proof.messageGroups.map FinalizationMessageGroup.size).sum :=
      List.le_sum_of_mem (List.mem_map.2 ⟨group, hgroup, rfl⟩)
    have hlt : group.size < 256 ^ 4 := by
      unfold FinalizationProof.size at hsize
      omega
    rw [group.length_bytes, FinalizationMessageGroup.bytes, List.take_left' (length_leBytes 4 _), ofLeBytes_leBytes hlt]
  · rw [hgroups] at hgroup
    obtain ⟨signed, hsigned, rfl⟩ := List.mem_map.1 hgroup
    exact signatures_ne_nil messages signed hsigned

def sampleMessages : List FinalizationMessage := [sampleMessage 1 1, sampleMessage 1 0, sampleMessage 2 1]

theorem createFinalizationProof_lossless_sample : ∃ proof,
    createFinalizationProof ⟨⟨2, 1⟩, 10, 7⟩ sampleMessages = some proof ∧
      Lossless ⟨⟨2, 1⟩, 10, 7⟩ sampleMessages proof :=
  createFinalizationProof_lossless ⟨⟨2, 1⟩, 10, 7⟩ sampleMessages (by decide +kernel) (by decide +kernel)

/-- A message with a padding is of the round and is left out of the proof. -/
theorem padded_message_skipped : ¬ ∀ (statistics : FinalizationStatistics) (messages : List FinalizationMessage),
    (∀ m ∈ messages, m.stepIdentifier.round = statistics.round) →
    (messages.map FinalizationMessage.signature).Nodup →
    ∃ proof, createFinalizationProof statistics messages = some proof ∧ proof.messages.Perm messages := by
  intro h
  obtain ⟨proof, hproof, hperm⟩ := h ⟨⟨2, 1⟩, 10, 7⟩ [{ sampleMessage 1 1 with reserved1 := 1 }]
    (by decide +kernel) (by decide +kernel)
  have hempty : createFinalizationProof ⟨⟨2, 1⟩, 10, 7⟩ [{ sampleMessage 1 1 with reserved1 := 1 }] =
      some ⟨FinalizationProof.currentVersion, ⟨2, 1⟩, 10, 7, []⟩ := by
    have hgroups : groupMessages ⟨2, 1⟩ [{ sampleMessage 1 1 with reserved1 := 1 }] = [] := by
      have hnot : ¬ CanGroup ⟨2, 1⟩ { sampleMessage 1 1 with reserved1 := 1 } := by decide +kernel
      rw [groupMessages, List.foldl_cons, List.foldl_nil, groupMessage, if_neg hnot]
      rfl
    rw [createFinalizationProof]
    dsimp only
    rw [hgroups]
    rfl
  rw [hempty, Option.some.injEq] at hproof
  have hlength := hperm.length_eq
  rw [← hproof] at hlength
  cases hlength

end Catapult.Finalization
