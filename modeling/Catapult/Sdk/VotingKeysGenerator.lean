import Catapult.CryptoVoting.BmPrivateKeyTree

/-!
# Voting key files of the sdk

The generator writes two headers, and for every epoch a private key with the signature of the root, the last epoch
first. So the entry at an index is the one that the client looks up for the identifier at this distance from the end.
-/

namespace Catapult.Sdk
open Catapult.CryptoVoting Catapult.Io Reader

/-- `to_bytes`, which raises an error when there are not enough bytes. -/
def toBytes (value count : Nat) : Option (List UInt8) :=
  if value < 256 ^ count then some (leBytes count value) else none

section Generator
variable (scheme : VotingScheme) (rootPrivateKey : PrivateKey) (privateKeyGenerator : Nat → PrivateKey)

/-- A private key and the signature proving its derivation from the root. -/
def writeChild (childPrivateKey : PrivateKey) (identifier : Nat) : Option (List UInt8) := do
  let childPublicKey := scheme.extractPublicKeyFromPrivateKey childPrivateKey
  let identifierBytes ← toBytes identifier 8
  let signature := scheme.sign rootPrivateKey (childPublicKey.1 ++ identifierBytes)
  return childPrivateKey.1 ++ signature.1

/-- The generator of private keys was called `calls` times. -/
def writeChildren : Nat → List Nat → Option (List UInt8)
  | _, [] => some []
  | calls, identifier :: identifiers => do
    let child ← writeChild scheme rootPrivateKey (privateKeyGenerator calls) identifier
    let children ← writeChildren (calls + 1) identifiers
    return child ++ children

/-- `VotingKeysGenerator.generate`. -/
def generate (startEpoch endEpoch : Nat) : Option (List UInt8) := do
  let startBytes ← toBytes startEpoch 8
  let endBytes ← toBytes endEpoch 8
  let reservedBytes ← toBytes 0xFFFFFFFFFFFFFFFF 8
  let rootPublicKey := scheme.extractPublicKeyFromPrivateKey rootPrivateKey
  let children ← writeChildren scheme rootPrivateKey privateKeyGenerator 0
    (List.range' startEpoch (endEpoch + 1 - startEpoch)).reverse
  return startBytes ++ endBytes ++ reservedBytes ++ reservedBytes ++
    rootPublicKey.1 ++ startBytes ++ endBytes ++ children

/-! ## What the client reads -/

def childKey (childPrivateKey : PrivateKey) (identifier : Nat) : SignedPrivateKey where
  keyPair := .fromPrivate scheme childPrivateKey
  signature := scheme.sign rootPrivateKey
    (boundPayload (scheme.extractPublicKeyFromPrivateKey childPrivateKey) (UInt64.ofNat identifier))

def childKeys (calls : Nat) (identifiers : List Nat) : List SignedPrivateKey :=
  identifiers.mapIdx fun i identifier => childKey scheme rootPrivateKey (privateKeyGenerator (calls + i)) identifier

def generatedLevel (startEpoch endEpoch : Nat) : Level where
  parentPublicKey := scheme.extractPublicKeyFromPrivateKey rootPrivateKey
  startIdentifier := UInt64.ofNat startEpoch
  endIdentifier := UInt64.ofNat endEpoch
  levelSignedPrivateKeys := childKeys scheme rootPrivateKey privateKeyGenerator 0
    (List.range' startEpoch (endEpoch + 1 - startEpoch)).reverse

def generatedOptions (startEpoch endEpoch : Nat) : BmOptions :=
  ⟨⟨UInt64.ofNat startEpoch⟩, ⟨UInt64.ofNat endEpoch⟩⟩

/-- The client can load the file and sign for any identifiers of the range that do not decrease. -/
def Usable (startEpoch endEpoch : Nat) : Prop :=
  ∃ buffer tree, generate scheme rootPrivateKey privateKeyGenerator startEpoch endEpoch = some buffer ∧
    BmPrivateKeyTree.fromStream scheme ⟨buffer, 0⟩ = .ok tree ∧
    tree.storage = ⟨buffer, buffer.length⟩ ∧
    tree.rootPublicKey = scheme.extractPublicKeyFromPrivateKey rootPrivateKey ∧
    tree.options = generatedOptions startEpoch endEpoch ∧
    ∀ requests : List (BmKeyIdentifier × List UInt8),
      (∀ request ∈ requests, startEpoch ≤ request.1.keyId.toNat ∧ request.1.keyId.toNat ≤ endEpoch) →
      (requests.Pairwise fun lhs rhs => lhs.1.keyId ≤ rhs.1.keyId) →
        ∃ signatures tree', tree.signAll scheme requests = some (signatures, tree') ∧
          List.Forall₂ (fun request signature => verify scheme signature request.1 request.2 = true)
            requests signatures

end Generator

section Generated
variable {scheme : VotingScheme} {rootPrivateKey : PrivateKey} {privateKeyGenerator : Nat → PrivateKey}
  {startEpoch endEpoch identifier calls : Nat}

theorem toBytes_eight (hlt : identifier < 2 ^ 64) :
    toBytes identifier 8 = some (leBytes 8 (UInt64.ofNat identifier).toNat) := by
  rw [toBytes, if_pos (by omega), UInt64.toNat_ofNat_of_lt' hlt]

theorem writeChildren_eq {identifiers : List Nat} (hlt : ∀ identifier ∈ identifiers, identifier < 2 ^ 64) :
    writeChildren scheme rootPrivateKey privateKeyGenerator calls identifiers =
      some
        ((childKeys scheme rootPrivateKey privateKeyGenerator calls identifiers).flatMap SignedPrivateKey.bytes) := by
  induction identifiers generalizing calls with
  | nil => rfl
  | cons identifier identifiers ih =>
    obtain ⟨hfirst, hrest⟩ := List.forall_mem_cons.1 hlt
    have hkeys : childKeys scheme rootPrivateKey privateKeyGenerator calls (identifier :: identifiers) =
        childKey scheme rootPrivateKey (privateKeyGenerator calls) identifier ::
          childKeys scheme rootPrivateKey privateKeyGenerator (calls + 1) identifiers := by
      simp only [childKeys, List.mapIdx_cons, Nat.add_zero, Nat.add_right_comm, Nat.add_assoc]
    rw [writeChildren, ih hrest, hkeys, List.flatMap_cons, writeChild, toBytes_eight hfirst]
    rfl

theorem generate_eq (hle : startEpoch ≤ endEpoch) (hlt : endEpoch < 2 ^ 32) :
    generate scheme rootPrivateKey privateKeyGenerator startEpoch endEpoch =
      some (treeBytes (generatedOptions startEpoch endEpoch) ⟨BmKeyIdentifier.invalidId⟩ ⟨BmKeyIdentifier.invalidId⟩
        (generatedLevel scheme rootPrivateKey privateKeyGenerator startEpoch endEpoch)) := by
  have hidentifiers : ∀ identifier ∈ (List.range' startEpoch (endEpoch + 1 - startEpoch)).reverse,
      identifier < 2 ^ 64 := by
    intro identifier hmem
    rw [List.mem_reverse, List.mem_range'_1] at hmem
    omega
  rw [generate, toBytes_eight (by omega), toBytes_eight (by omega), toBytes_eight (by decide),
    writeChildren_eq hidentifiers]
  simp only [Option.bind_eq_bind, Option.bind_some, Option.pure_def, treeBytes, Level.bytes, generatedLevel,
    generatedOptions, List.append_assoc]
  rfl

theorem length_generated (hle : startEpoch ≤ endEpoch) :
    (generatedLevel scheme rootPrivateKey privateKeyGenerator startEpoch endEpoch).levelSignedPrivateKeys.length =
      endEpoch - startEpoch + 1 := by
  simp only [generatedLevel, childKeys, List.length_mapIdx, List.length_reverse, List.length_range']
  omega

theorem toNat_epoch (hlt : endEpoch < 2 ^ 32) : (UInt64.ofNat endEpoch).toNat = endEpoch :=
  UInt64.toNat_ofNat_of_lt' (Nat.lt_trans hlt (by decide))

theorem distance_eq (hle : startEpoch ≤ endEpoch) (hlt : endEpoch < 2 ^ 32) :
    (UInt64.ofNat endEpoch - UInt64.ofNat startEpoch).toNat = endEpoch - startEpoch := by
  have hend := toNat_epoch hlt
  have hstart := toNat_epoch (Nat.lt_of_le_of_lt hle hlt)
  rw [UInt64.toNat_sub_of_le _ _ (UInt64.le_iff_toNat_le.2 (by omega)), hend, hstart]

theorem reads_generatedLevel (hle : startEpoch ≤ endEpoch) (hlt : endEpoch < 2 ^ 32)
    (hdistance : endEpoch - startEpoch + 1 < 2 ^ 32) :
    Reads (Level.fromStream scheme) (generatedLevel scheme rootPrivateKey privateKeyGenerator startEpoch endEpoch).bytes
      (generatedLevel scheme rootPrivateKey privateKeyGenerator startEpoch endEpoch) := by
  apply reads_level
  · intro key hkey
    obtain ⟨i, hi, rfl⟩ := List.mem_mapIdx.1 hkey
    rfl
  · rw [length_generated hle]
    exact congrArg (· + 1) (distance_eq hle hlt).symm
  · rwa [length_generated hle]

theorem signedPrivateKeyAt_generated (hlt : endEpoch < 2 ^ 32) {keyId : UInt64} (hstart : startEpoch ≤ keyId.toNat)
    (hend : keyId.toNat ≤ endEpoch) :
    (generatedLevel scheme rootPrivateKey privateKeyGenerator startEpoch endEpoch).signedPrivateKeyAt keyId =
      some (childKey scheme rootPrivateKey (privateKeyGenerator (endEpoch - keyId.toNat)) keyId.toNat) := by
  have hindex : (UInt64.ofNat endEpoch - keyId).toNat = endEpoch - keyId.toNat := by
    have hepoch := toNat_epoch hlt
    rw [UInt64.toNat_sub_of_le _ _ (UInt64.le_iff_toNat_le.2 (by omega)), hepoch]
  have hlength : (List.range' startEpoch (endEpoch + 1 - startEpoch)).length = endEpoch + 1 - startEpoch :=
    List.length_range'
  have hidentifier : (List.range' startEpoch (endEpoch + 1 - startEpoch)).reverse[endEpoch - keyId.toNat]? =
      some keyId.toNat := by
    rw [List.getElem?_reverse (by omega), hlength, List.getElem?_range' (by omega)]
    exact congrArg some (by omega)
  rw [Level.signedPrivateKeyAt]
  simp only [generatedLevel, childKeys]
  rw [hindex, List.getElem?_mapIdx, hidentifier, Option.map_some, Nat.zero_add]

theorem signed_tree (hle : startEpoch ≤ endEpoch) (hlt : endEpoch < 2 ^ 32)
    {storage : SeekableStream} {lastKeyIdentifier lastWipeKeyIdentifier : BmKeyIdentifier} :
    BmPrivateKeyTree.Signed scheme ⟨storage, generatedOptions startEpoch endEpoch,
      generatedLevel scheme rootPrivateKey privateKeyGenerator startEpoch endEpoch,
      lastKeyIdentifier, lastWipeKeyIdentifier⟩ := by
  have hstartEpoch := toNat_epoch (Nat.lt_of_le_of_lt hle hlt)
  have hendEpoch := toNat_epoch hlt
  refine ⟨UInt64.le_iff_toNat_le.2 ?_, fun hinvalid => ?_, fun keyId hstart hend => ?_⟩
  · simp only [generatedOptions]
    omega
  · have htoNat := congrArg UInt64.toNat hinvalid
    simp only [generatedOptions, hendEpoch] at htoNat
    have hinvalidId : BmKeyIdentifier.invalidId.toNat = 2 ^ 64 - 1 := rfl
    omega
  · rw [UInt64.le_iff_toNat_le] at hstart hend
    simp only [generatedOptions, hstartEpoch, hendEpoch] at hstart hend
    refine ⟨_, _, signedPrivateKeyAt_generated hlt hstart hend, ?_⟩
    rw [UInt64.ofNat_toNat]
    exact scheme.verify_sign rootPrivateKey _

theorem not_usable (scheme : VotingScheme) (rootPrivateKey : PrivateKey) (privateKeyGenerator : Nat → PrivateKey) :
    ¬Usable scheme rootPrivateKey privateKeyGenerator 0 (2 ^ 32 - 1) := by
  have hlt : 2 ^ 32 - 1 < 2 ^ 32 := by decide
  rintro ⟨buffer, tree, hbuffer, hload, -⟩
  rw [generate_eq (Nat.zero_le _) hlt, Option.some.injEq] at hbuffer
  subst hbuffer
  refine fromStream_treeBytes_ne_ok (level_fails ?_) tree hload
  simp only [generatedLevel, distance_eq (Nat.zero_le _) hlt]
  omega

/-- The files of all ranges but the one whose size the counter of the client cannot reach. -/
theorem generate_usable_iff (scheme : VotingScheme) (rootPrivateKey : PrivateKey)
    (privateKeyGenerator : Nat → PrivateKey) (hle : startEpoch ≤ endEpoch) (hlt : endEpoch < 2 ^ 32) :
    Usable scheme rootPrivateKey privateKeyGenerator startEpoch endEpoch ↔
      ¬(startEpoch = 0 ∧ endEpoch = 2 ^ 32 - 1) := by
  constructor
  · rintro husable ⟨rfl, rfl⟩
    exact not_usable scheme rootPrivateKey privateKeyGenerator husable
  · intro hrange
    refine ⟨_, _, generate_eq hle hlt, fromStream_treeBytes (reads_generatedLevel hle hlt (by omega)), rfl, rfl, rfl,
      ?_⟩
    intro requests hrequests hsorted
    refine BmPrivateKeyTree.signAll_verifies (signed_tree hle hlt) requests (fun request hmem => ?_) hsorted (.inl rfl)
    have hstartEpoch := toNat_epoch (Nat.lt_of_le_of_lt hle hlt)
    have hendEpoch := toNat_epoch hlt
    obtain ⟨hstart, hend⟩ := hrequests request hmem
    simp only [generatedOptions, UInt64.le_iff_toNat_le]
    omega

end Generated

/-- The signature is the key and a sum of the message. -/
def sampleSignature (key : List UInt8) (message : List UInt8) : List UInt8 :=
  key ++ leBytes 32 (message.foldl (fun sum byte => 257 * sum + byte.toNat) 0)

def sampleScheme : VotingScheme where
  extractPublicKeyFromPrivateKey := id
  sign privateKey message :=
    ⟨sampleSignature privateKey.1 message, by rw [sampleSignature, List.length_append, privateKey.2, length_leBytes]⟩
  verify publicKey message signature := signature.1 = sampleSignature publicKey.1 message
  verify_sign privateKey message := decide_eq_true rfl

def sampleGenerator (calls : Nat) : PrivateKey := ⟨leBytes 32 calls, length_leBytes _ _⟩

theorem generate_usable_sample : Usable sampleScheme (sampleGenerator 9) sampleGenerator 7 11 :=
  (generate_usable_iff sampleScheme (sampleGenerator 9) sampleGenerator (by decide) (by decide)).2 (by decide)

theorem not_usable_sample : ¬Usable sampleScheme (sampleGenerator 9) sampleGenerator 0 4294967295 :=
  not_usable sampleScheme (sampleGenerator 9) sampleGenerator

end Catapult.Sdk
