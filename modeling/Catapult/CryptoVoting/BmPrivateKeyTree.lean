import Catapult.Lib.Reader

/-!
# Seekable streams

The bytes of a file, and the position at which the next read or write starts. A write replaces as many bytes as it has,
and makes the file longer when it goes beyond the end.
-/

namespace Catapult.Io

structure SeekableStream where
  bytes : List UInt8
  position : Nat
  deriving DecidableEq

namespace SeekableStream

def seek (position : Nat) (stream : SeekableStream) : SeekableStream := { stream with position := position }

def write (buffer : List UInt8) (stream : SeekableStream) : SeekableStream where
  bytes := stream.bytes.take stream.position ++ buffer ++ stream.bytes.drop (stream.position + buffer.length)
  position := stream.position + buffer.length

def unread (stream : SeekableStream) : List UInt8 := stream.bytes.drop stream.position

def read {ε α : Type} (p : Reader ε α) (stream : SeekableStream) : Except ε (α × SeekableStream) :=
  match p stream.unread with
  | .ok a rest => .ok (a, stream.seek (stream.bytes.length - rest.length))
  | .error e _ => .error e

section Read
variable {ε α : Type} {p : Reader ε α} {bytes : List UInt8} {a : α}

theorem read_of_reads (h : Reader.Reads p bytes a) : read p ⟨bytes, 0⟩ = .ok (a, ⟨bytes, bytes.length⟩) := by
  rw [read, unread, List.drop_zero, h.run]
  rfl

theorem read_ne_ok_of_fails (h : Reader.Fails p bytes) (r : α × SeekableStream) : read p ⟨bytes, 0⟩ ≠ .ok r := by
  rw [read, unread, List.drop_zero]
  cases hp : p bytes with
  | ok a rest => exact absurd hp (h a rest)
  | error e rest => exact fun heq => nomatch heq

end Read
end SeekableStream
end Catapult.Io

/-!
## Private key trees of voters

A tree has the public key of its root and one key pair for every identifier of a range, each with a signature of the
root that binds its public key to the identifier. A tree signature is that signature and one by the key pair; it is
verified for an identifier with two checks (`verify`). The key of the last identifier comes first: the key of an
identifier is found at its distance from the end of the range.

Derivation of keys and signatures are those of `VotingScheme`. The loop over the keys counts with 32 bits.
-/

namespace Catapult.CryptoVoting
open Io Reader

abbrev PrivateKey := FixedBytes 32

abbrev VotingKey := FixedBytes 32

abbrev VotingSignature := FixedBytes 64

/-- What a key pair signs verifies under its public key. -/
structure VotingScheme where
  extractPublicKeyFromPrivateKey : PrivateKey → VotingKey
  sign : PrivateKey → List UInt8 → VotingSignature
  verify : VotingKey → List UInt8 → VotingSignature → Bool
  verify_sign : ∀ privateKey data, verify (extractPublicKeyFromPrivateKey privateKey) data (sign privateKey data) = true

inductive VotingError where
  /-- `catapult_file_io_error` -/
  | fileIo
  deriving DecidableEq

structure BmKeyIdentifier where
  keyId : UInt64
  deriving DecidableEq

namespace BmKeyIdentifier

def invalidId : UInt64 := 0xFFFFFFFFFFFFFFFF

def isIdLessThan (lhs rhs : UInt64) : Bool :=
  if lhs = rhs ∨ invalidId = rhs then false else invalidId = lhs ∨ lhs < rhs

def lt (lhs rhs : BmKeyIdentifier) : Bool := isIdLessThan lhs.keyId rhs.keyId

def le (lhs rhs : BmKeyIdentifier) : Bool := lt lhs rhs || lhs = rhs

def gt (lhs rhs : BmKeyIdentifier) : Bool := !le lhs rhs

end BmKeyIdentifier

structure BmOptions where
  startKeyIdentifier : BmKeyIdentifier
  endKeyIdentifier : BmKeyIdentifier
  deriving DecidableEq

structure VotingKeyPair where
  privateKey : PrivateKey
  publicKey : VotingKey
  deriving DecidableEq

structure SignedPrivateKey where
  keyPair : VotingKeyPair
  signature : VotingSignature
  deriving DecidableEq

structure Level where
  parentPublicKey : VotingKey
  startIdentifier : UInt64
  endIdentifier : UInt64
  levelSignedPrivateKeys : List SignedPrivateKey
  deriving DecidableEq

structure ParentPublicKeySignaturePair where
  parentPublicKey : VotingKey
  signature : VotingSignature
  deriving DecidableEq

structure BmTreeSignature where
  root : ParentPublicKeySignaturePair
  bottom : ParentPublicKeySignaturePair
  deriving DecidableEq

structure BmPrivateKeyTree where
  storage : SeekableStream
  options : BmOptions
  level : Level
  lastKeyIdentifier : BmKeyIdentifier
  lastWipeKeyIdentifier : BmKeyIdentifier
  deriving DecidableEq

section Scheme
variable (scheme : VotingScheme)

def VotingKeyPair.fromPrivate (privateKey : PrivateKey) : VotingKeyPair :=
  ⟨privateKey, scheme.extractPublicKeyFromPrivateKey privateKey⟩

def boundPayload (publicKey : VotingKey) (identifier : UInt64) : List UInt8 :=
  publicKey.1 ++ leBytes 8 identifier.toNat

def readSignedPrivateKey : Reader VotingError SignedPrivateKey := do
  let privateKey ← bytes .fileIo 32
  let signature ← bytes .fileIo 64
  return ⟨.fromPrivate scheme privateKey, signature⟩

namespace Level

def fromStream : Reader VotingError Level := do
  let parentPublicKey ← bytes .fileIo 32
  let startIdentifier ← uint64 .fileIo
  let endIdentifier ← uint64 .fileIo
  -- the counter does not pass the distance, which has 64 bits
  let signedPrivateKeys ← loop32 .fileIo (fun signedPrivateKeys => do
    let signedPrivateKey ← readSignedPrivateKey scheme
    return signedPrivateKeys ++ [signedPrivateKey]) ((endIdentifier - startIdentifier).toNat + 1) []
  return ⟨parentPublicKey, startIdentifier, endIdentifier, signedPrivateKeys⟩

/-- The key at the distance of the identifier from the end. -/
def signedPrivateKeyAt (level : Level) (identifier : UInt64) : Option SignedPrivateKey :=
  level.levelSignedPrivateKeys[(level.endIdentifier - identifier).toNat]?

def publicKeySignature (level : Level) (identifier : UInt64) : Option ParentPublicKeySignaturePair :=
  (level.signedPrivateKeyAt identifier).map fun key => ⟨level.parentPublicKey, key.signature⟩

def keyPairAt (level : Level) (identifier : UInt64) : Option VotingKeyPair :=
  (level.signedPrivateKeyAt identifier).map SignedPrivateKey.keyPair

end Level

def loadKeyIdentifier : Reader VotingError BmKeyIdentifier := do
  let keyId ← uint64 .fileIo
  return ⟨keyId⟩

def loadOptions : Reader VotingError BmOptions := do
  let startKeyIdentifier ← loadKeyIdentifier
  let endKeyIdentifier ← loadKeyIdentifier
  return ⟨startKeyIdentifier, endKeyIdentifier⟩

namespace BmPrivateKeyTree

def load : Reader VotingError (SeekableStream → BmPrivateKeyTree) := do
  let options ← loadOptions
  let lastKeyIdentifier ← loadKeyIdentifier
  let lastWipeKeyIdentifier ← loadKeyIdentifier
  let level ← Level.fromStream scheme
  return fun storage => ⟨storage, options, level, lastKeyIdentifier, lastWipeKeyIdentifier⟩

def fromStream (storage : SeekableStream) : Except VotingError BmPrivateKeyTree :=
  (storage.read (load scheme)).map fun (tree, storage) => tree storage

def rootPublicKey (tree : BmPrivateKeyTree) : VotingKey := tree.level.parentPublicKey

def check (tree : BmPrivateKeyTree) (keyIdentifier referenceKeyIdentifier : BmKeyIdentifier) : Bool :=
  if keyIdentifier.lt referenceKeyIdentifier then false
  else if keyIdentifier.lt tree.options.startKeyIdentifier || keyIdentifier.gt tree.options.endKeyIdentifier then false
  else true

def canSign (tree : BmPrivateKeyTree) (keyIdentifier : BmKeyIdentifier) : Bool :=
  tree.check keyIdentifier tree.lastKeyIdentifier

/-- `none` is an exception; the index of a key is never out of range (`Signed`). -/
def sign (tree : BmPrivateKeyTree) (keyIdentifier : BmKeyIdentifier) (dataBuffer : List UInt8) :
    Option (BmTreeSignature × BmPrivateKeyTree) :=
  if !tree.canSign keyIdentifier then none
  else do
    let subKeyPair ← tree.level.keyPairAt keyIdentifier.keyId
    let msgSignature := scheme.sign subKeyPair.privateKey dataBuffer
    let publicKeySignature ← tree.level.publicKeySignature keyIdentifier.keyId
    return (⟨publicKeySignature, ⟨subKeyPair.publicKey, msgSignature⟩⟩,
      { tree with
        lastKeyIdentifier := keyIdentifier
        storage := (tree.storage.seek 16).write (leBytes 8 keyIdentifier.keyId.toNat) })

def signAll (tree : BmPrivateKeyTree) :
    List (BmKeyIdentifier × List UInt8) → Option (List BmTreeSignature × BmPrivateKeyTree)
  | [] => some ([], tree)
  | (keyIdentifier, dataBuffer) :: requests => do
    let (signature, tree) ← tree.sign scheme keyIdentifier dataBuffer
    let (signatures, tree) ← tree.signAll requests
    return (signature :: signatures, tree)

end BmPrivateKeyTree

def verifyBoundSignature (pair : ParentPublicKeySignaturePair) (signedPublicKey : VotingKey) (boundary : UInt64) :
    Bool :=
  scheme.verify pair.parentPublicKey (boundPayload signedPublicKey boundary) pair.signature

def verify (signature : BmTreeSignature) (keyIdentifier : BmKeyIdentifier) (buffer : List UInt8) : Bool :=
  if !verifyBoundSignature scheme signature.root signature.bottom.parentPublicKey keyIdentifier.keyId then false
  else if !scheme.verify signature.bottom.parentPublicKey buffer signature.bottom.signature then false
  else true

end Scheme

namespace SignedPrivateKey

/-- `Write`. -/
def bytes (key : SignedPrivateKey) : List UInt8 := key.keyPair.privateKey.1 ++ key.signature.1

end SignedPrivateKey

namespace Level

/-- `write`. -/
def bytes (level : Level) : List UInt8 :=
  level.parentPublicKey.1 ++ (leBytes 8 level.startIdentifier.toNat ++ (leBytes 8 level.endIdentifier.toNat ++
    level.levelSignedPrivateKeys.flatMap SignedPrivateKey.bytes))

end Level

/-- `Create`. -/
def treeBytes (options : BmOptions) (lastKeyIdentifier lastWipeKeyIdentifier : BmKeyIdentifier) (level : Level) :
    List UInt8 :=
  leBytes 8 options.startKeyIdentifier.keyId.toNat ++ (leBytes 8 options.endKeyIdentifier.keyId.toNat ++
    (leBytes 8 lastKeyIdentifier.keyId.toNat ++ (leBytes 8 lastWipeKeyIdentifier.keyId.toNat ++ level.bytes)))

section Files
variable {scheme : VotingScheme} {level : Level} {options : BmOptions}
  {lastKeyIdentifier lastWipeKeyIdentifier : BmKeyIdentifier}

theorem reads_signedPrivateKey {key : SignedPrivateKey}
    (hkey : key.keyPair = .fromPrivate scheme key.keyPair.privateKey) :
    Reads (readSignedPrivateKey scheme) key.bytes key := by
  obtain ⟨⟨privateKey, publicKey⟩, signature⟩ := key
  obtain rfl : publicKey = scheme.extractPublicKeyFromPrivateKey privateKey := congrArg VotingKeyPair.publicKey hkey
  exact (Reads.bytes privateKey).bind (Reads.bytes signature).bind_pure

theorem reads_level
    (hkeys : ∀ key ∈ level.levelSignedPrivateKeys, key.keyPair = .fromPrivate scheme key.keyPair.privateKey)
    (hlength : level.levelSignedPrivateKeys.length = (level.endIdentifier - level.startIdentifier).toNat + 1)
    (hlt : level.levelSignedPrivateKeys.length < 2 ^ 32) :
    Reads (Level.fromStream scheme) level.bytes level := by
  obtain ⟨parentPublicKey, startIdentifier, endIdentifier, keys⟩ := level
  simp only at hkeys hlength hlt
  have hfold : ReadsFold (fun keys => do
      let key ← readSignedPrivateKey scheme
      return keys ++ [key]) [] (keys.map SignedPrivateKey.bytes) ([] ++ keys) := by
    refine .ofList (fun mid key post hsplit => ?_) fun key _ hnil => ?_
    · have hmem : key ∈ keys := by
        rw [hsplit]
        exact List.mem_append_right _ List.mem_cons_self
      exact (reads_signedPrivateKey (hkeys key hmem)).bind_pure
    · have hempty := congrArg List.length hnil
      rw [SignedPrivateKey.bytes, List.length_append, key.keyPair.privateKey.2, List.length_nil] at hempty
      omega
  have hloop := @ReadsFold.loop32 _ _ VotingError.fileIo _ _ _ _ hfold (by rwa [List.length_map])
  rw [List.length_map, List.nil_append, ← List.flatMap_def, hlength] at hloop
  rw [Level.fromStream, Level.bytes]
  exact (Reads.bytes parentPublicKey).bind ((Reads.uint64 startIdentifier).bind
    ((Reads.uint64 endIdentifier).bind hloop.bind_pure))

theorem level_fails (hle : 2 ^ 32 ≤ (level.endIdentifier - level.startIdentifier).toNat + 1) :
    Fails (Level.fromStream scheme) level.bytes := by
  rw [Level.fromStream, Level.bytes]
  exact (Reads.bytes level.parentPublicKey).fails_bind ((Reads.uint64 level.startIdentifier).fails_bind
    ((Reads.uint64 level.endIdentifier).fails_bind (loop32_fails hle _).bind))

theorem reads_loadKeyIdentifier (keyIdentifier : BmKeyIdentifier) :
    Reads loadKeyIdentifier (leBytes 8 keyIdentifier.keyId.toNat) keyIdentifier :=
  (Reads.uint64 keyIdentifier.keyId).bind_pure

theorem reads_loadOptions (options : BmOptions) : Reads loadOptions
    (leBytes 8 options.startKeyIdentifier.keyId.toNat ++ leBytes 8 options.endKeyIdentifier.keyId.toNat) options :=
  (reads_loadKeyIdentifier options.startKeyIdentifier).bind
    (reads_loadKeyIdentifier options.endKeyIdentifier).bind_pure

theorem fromStream_treeBytes (h : Reads (Level.fromStream scheme) level.bytes level) :
    BmPrivateKeyTree.fromStream scheme ⟨treeBytes options lastKeyIdentifier lastWipeKeyIdentifier level, 0⟩ =
      .ok ⟨⟨treeBytes options lastKeyIdentifier lastWipeKeyIdentifier level,
        (treeBytes options lastKeyIdentifier lastWipeKeyIdentifier level).length⟩,
        options, level, lastKeyIdentifier, lastWipeKeyIdentifier⟩ := by
  have hload : Reads (BmPrivateKeyTree.load scheme)
      (treeBytes options lastKeyIdentifier lastWipeKeyIdentifier level)
      fun storage => ⟨storage, options, level, lastKeyIdentifier, lastWipeKeyIdentifier⟩ := by
    rw [treeBytes, ← List.append_assoc]
    exact (reads_loadOptions options).bind ((reads_loadKeyIdentifier lastKeyIdentifier).bind
      ((reads_loadKeyIdentifier lastWipeKeyIdentifier).bind h.bind_pure))
  rw [BmPrivateKeyTree.fromStream, SeekableStream.read_of_reads hload]
  rfl

theorem fromStream_treeBytes_ne_ok (h : Fails (Level.fromStream scheme) level.bytes) (tree : BmPrivateKeyTree) :
    BmPrivateKeyTree.fromStream scheme ⟨treeBytes options lastKeyIdentifier lastWipeKeyIdentifier level, 0⟩ ≠
      .ok tree := by
  have hload : Fails (BmPrivateKeyTree.load scheme)
      (treeBytes options lastKeyIdentifier lastWipeKeyIdentifier level) := by
    rw [treeBytes, ← List.append_assoc]
    exact (reads_loadOptions options).fails_bind ((reads_loadKeyIdentifier lastKeyIdentifier).fails_bind
      ((reads_loadKeyIdentifier lastWipeKeyIdentifier).fails_bind h.bind))
  rw [BmPrivateKeyTree.fromStream]
  cases hread : SeekableStream.read (BmPrivateKeyTree.load scheme)
    ⟨treeBytes options lastKeyIdentifier lastWipeKeyIdentifier level, 0⟩ with
  | ok r => exact absurd hread (SeekableStream.read_ne_ok_of_fails hload r)
  | error e => exact fun heq => nomatch heq

end Files

section Identifiers
open BmKeyIdentifier
variable {lhs rhs : UInt64}

theorem isIdLessThan_of_ne (hlhs : lhs ≠ invalidId) (hrhs : rhs ≠ invalidId) :
    isIdLessThan lhs rhs = decide (lhs < rhs) := by
  rw [isIdLessThan]
  split
  · case isTrue h =>
    obtain rfl | rfl := h
    · simp
    · exact absurd rfl hrhs
  · simp [Ne.symm hlhs]

theorem isIdLessThan_invalidId : isIdLessThan lhs invalidId = false := by
  rw [isIdLessThan, if_pos (.inr rfl)]

theorem gt_of_ne (hlhs : lhs ≠ invalidId) (hrhs : rhs ≠ invalidId) :
    gt ⟨lhs⟩ ⟨rhs⟩ = decide (rhs < lhs) := by
  rw [gt, le, lt, isIdLessThan_of_ne hlhs hrhs]
  by_cases hlt : lhs < rhs
  · simp [hlt, UInt64.lt_asymm hlt]
  · by_cases heq : lhs = rhs
    · simp [heq]
    · have hgt : rhs < lhs := UInt64.lt_of_le_of_ne (UInt64.not_lt.1 hlt) (Ne.symm heq)
      simp [hlt, heq, hgt]

theorem ne_invalidId_of_le (hrhs : rhs ≠ invalidId) (hle : lhs ≤ rhs) : lhs ≠ invalidId := by
  rintro rfl
  refine hrhs (UInt64.le_antisymm ?_ hle)
  exact UInt64.le_iff_toNat_le.2 (Nat.le_of_lt_succ rhs.toNat_lt)

end Identifiers

namespace BmPrivateKeyTree
open BmKeyIdentifier
variable {scheme : VotingScheme} {tree : BmPrivateKeyTree} {keyId : UInt64}

structure Signed (scheme : VotingScheme) (tree : BmPrivateKeyTree) : Prop where
  startKeyIdentifier_le : tree.options.startKeyIdentifier.keyId ≤ tree.options.endKeyIdentifier.keyId
  endKeyIdentifier_ne : tree.options.endKeyIdentifier.keyId ≠ invalidId
  signed : ∀ keyId, tree.options.startKeyIdentifier.keyId ≤ keyId → keyId ≤ tree.options.endKeyIdentifier.keyId →
    ∃ privateKey signature,
      tree.level.signedPrivateKeyAt keyId = some ⟨.fromPrivate scheme privateKey, signature⟩ ∧
      scheme.verify tree.rootPublicKey
        (boundPayload (scheme.extractPublicKeyFromPrivateKey privateKey) keyId) signature = true

theorem canSign_eq_true (h : Signed scheme tree) (hstart : tree.options.startKeyIdentifier.keyId ≤ keyId)
    (hend : keyId ≤ tree.options.endKeyIdentifier.keyId)
    (hlast : tree.lastKeyIdentifier.keyId = invalidId ∨ tree.lastKeyIdentifier.keyId ≤ keyId) :
    tree.canSign ⟨keyId⟩ = true := by
  have hne := ne_invalidId_of_le h.endKeyIdentifier_ne hend
  have hlt : BmKeyIdentifier.lt ⟨keyId⟩ tree.lastKeyIdentifier = false := by
    rw [BmKeyIdentifier.lt]
    rcases hlast with hlast | hlast
    · rw [hlast, isIdLessThan_invalidId]
    · rw [isIdLessThan_of_ne hne (ne_invalidId_of_le hne hlast), decide_eq_false_iff_not]
      exact UInt64.not_lt.2 hlast
  have hltStart : BmKeyIdentifier.lt ⟨keyId⟩ tree.options.startKeyIdentifier = false := by
    rw [BmKeyIdentifier.lt, isIdLessThan_of_ne hne (ne_invalidId_of_le hne hstart), decide_eq_false_iff_not]
    exact UInt64.not_lt.2 hstart
  have hgtEnd : BmKeyIdentifier.gt ⟨keyId⟩ tree.options.endKeyIdentifier = false := by
    rw [gt_of_ne hne h.endKeyIdentifier_ne, decide_eq_false_iff_not]
    exact UInt64.not_lt.2 hend
  rw [canSign, check, hlt, hltStart, hgtEnd]
  rfl

theorem sign_verifies (h : Signed scheme tree) (hstart : tree.options.startKeyIdentifier.keyId ≤ keyId)
    (hend : keyId ≤ tree.options.endKeyIdentifier.keyId)
    (hlast : tree.lastKeyIdentifier.keyId = invalidId ∨ tree.lastKeyIdentifier.keyId ≤ keyId)
    (dataBuffer : List UInt8) :
    ∃ signature,
      tree.sign scheme ⟨keyId⟩ dataBuffer = some (signature, { tree with
        lastKeyIdentifier := ⟨keyId⟩
        storage := (tree.storage.seek 16).write (leBytes 8 keyId.toNat) }) ∧
      verify scheme signature ⟨keyId⟩ dataBuffer = true := by
  obtain ⟨privateKey, signature, hkey, hverify⟩ := h.signed keyId hstart hend
  refine ⟨⟨⟨tree.rootPublicKey, signature⟩,
    ⟨scheme.extractPublicKeyFromPrivateKey privateKey, scheme.sign privateKey dataBuffer⟩⟩, ?_, ?_⟩
  · rw [sign, canSign_eq_true h hstart hend hlast, Level.keyPairAt, Level.publicKeySignature, hkey]
    rfl
  · rw [verify, verifyBoundSignature, hverify, scheme.verify_sign]
    rfl

theorem signAll_verifies (h : Signed scheme tree) (requests : List (BmKeyIdentifier × List UInt8))
    (hrange : ∀ request ∈ requests, tree.options.startKeyIdentifier.keyId ≤ request.1.keyId ∧
      request.1.keyId ≤ tree.options.endKeyIdentifier.keyId)
    (hsorted : requests.Pairwise fun lhs rhs => lhs.1.keyId ≤ rhs.1.keyId)
    (hlast : tree.lastKeyIdentifier.keyId = invalidId ∨
      ∀ request ∈ requests, tree.lastKeyIdentifier.keyId ≤ request.1.keyId) :
    ∃ signatures tree', tree.signAll scheme requests = some (signatures, tree') ∧
      List.Forall₂ (fun request signature => verify scheme signature request.1 request.2 = true)
        requests signatures := by
  induction requests generalizing tree with
  | nil => exact ⟨[], tree, rfl, .nil⟩
  | cons request requests ih =>
    obtain ⟨⟨keyId⟩, dataBuffer⟩ := request
    obtain ⟨hfirst, hrest⟩ := List.forall_mem_cons.1 hrange
    obtain ⟨hfirstLe, hsorted⟩ := List.pairwise_cons.1 hsorted
    have hlastFirst := hlast.imp_right fun hle => hle _ List.mem_cons_self
    obtain ⟨signature, hsign, hverify⟩ := sign_verifies h hfirst.1 hfirst.2 hlastFirst dataBuffer
    have h' : Signed scheme { tree with
        lastKeyIdentifier := ⟨keyId⟩
        storage := (tree.storage.seek 16).write (leBytes 8 keyId.toNat) } :=
      ⟨h.startKeyIdentifier_le, h.endKeyIdentifier_ne, h.signed⟩
    obtain ⟨signatures, tree', hsigned, hall⟩ := ih h' hrest hsorted (.inr hfirstLe)
    refine ⟨signature :: signatures, tree', ?_, .cons hverify hall⟩
    rw [signAll, hsign]
    simp only [Option.bind_eq_bind, Option.bind_some, hsigned]
    rfl

end BmPrivateKeyTree
end Catapult.CryptoVoting
