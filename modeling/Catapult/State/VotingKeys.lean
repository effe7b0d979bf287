import Catapult.State.AccountState

/-!
# The voting keys of an account

A key is linked by a transaction when its range of epochs starts behind all others, and any key can be unlinked. The
keys stay sorted (`SortedKeys`), which the validator relies on when it compares with the last key only.
-/

namespace Catapult.State

/-! ## The container -/

/-- `PublicKeysAccessor`. There is a vector as long as there are keys. -/
structure PublicKeysAccessor where
  keys : Option (List PinnedVotingKey) := none
  ne_nil : ∀ pinnedKeys ∈ keys, pinnedKeys ≠ [] := by simp

namespace PublicKeysAccessor

def getAll (accessor : PublicKeysAccessor) : List PinnedVotingKey := accessor.keys.getD []

def size (accessor : PublicKeysAccessor) : Nat := accessor.keys.elim 0 List.length

def upperBound (accessor : PublicKeysAccessor) : UInt32 :=
  match hkeys : accessor.keys with
  | none => 0
  | some keys => (keys.getLast (accessor.ne_nil keys hkeys)).endEpoch

/-- `std::numeric_limits<size_t>::max()`. -/
def notFound : Nat := 2 ^ 64 - 1

def contains (accessor : PublicKeysAccessor) (epoch : UInt32) : Nat × Bool :=
  match accessor.keys with
  | none => (notFound, false)
  | some keys =>
    match keys.findIdx? fun key => key.containsEpoch epoch with
    | none => (notFound, false)
    | some index => (index, true)

/-- Without a key at the index, the access is undefined. -/
def get (accessor : PublicKeysAccessor) (index : Nat) : Option PinnedVotingKey := accessor.keys.bind (·[index]?)

def findExact (keys : List PinnedVotingKey) (key : PinnedVotingKey) : Option Nat :=
  keys.findIdx? fun existingKey => decide (key.votingKey = existingKey.votingKey) &&
    decide (key.startEpoch = existingKey.startEpoch) && decide (key.endEpoch = existingKey.endEpoch)

def containsExact (accessor : PublicKeysAccessor) (key : PinnedVotingKey) : Bool :=
  accessor.keys.any fun keys => (findExact keys key).isSome

def ofList (keys : List PinnedVotingKey) : PublicKeysAccessor :=
  if hkeys : keys = [] then {} else ⟨some keys, fun _ hmem => Option.some.inj hmem ▸ hkeys⟩

def add (accessor : PublicKeysAccessor) (key : PinnedVotingKey) : Except KeyError PublicKeysAccessor := do
  let keys ← addVotingKey (accessor.keys.getD []) key
  return ofList keys

/-- The vector is given up with the last key. -/
def remove (accessor : PublicKeysAccessor) (key : PinnedVotingKey) : PublicKeysAccessor × Bool :=
  match accessor.keys with
  | none => (accessor, false)
  | some keys =>
    match findExact keys key with
    | none => (accessor, false)
    | some index => (ofList (keys.eraseIdx index), true)

variable {accessor accessor' : PublicKeysAccessor} {key : PinnedVotingKey} {epoch : UInt32}

theorem keys_eq_none_iff : accessor.keys = none ↔ accessor.getAll = [] := by
  rw [getAll]
  cases hkeys : accessor.keys with
  | none => exact iff_of_true rfl rfl
  | some keys => exact iff_of_false (Option.some_ne_none keys) (accessor.ne_nil keys hkeys)

theorem eq_of_getAll_eq (h : accessor.getAll = accessor'.getAll) : accessor = accessor' := by
  have hkeys : accessor.keys = accessor'.keys := by
    cases hkeys : accessor.keys with
    | none => exact (keys_eq_none_iff.2 (h ▸ keys_eq_none_iff.1 hkeys)).symm
    | some keys =>
      cases hkeys' : accessor'.keys with
      | none =>
        rw [keys_eq_none_iff, ← h, ← keys_eq_none_iff, hkeys] at hkeys'
        cases hkeys'
      | some keys' =>
        rw [getAll, getAll, hkeys, hkeys'] at h
        exact congrArg some h
  cases accessor with
  | mk keys ne_nil =>
    cases accessor' with
    | mk keys' ne_nil' =>
      cases hkeys
      rfl

@[simp] theorem getAll_ofList (keys : List PinnedVotingKey) : (ofList keys).getAll = keys := by
  rw [ofList]
  split
  · case isTrue hnil => exact hnil.symm
  · rfl

theorem ofList_getAll (accessor : PublicKeysAccessor) : ofList accessor.getAll = accessor :=
  eq_of_getAll_eq (getAll_ofList accessor.getAll)

theorem findExact_eq (keys : List PinnedVotingKey) (key : PinnedVotingKey) : findExact keys key = keys.idxOf? key := by
  rw [findExact, List.idxOf?]
  congr 1
  funext existingKey
  rw [← Bool.decide_and, ← Bool.decide_and, Bool.beq_eq_decide_eq]
  congr 1
  rw [eq_comm (a := existingKey), PinnedVotingKey.mk.injEq, and_assoc]

theorem add_eq (accessor : PublicKeysAccessor) (key : PinnedVotingKey) :
    accessor.add key = (addVotingKey accessor.getAll key).map ofList := rfl

theorem remove_eq (accessor : PublicKeysAccessor) (key : PinnedVotingKey) :
    accessor.remove key = (ofList (removeVotingKey accessor.getAll key), decide (key ∈ accessor.getAll)) := by
  rw [remove, getAll, removeVotingKey]
  cases hkeys : accessor.keys with
  | none =>
    have hempty : accessor = ofList [] := eq_of_getAll_eq (keys_eq_none_iff.1 hkeys)
    exact congrArg (·, false) hempty
  | some keys =>
    have hall : accessor.getAll = keys := by rw [getAll, hkeys, Option.getD_some]
    rw [Option.getD_some, List.erase_eq_eraseIdx]
    simp only [findExact_eq]
    cases hindex : keys.idxOf? key with
    | none =>
      have hnot := List.idxOf?_eq_none_iff.1 hindex
      rw [decide_eq_false hnot, ← hall, ofList_getAll]
    | some index =>
      have hmem : key ∈ keys := List.isSome_idxOf?.1 (by rw [hindex]; rfl)
      rw [decide_eq_true hmem]

theorem containsExact_iff : accessor.containsExact key = true ↔ key ∈ accessor.getAll := by
  rw [containsExact, getAll]
  cases hkeys : accessor.keys with
  | none => simp
  | some keys => simp [findExact_eq]

theorem get_eq (accessor : PublicKeysAccessor) (index : Nat) : accessor.get index = accessor.getAll[index]? := by
  rw [get, getAll]
  cases accessor.keys <;> rfl

theorem contains_eq (accessor : PublicKeysAccessor) (epoch : UInt32) : accessor.contains epoch =
    match accessor.getAll.findIdx? fun key => key.containsEpoch epoch with
    | none => (notFound, false)
    | some index => (index, true) := by
  rw [contains, getAll]
  cases accessor.keys <;> rfl

end PublicKeysAccessor

/-! ## Sorted keys -/

section Sorted
variable {keys keys' : List PinnedVotingKey} {key key' : PinnedVotingKey} {epoch : UInt32}

theorem containsEpoch_iff : key.containsEpoch epoch = true ↔ key.startEpoch ≤ epoch ∧ epoch ≤ key.endEpoch := by
  rw [PinnedVotingKey.containsEpoch, Bool.and_eq_true, decide_eq_true_iff, decide_eq_true_iff]

theorem not_containsEpoch_of_lt (hlt : key.endEpoch < key'.startEpoch) :
    ¬(key.containsEpoch epoch = true ∧ key'.containsEpoch epoch = true) := fun ⟨h, h'⟩ =>
  absurd hlt (UInt32.not_lt.2 (UInt32.le_trans (containsEpoch_iff.1 h').1 (containsEpoch_iff.1 h).2))

theorem not_overlaps (hrange : key.startEpoch ≤ key.endEpoch) (hrange' : key'.startEpoch ≤ key'.endEpoch)
    (h : key.endEpoch < key'.startEpoch ∨ key'.endEpoch < key.startEpoch) : key.overlaps key' = false := by
  simp only [PinnedVotingKey.overlaps, PinnedVotingKey.containsEpoch, Bool.or_eq_false_iff, Bool.and_eq_false_iff,
    decide_eq_false_iff_not, UInt32.not_le]
  rcases h with h | h
  · exact ⟨⟨.inr h, .inr (UInt32.lt_of_lt_of_le h hrange')⟩, .inl (UInt32.lt_of_le_of_lt hrange h)⟩
  · exact ⟨⟨.inl (UInt32.lt_of_le_of_lt hrange' h), .inl h⟩, .inr h⟩

theorem SortedKeys.startEpoch_lt (h : SortedKeys keys) :
    keys.Pairwise fun key next => key.startEpoch < next.startEpoch :=
  h.sorted.imp_of_mem fun hmem _ hlt => UInt32.lt_of_le_of_lt (h.ranges _ hmem) hlt

theorem SortedKeys.eq_of_perm (h : SortedKeys keys) (h' : SortedKeys keys') (hperm : keys.Perm keys') : keys = keys' :=
  hperm.eq_of_pairwise (fun _ _ _ _ hlt hgt => absurd hgt (UInt32.not_lt.2 (UInt32.le_of_lt hlt)))
    h.startEpoch_lt h'.startEpoch_lt

theorem SortedKeys.nodup (h : SortedKeys keys) : keys.Nodup :=
  h.startEpoch_lt.imp fun hlt heq => UInt32.ne_of_lt hlt (congrArg PinnedVotingKey.startEpoch heq)

theorem SortedKeys.lt_or_lt (h : SortedKeys keys) (hkey : key ∈ keys) (hkey' : key' ∈ keys) (hne : key ≠ key') :
    key.endEpoch < key'.startEpoch ∨ key'.endEpoch < key.startEpoch :=
  List.Pairwise.forall_of_forall_of_flip
    (R := fun k k' => k ≠ k' → k.endEpoch < k'.startEpoch ∨ k'.endEpoch < k.startEpoch)
    (fun _ _ hne => absurd rfl hne) (h.sorted.imp fun hlt _ => .inl hlt) (h.sorted.imp fun hlt _ => .inr hlt)
    hkey hkey' hne

theorem SortedKeys.eq_of_containsEpoch (h : SortedKeys keys) (hkey : key ∈ keys) (hkey' : key' ∈ keys)
    (hepoch : key.containsEpoch epoch = true) (hepoch' : key'.containsEpoch epoch = true) : key = key' := by
  by_contra hne
  rcases h.lt_or_lt hkey hkey' hne with hlt | hlt
  · exact not_containsEpoch_of_lt hlt ⟨hepoch, hepoch'⟩
  · exact not_containsEpoch_of_lt hlt ⟨hepoch', hepoch⟩

theorem SortedKeys.endEpoch_le_getLast (h : SortedKeys keys) (hne : keys ≠ []) (hkey : key ∈ keys) :
    key.endEpoch ≤ (keys.getLast hne).endEpoch := by
  have hsorted := h.sorted
  rw [← List.dropLast_append_getLast hne] at hsorted hkey
  rcases List.mem_append.1 hkey with hinit | hlast
  · have hlt := (List.pairwise_append.1 hsorted).2.2 key hinit _ (List.mem_singleton.2 rfl)
    exact UInt32.le_of_lt (UInt32.lt_of_lt_of_le hlt (h.ranges _ (List.getLast_mem hne)))
  · rw [List.mem_singleton.1 hlast]
    exact UInt32.le_refl _

theorem addVotingKey_removeVotingKey (h : SortedKeys keys) (hkey : key ∈ keys) :
    addVotingKey (removeVotingKey keys key) key = .ok keys := by
  have hnot : ∀ existingKey ∈ keys.erase key, key.overlaps existingKey = false := by
    intro existingKey hmem
    have hexisting := List.mem_of_mem_erase hmem
    have hne : key ≠ existingKey := fun heq => h.nodup.not_mem_erase (heq ▸ hmem)
    exact not_overlaps (h.ranges key hkey) (h.ranges existingKey hexisting) (h.lt_or_lt hkey hexisting hne)
  cases hadd : addVotingKey (removeVotingKey keys key) key with
  | error e =>
    rw [addVotingKey, if_neg (by simpa [removeVotingKey] using hnot)] at hadd
    cases hadd
  | ok keys' =>
    obtain ⟨hsorted, hperm⟩ := addVotingKey_spec (removeVotingKey_sorted h) (h.ranges key hkey) hadd
    exact congrArg Except.ok (hsorted.eq_of_perm h (hperm.trans (List.perm_cons_erase hkey).symm))

end Sorted

/-! ## Links -/

inductive LinkAction where
  | unlink
  | link
  deriving DecidableEq

inductive LinkMode where
  | commit
  | rollback
  deriving DecidableEq

structure VotingKeyLinkNotification where
  linkedPublicKey : PinnedVotingKey
  linkAction : LinkAction

structure VotingKeyConfiguration where
  maxVotingKeysPerAccount : UInt8
  minVotingKeyLifetime : UInt32
  maxVotingKeyLifetime : UInt32

inductive LinkResult where
  | success
  | startEpochInvalid
  | invalidLinkRange
  | tooManyLinks
  | linkAlreadyExists
  | inconsistentUnlinkData
  deriving DecidableEq

def isOutsideRange (notification : VotingKeyLinkNotification) (minRange maxRange : UInt32) : Bool :=
  let pinnedVotingKey := notification.linkedPublicKey
  if pinnedVotingKey.endEpoch < pinnedVotingKey.startEpoch then true
  else
    let range := pinnedVotingKey.endEpoch - pinnedVotingKey.startEpoch + 1
    decide (range < minRange) || decide (maxRange < range)

def validateVotingKeyLinkRange (config : VotingKeyConfiguration) (notification : VotingKeyLinkNotification) :
    LinkResult :=
  if notification.linkedPublicKey.startEpoch = 0 then .startEpochInvalid
  else if isOutsideRange notification config.minVotingKeyLifetime config.maxVotingKeyLifetime then .invalidLinkRange
  else .success

def validateMultiKeyLink (config : VotingKeyConfiguration) (accessor : PublicKeysAccessor)
    (notification : VotingKeyLinkNotification) : LinkResult :=
  match notification.linkAction with
  | .link =>
    if config.maxVotingKeysPerAccount.toNat = accessor.size then .tooManyLinks
    else if notification.linkedPublicKey.startEpoch ≤ accessor.upperBound then .linkAlreadyExists
    else .success
  | .unlink => if accessor.containsExact notification.linkedPublicKey then .success else .inconsistentUnlinkData

def shouldLink (action : LinkAction) (mode : LinkMode) : Bool :=
  if mode = .commit then decide (action = .link) else decide (action = .unlink)

def observeMultiKeyLink (mode : LinkMode) (accessor : PublicKeysAccessor) (notification : VotingKeyLinkNotification) :
    Except KeyError PublicKeysAccessor :=
  if shouldLink notification.linkAction mode then accessor.add notification.linkedPublicKey
  else return (accessor.remove notification.linkedPublicKey).1

/-- What the validators let through. -/
def Admitted (config : VotingKeyConfiguration) (accessor : PublicKeysAccessor)
    (notification : VotingKeyLinkNotification) : Prop :=
  validateVotingKeyLinkRange config notification = .success ∧
    validateMultiKeyLink config accessor notification = .success

instance (config : VotingKeyConfiguration) (accessor : PublicKeysAccessor) (notification : VotingKeyLinkNotification) :
    Decidable (Admitted config accessor notification) :=
  inferInstanceAs (Decidable (_ ∧ _))

/-- A notification that the validators reject changes nothing. -/
def executeLink (config : VotingKeyConfiguration) (accessor : PublicKeysAccessor)
    (notification : VotingKeyLinkNotification) : Except KeyError PublicKeysAccessor :=
  if Admitted config accessor notification then observeMultiKeyLink .commit accessor notification else return accessor

def runLinks (config : VotingKeyConfiguration) (notifications : List VotingKeyLinkNotification) :
    Except KeyError PublicKeysAccessor :=
  notifications.foldlM (executeLink config) {}

section Links
variable {config : VotingKeyConfiguration} {accessor accessor' : PublicKeysAccessor} {key : PinnedVotingKey}
  {notification : VotingKeyLinkNotification} {epoch : UInt32}

theorem endEpoch_le_upperBound (h : SortedKeys accessor.getAll) (hkey : key ∈ accessor.getAll) :
    key.endEpoch ≤ accessor.upperBound := by
  rw [PublicKeysAccessor.upperBound]
  split
  · case h_1 hkeys =>
    rw [PublicKeysAccessor.keys_eq_none_iff.1 hkeys] at hkey
    cases hkey
  · case h_2 keys hkeys =>
    rw [PublicKeysAccessor.getAll, hkeys, Option.getD_some] at h hkey
    exact h.endEpoch_le_getLast _ hkey

theorem Admitted.link (hadmitted : Admitted config accessor ⟨key, .link⟩) :
    key.startEpoch ≤ key.endEpoch ∧ accessor.upperBound < key.startEpoch := by
  obtain ⟨hrange, hlink⟩ := hadmitted
  rw [validateVotingKeyLinkRange] at hrange
  simp only [validateMultiKeyLink] at hlink
  split at hrange
  · cases hrange
  split at hrange
  · cases hrange
  case isFalse hinside =>
    split at hlink
    · cases hlink
    split at hlink
    · cases hlink
    case isFalse hbound =>
      refine ⟨?_, UInt32.not_le.1 hbound⟩
      by_contra hlt
      rw [isOutsideRange, if_pos (UInt32.not_le.1 hlt)] at hinside
      exact hinside rfl

theorem Admitted.unlink (hadmitted : Admitted config accessor ⟨key, .unlink⟩) : key ∈ accessor.getAll := by
  have hunlink := hadmitted.2
  simp only [validateMultiKeyLink] at hunlink
  split at hunlink
  · case isTrue hcontains => exact PublicKeysAccessor.containsExact_iff.1 hcontains
  · cases hunlink

theorem addVotingKey_of_admitted (h : SortedKeys accessor.getAll) (hadmitted : Admitted config accessor ⟨key, .link⟩) :
    addVotingKey accessor.getAll key = .ok (accessor.getAll ++ [key]) :=
  addVotingKey_append h.ranges hadmitted.link.1 fun _ hk =>
    UInt32.lt_of_le_of_lt (endEpoch_le_upperBound h hk) hadmitted.link.2

theorem add_of_admitted (h : SortedKeys accessor.getAll) (hadmitted : Admitted config accessor ⟨key, .link⟩) :
    accessor.add key = .ok (.ofList (accessor.getAll ++ [key])) := by
  rw [PublicKeysAccessor.add_eq, addVotingKey_of_admitted h hadmitted]
  rfl

theorem remove_ofList_append (h : SortedKeys accessor.getAll) (hadmitted : Admitted config accessor ⟨key, .link⟩) :
    (PublicKeysAccessor.ofList (accessor.getAll ++ [key])).remove key = (accessor, true) := by
  have hnot : key ∉ accessor.getAll := fun hmem =>
    absurd (endEpoch_le_upperBound h hmem)
      (UInt32.not_le.2 (UInt32.lt_of_lt_of_le hadmitted.link.2 hadmitted.link.1))
  rw [PublicKeysAccessor.remove_eq, PublicKeysAccessor.getAll_ofList, removeVotingKey,
    List.erase_append_right [key] hnot, List.erase_cons_head, List.append_nil, PublicKeysAccessor.ofList_getAll,
    decide_eq_true (List.mem_append_right accessor.getAll (List.mem_singleton.2 rfl))]

theorem observeMultiKeyLink_spec (h : SortedKeys accessor.getAll) (hadmitted : Admitted config accessor notification) :
    ∃ accessor', observeMultiKeyLink .commit accessor notification = .ok accessor' ∧ SortedKeys accessor'.getAll ∧
      observeMultiKeyLink .rollback accessor' notification = .ok accessor := by
  obtain ⟨key, action⟩ := notification
  cases action with
  | link =>
    refine ⟨_, add_of_admitted h hadmitted, ?_, ?_⟩
    · rw [PublicKeysAccessor.getAll_ofList]
      exact (addVotingKey_spec h hadmitted.link.1 (addVotingKey_of_admitted h hadmitted)).1
    · show Except.ok ((PublicKeysAccessor.ofList (accessor.getAll ++ [key])).remove key).1 = _
      rw [remove_ofList_append h hadmitted]
  | unlink =>
    have hok : observeMultiKeyLink .commit accessor ⟨key, .unlink⟩ =
        .ok (.ofList (removeVotingKey accessor.getAll key)) := by
      show Except.ok (accessor.remove key).1 = _
      rw [PublicKeysAccessor.remove_eq]
    refine ⟨_, hok, ?_, ?_⟩
    · rw [PublicKeysAccessor.getAll_ofList]
      exact removeVotingKey_sorted h
    · show PublicKeysAccessor.add _ key = _
      rw [PublicKeysAccessor.add_eq, PublicKeysAccessor.getAll_ofList, addVotingKey_removeVotingKey h hadmitted.unlink]
      exact congrArg Except.ok accessor.ofList_getAll

theorem foldlM_executeLink (notifications : List VotingKeyLinkNotification) (h : SortedKeys accessor.getAll) :
    ∃ accessor', notifications.foldlM (executeLink config) accessor = .ok accessor' ∧ SortedKeys accessor'.getAll := by
  induction notifications generalizing accessor with
  | nil => exact ⟨accessor, rfl, h⟩
  | cons notification notifications ih =>
    rw [List.foldlM_cons, executeLink]
    by_cases hadmitted : Admitted config accessor notification
    · obtain ⟨next, hok, hsorted, -⟩ := observeMultiKeyLink_spec h hadmitted
      rw [if_pos hadmitted, hok]
      exact ih hsorted
    · rw [if_neg hadmitted]
      exact ih h

theorem runLinks_sorted (config : VotingKeyConfiguration) (notifications : List VotingKeyLinkNotification) :
    ∃ accessor, runLinks config notifications = .ok accessor ∧ SortedKeys accessor.getAll :=
  foldlM_executeLink notifications ⟨fun _ hkey => (nomatch hkey), List.Pairwise.nil⟩

structure FindsKey (accessor : PublicKeysAccessor) (epoch : UInt32) : Prop where
  found_iff : (accessor.contains epoch).2 = true ↔ ∃ key ∈ accessor.getAll, key.containsEpoch epoch = true
  get_eq : (accessor.contains epoch).2 = true → ∃ key ∈ accessor.getAll,
    accessor.get (accessor.contains epoch).1 = some key ∧ key.containsEpoch epoch = true ∧
      ∀ key' ∈ accessor.getAll, key'.containsEpoch epoch = true → key' = key

theorem findsKey (h : SortedKeys accessor.getAll) (epoch : UInt32) : FindsKey accessor epoch := by
  cases hindex : accessor.getAll.findIdx? fun key => key.containsEpoch epoch with
  | none =>
    have hcontains : accessor.contains epoch = (PublicKeysAccessor.notFound, false) := by
      rw [PublicKeysAccessor.contains_eq, hindex]
    rw [List.findIdx?_eq_none_iff] at hindex
    refine ⟨?_, fun hfound => ?_⟩
    · rw [hcontains]
      refine iff_of_false Bool.false_ne_true ?_
      rintro ⟨key, hkey, hepoch⟩
      exact absurd hepoch (Bool.eq_false_iff.1 (hindex key hkey))
    · rw [hcontains] at hfound
      cases hfound
  | some index =>
    have hcontains : accessor.contains epoch = (index, true) := by
      rw [PublicKeysAccessor.contains_eq, hindex]
    obtain ⟨hlt, hepoch, -⟩ := List.findIdx?_eq_some_iff_getElem.1 hindex
    have hmem := List.getElem_mem hlt
    refine ⟨?_, fun _ => ⟨accessor.getAll[index], hmem, ?_, hepoch, fun key' hkey' hepoch' => ?_⟩⟩
    · rw [hcontains]
      exact iff_of_true rfl ⟨_, hmem, hepoch⟩
    · rw [hcontains, PublicKeysAccessor.get_eq, List.getElem?_eq_getElem hlt]
    · exact h.eq_of_containsEpoch hkey' hmem hepoch' hepoch

/-- After any links and unlinks that are let through the keys are sorted and their ranges are disjoint, a further link
followed by its unlink restores them, and every epoch has at most one key, which is found. -/
theorem votingKeys_runLinks (config : VotingKeyConfiguration) (notifications : List VotingKeyLinkNotification) :
    ∃ accessor, runLinks config notifications = .ok accessor ∧
      (accessor.getAll.Pairwise fun key next => key.startEpoch < next.startEpoch) ∧
      (accessor.getAll.Pairwise fun key next =>
        ∀ epoch, ¬(key.containsEpoch epoch = true ∧ next.containsEpoch epoch = true)) ∧
      (∀ key, Admitted config accessor ⟨key, .link⟩ → ∃ added, accessor.add key = .ok added ∧
        Admitted config added ⟨key, .unlink⟩ ∧ added.remove key = (accessor, true)) ∧
      ∀ epoch, FindsKey accessor epoch := by
  obtain ⟨accessor, hrun, h⟩ := runLinks_sorted config notifications
  refine ⟨accessor, hrun, h.startEpoch_lt, h.sorted.imp fun hlt epoch => not_containsEpoch_of_lt hlt,
    fun key hadmitted => ⟨_, add_of_admitted h hadmitted, ⟨hadmitted.1, ?_⟩, remove_ofList_append h hadmitted⟩,
    findsKey h⟩
  have hcontains : (PublicKeysAccessor.ofList (accessor.getAll ++ [key])).containsExact key = true := by
    rw [PublicKeysAccessor.containsExact_iff, PublicKeysAccessor.getAll_ofList]
    exact List.mem_append_right _ (List.mem_singleton.2 rfl)
  exact if_pos hcontains

end Links
end Catapult.State
