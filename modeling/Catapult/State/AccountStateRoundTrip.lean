import Catapult.State.AccountStateSerializer

/-!
# Account states are read back from their bytes

What is loaded is seen as the account that was saved (`Observed`), and is saved with the same bytes again. The first
mosaic is optimized when an account is loaded: this is the mosaic that was optimized before when the account has some
of it. The number of voting keys has one byte, as the configuration allows no more than 255 of them.
-/

namespace Catapult.State
open Reader

/-! ## Keys -/

section Keys
variable {keys : AccountPublicKeys}

theorem hasFlag_mask (keys : AccountPublicKeys) : hasFlag 1 (mask keys) = keys.linked.isSet ∧
    hasFlag 2 (mask keys) = keys.node.isSet ∧ hasFlag 4 (mask keys) = keys.vrf.isSet := by
  have hflags : ∀ linked node vrf : Bool, hasFlag 1 (keyType linked node vrf) = linked ∧
      hasFlag 2 (keyType linked node vrf) = node ∧ hasFlag 4 (keyType linked node vrf) = vrf := by decide
  exact hflags _ _ _

theorem reads_publicKey {flag : UInt8} {accessor : PublicKeyAccessor}
    (hflag : hasFlag flag (mask keys) = accessor.isSet) : ∃ accessor' : PublicKeyAccessor,
      Reads (readSupplementalPublicKey flag (UInt8.ofNat (mask keys).toNat) none)
        (if hasFlag flag (mask keys) then accessor.get.1 else []) accessor' ∧ accessor'.get = accessor.get := by
  rw [UInt8.ofNat_toNat, readSupplementalPublicKey]
  cases hset : accessor.isSet with
  | true =>
    rw [hset] at hflag
    simp only [hflag, if_true]
    refine ⟨some accessor.get, ?_, rfl⟩
    rw [← List.append_nil accessor.get.1]
    exact (Reads.bytes accessor.get).bind (Reads.lift rfl)
  | false =>
    rw [hset] at hflag
    simp only [hflag, Bool.false_eq_true, if_false]
    refine ⟨none, Reads.pure none, ?_⟩
    have hzero : accessor.getD zeroKey = zeroKey := by simpa [PublicKeyAccessor.isSet] using hset
    exact hzero.symm

theorem reads_votingKey (key : PinnedVotingKey) : Reads readVotingKey (votingKeyBytes key) key :=
  (Reads.bytes key.votingKey).bind ((Reads.uint32 key.startEpoch).bind (Reads.uint32 key.endEpoch).bind_pure)

theorem reads_votingKeys {done rest : List PinnedVotingKey} (hsorted : SortedKeys (done ++ rest)) :
    Reads (readVotingKeys rest.length done) (rest.flatMap votingKeyBytes) (done ++ rest) := by
  induction rest generalizing done with
  | nil =>
    rw [List.append_nil]
    exact Reads.pure done
  | cons key rest ih =>
    obtain ⟨-, -, hbetween⟩ := List.pairwise_append.1 hsorted.sorted
    have hadd : addVotingKey done key = .ok (done ++ [key]) :=
      addVotingKey_append (fun k hk => hsorted.ranges k (List.mem_append_left _ hk))
        (hsorted.ranges key (by simp)) fun k hk => hbetween k hk key List.mem_cons_self
    have hsplit : done ++ key :: rest = (done ++ [key]) ++ rest := by rw [List.append_assoc]; rfl
    rw [hsplit] at hsorted ⊢
    rw [List.flatMap_cons]
    exact (reads_votingKey key).bind ((Reads.lift hadd).bind_nil (ih hsorted))

theorem reads_keys (hsorted : SortedKeys keys.voting) (hlength : keys.voting.length ≤ 255) :
    ∃ keys' : AccountPublicKeys, Reads (readSupplementalPublicKeys {}) (writeSupplementalPublicKeys keys) keys' ∧
      keys'.linked.get = keys.linked.get ∧ keys'.node.get = keys.node.get ∧ keys'.vrf.get = keys.vrf.get ∧
      keys'.voting = keys.voting := by
  obtain ⟨hlinkedFlag, hnodeFlag, hvrfFlag⟩ := hasFlag_mask keys
  obtain ⟨linked, hreadLinked, hlinked⟩ := reads_publicKey hlinkedFlag
  obtain ⟨node, hreadNode, hnode⟩ := reads_publicKey hnodeFlag
  obtain ⟨vrf, hreadVrf, hvrf⟩ := reads_publicKey hvrfFlag
  refine ⟨⟨linked, node, vrf, keys.voting⟩, ?_, hlinked, hnode, hvrf, rfl⟩
  have hcount : Reads (nat LoadError.endOfStream 1) [UInt8.ofNat keys.voting.length] keys.voting.length :=
    Reads.nat (k := 1) (by omega)
  have hvoting : Reads (readVotingKeys keys.voting.length []) (keys.voting.flatMap votingKeyBytes) keys.voting :=
    @reads_votingKeys [] _ hsorted
  rw [readSupplementalPublicKeys, writeSupplementalPublicKeys]
  refine (Reads.byte (mask keys)).cons (hcount.cons ?_)
  exact hreadLinked.bind (hreadNode.bind (hreadVrf.bind hvoting.bind_pure))

end Keys

/-! ## Importances and activities -/

section Stacks
variable {α : Type} [Inhabited α] {n : Nat} {height : α → UInt64}

theorem foldlM_push {f : CompactArrayStack α n → α → Except StackError (CompactArrayStack α n)}
    (hdefault : height (default : α) = 0)
    (hf : ∀ stack value, (height value = 0 → value = default) →
      (height value = 0 ∨ height stack.front = 0 ∨ height stack.front < height value) →
      ∃ stack', f stack value = .ok stack' ∧ stack'.values = (value :: stack.values).take n)
    {values : List α} (hvalues : Descending height values) (hle : values.length ≤ n) :
    ∃ stack, values.reverse.foldlM f {} = .ok stack ∧
      stack.values = values ++ List.replicate (n - values.length) default := by
  induction values with
  | nil => exact ⟨{}, rfl, by simp⟩
  | cons value values ih =>
    simp only [List.length_cons] at hle
    have hold : Descending height values :=
      ⟨hvalues.chain.tail, fun v hv => hvalues.unset v (List.mem_cons_of_mem _ hv)⟩
    obtain ⟨stack, hfold, hstack⟩ := ih hold (by omega)
    have hfront : height value = 0 ∨ height stack.front = 0 ∨ height stack.front < height value := by
      rw [CompactArrayStack.front, hstack]
      cases values with
      | nil =>
        right
        left
        cases hlength : n - ([] : List α).length <;> simpa [hlength, List.replicate_succ] using hdefault
      | cons last values => exact (List.isChain_cons_cons.1 hvalues.chain).1
    obtain ⟨stack', hok, hstack'⟩ := hf stack value (hvalues.unset value List.mem_cons_self) hfront
    refine ⟨stack', ?_, ?_⟩
    · rw [List.reverse_cons, List.foldlM_append, hfold]
      change List.foldlM f stack [value] = _
      rw [List.foldlM_cons, hok]
      rfl
    · obtain ⟨k, hk⟩ : ∃ k, n - values.length = k + 1 := ⟨n - values.length - 1, by omega⟩
      have hk' : n - (value :: values).length = k := by
        simp only [List.length_cons]
        omega
      rw [hstack', hstack, hk, hk', List.replicate_succ', ← List.append_assoc, ← List.cons_append, ← List.cons_append]
      refine List.take_left' ?_
      simp only [List.length_append, List.length_cons, List.length_replicate]
      omega

theorem applySnapshot_push (snapshots : AccountImportanceSnapshots) (snapshot : ImportanceSnapshot)
    (hunset : snapshot.height = 0 → snapshot = default)
    (hlast : snapshot.height = 0 ∨ snapshots.front.height = 0 ∨ snapshots.front.height < snapshot.height) :
    ∃ snapshots', ImportanceReader.applySnapshot snapshots snapshot = .ok snapshots' ∧
      snapshots'.values = (snapshot :: snapshots.values).take importanceHistorySize := by
  rw [ImportanceReader.applySnapshot]
  by_cases hzero : snapshot.height = 0
  · rw [if_pos hzero, hunset hzero]
    exact ⟨_, rfl, rfl⟩
  · rw [if_neg hzero, AccountImportanceSnapshots.set, if_neg]
    · exact ⟨_, rfl, rfl⟩
    · rintro ⟨hne, hle⟩
      rcases hlast with h | h | h
      · exact hzero h
      · exact hne h
      · exact UInt64.not_lt.2 hle h

theorem applyBucket_push (buckets : AccountActivityBuckets) (bucket : ActivityBucket)
    (hunset : bucket.startHeight = 0 → bucket = default)
    (hlast : bucket.startHeight = 0 ∨ buckets.front.startHeight = 0 ∨ buckets.front.startHeight < bucket.startHeight) :
    ∃ buckets', ImportanceReader.applyBucket buckets bucket = .ok buckets' ∧
      buckets'.values = (bucket :: buckets.values).take activityBucketHistorySize := by
  rw [ImportanceReader.applyBucket]
  by_cases hzero : bucket.startHeight = 0
  · rw [if_pos hzero, hunset hzero]
    exact ⟨_, rfl, rfl⟩
  · have hlt : buckets.front.startHeight < bucket.startHeight := by
      rcases hlast with h | h | h
      · exact absurd h hzero
      · rw [h]
        exact UInt64.pos_iff_ne_zero.2 hzero
      · exact h
    have hsize : (buckets.push { startHeight := bucket.startHeight }).size ≠ 0 := by
      by_cases hsize : buckets.size < activityBucketHistorySize
      · simp [CompactArrayStack.push, hsize]
      · simp only [CompactArrayStack.push, hsize, if_false]
        simp only [activityBucketHistorySize] at hsize
        omega
    rw [if_neg hzero, AccountActivityBuckets.update]
    simp only
    rw [if_neg (fun h => UInt64.lt_asymm hlt h.2), if_pos hlt, CompactArrayStack.modifyFront, if_neg hsize]
    exact ⟨_, rfl, rfl⟩

theorem reads_snapshot (snapshot : ImportanceSnapshot) :
    Reads ImportanceReader.readSnapshot (snapshotBytes snapshot) snapshot :=
  (Reads.uint64 snapshot.importance).bind (Reads.uint64 snapshot.height).bind_pure

theorem reads_bucket (bucket : ActivityBucket) : Reads ImportanceReader.readBucket (bucketBytes bucket) bucket :=
  (Reads.uint64 bucket.startHeight).bind ((Reads.uint64 bucket.totalFeesPaid).bind
    ((Reads.uint32 bucket.beneficiaryCount).bind (Reads.uint64 bucket.rawScore).bind_pure))

theorem reads_importance (reader : ImportanceReader) (snapshots : List ImportanceSnapshot)
    (buckets : List ActivityBucket) :
    Reads (reader.read snapshots.length buckets.length) (snapshots.flatMap snapshotBytes ++ buckets.flatMap bucketBytes)
      ⟨reader.snapshots ++ snapshots, reader.buckets ++ buckets⟩ :=
  (Reads.times fun snapshot _ => reads_snapshot snapshot).bind
    (Reads.times fun bucket _ => reads_bucket bucket).bind_pure

theorem apply_values {state : AccountState} {reader : ImportanceReader} (hsnapshots : state.importanceSnapshots = {})
    (hbuckets : state.activityBuckets = {}) (hsnapshotsLength : reader.snapshots.length = importanceHistorySize)
    (hbucketsLength : reader.buckets.length = activityBucketHistorySize)
    (hsnapshotsSorted : Descending ImportanceSnapshot.height reader.snapshots)
    (hbucketsSorted : Descending ActivityBucket.startHeight reader.buckets) :
    ∃ snapshots buckets, reader.apply state =
      .ok { state with importanceSnapshots := snapshots, activityBuckets := buckets } ∧
      snapshots.values = reader.snapshots ∧ buckets.values = reader.buckets := by
  obtain ⟨snapshots, hfold, hvalues⟩ := @foldlM_push _ _ _ ImportanceSnapshot.height _ rfl applySnapshot_push
    _ hsnapshotsSorted hsnapshotsLength.le
  obtain ⟨buckets, hfold', hvalues'⟩ := @foldlM_push _ _ _ ActivityBucket.startHeight _ rfl applyBucket_push
    _ hbucketsSorted hbucketsLength.le
  refine ⟨snapshots, buckets, ?_, by simpa [hsnapshotsLength] using hvalues, by simpa [hbucketsLength] using hvalues'⟩
  rw [ImportanceReader.apply, ImportanceReader.arrayOf, ImportanceReader.arrayOf, hsnapshotsLength, hbucketsLength,
    Nat.sub_self, Nat.sub_self, hsnapshots, hbuckets, List.replicate_zero, List.replicate_zero, List.nil_append,
    List.nil_append, hfold, hfold']
  rfl

end Stacks

/-! ## Mosaics -/

section Mosaics
variable {b : AccountBalances} {l : List Mosaic} {e : Mosaic}

theorem reads_credit (isFirst : Bool) {b' b'' : AccountBalances} {numMosaics : Nat} {bs : List UInt8}
    {b₀ : AccountBalances}
    (hcredit : b.credit e.1 e.2 = .ok b')
    (hoptimize : Reads (if isFirst then Reader.lift .balance (b'.optimize e.1) else pure b' : Loader AccountBalances)
      [] b'')
    (hrest : Reads (readMosaics numMosaics false b'') bs b₀) :
    Reads (readMosaics (numMosaics + 1) isFirst b) (mosaicBytes e ++ bs) b₀ := by
  rw [readMosaics, mosaicBytes, List.append_assoc]
  refine (Reads.uint64 e.1.value).bind ((Reads.uint64 e.2).bind ?_)
  exact (Reads.lift hcredit).bind_nil (hoptimize.bind_nil hrest)

theorem reads_mosaics (hb : b.Valid) (hmosaics : ∀ e ∈ l, e.1 ≠ 0 ∧ e.2 ≠ 0) (hnodup : (l.map Prod.fst).Nodup)
    (hnew : ∀ e ∈ l, ∀ e' ∈ b.mosaics, e'.1 ≠ e.1) : ∃ b',
      Reads (readMosaics l.length false b) (l.flatMap mosaicBytes) b' ∧ b'.Valid ∧
      b'.optimizedMosaicId = b.optimizedMosaicId ∧ b'.mosaics.Perm (l ++ b.mosaics) := by
  induction l generalizing b with
  | nil => exact ⟨b, Reads.pure b, hb, rfl, .refl _⟩
  | cons e l ih =>
    obtain ⟨hid, hamount⟩ := hmosaics e List.mem_cons_self
    obtain ⟨hnotMem, hnodup'⟩ := List.nodup_cons.1 hnodup
    obtain ⟨b₁, hcredit, hb₁, hopt₁, hperm₁⟩ := AccountBalances.credit_new hb hid hamount (hnew e List.mem_cons_self)
    have hnew₁ : ∀ e' ∈ l, ∀ e'' ∈ b₁.mosaics, e''.1 ≠ e'.1 := by
      intro e' he' e'' he''
      rcases List.mem_cons.1 (hperm₁.mem_iff.1 he'') with rfl | he''
      · exact fun heq => hnotMem (List.mem_map.2 ⟨e', he', heq.symm⟩)
      · exact hnew e' (List.mem_cons_of_mem _ he') e'' he''
    obtain ⟨b₂, hread, hb₂, hopt₂, hperm₂⟩ :=
      ih hb₁ (fun e' he' => hmosaics e' (List.mem_cons_of_mem _ he')) hnodup' hnew₁
    refine ⟨b₂, reads_credit false hcredit (Reads.pure b₁) hread, hb₂, hopt₂.trans hopt₁, ?_⟩
    exact hperm₂.trans ((hperm₁.append_left l).trans List.perm_middle)

def firstMosaicId (l : List Mosaic) : MosaicId := (l.head?.map Prod.fst).getD 0

theorem optimized_first {o : MosaicId} (hsorted : Optimized o l) : Optimized (firstMosaicId l) l := by
  cases l with
  | nil => exact List.Pairwise.nil
  | cons e l =>
    obtain ⟨hfirst, hrest⟩ := optimized_cons_iff.1 hsorted
    refine optimized_cons_iff.2 ⟨fun e' he' => ?_, hrest⟩
    exact isLessThan_optimized (ne_of_isLessThan (hfirst e' he')).1.symm

theorem firstMosaicId_eq {o : MosaicId} (hsorted : Optimized o l) (hmem : ∃ e ∈ l, e.1 = o) : firstMosaicId l = o := by
  obtain ⟨e, he, heq⟩ := hmem
  cases l with
  | nil => cases he
  | cons first l =>
    rcases List.mem_cons.1 he with rfl | he
    · exact heq
    · exact absurd heq (ne_of_isLessThan ((optimized_cons_iff.1 hsorted).1 e he)).2

theorem reads_balances (hb : b.Valid) (hsize : b.size ≤ 65535) : ∃ b',
    Reads (nat LoadError.endOfStream 2 >>= fun numMosaics => readMosaics numMosaics true {}) (writeMosaics b) b' ∧
    b'.Valid ∧ b'.mosaics = b.mosaics ∧ b'.optimizedMosaicId = firstMosaicId b.mosaics := by
  have hlength : b.size = b.mosaics.length := b.balances.size_eq
  have hmosaics : ∀ e ∈ b.mosaics, e.1 ≠ 0 ∧ e.2 ≠ 0 := fun e he => ⟨hb.balances.ids e he, hb.amounts e he⟩
  have hsorted : Optimized b.balances.optimizedMosaicId b.mosaics := hb.balances.sorted
  have hnodup : (b.mosaics.map Prod.fst).Nodup := nodup_of_optimized hsorted
  have hread : ∃ b', Reads (readMosaics b.mosaics.length true {}) (b.mosaics.flatMap mosaicBytes) b' ∧ b'.Valid ∧
      b'.optimizedMosaicId = firstMosaicId b.mosaics ∧ b'.mosaics.Perm b.mosaics := by
    cases hl : b.mosaics with
    | nil =>
      exact ⟨({} : AccountBalances), Reads.pure ({} : AccountBalances), AccountBalances.valid_empty, rfl, .refl _⟩
    | cons e l =>
      rw [hl] at hmosaics hnodup
      obtain ⟨hid, hamount⟩ := hmosaics e List.mem_cons_self
      obtain ⟨hnotMem, hnodup'⟩ := List.nodup_cons.1 hnodup
      obtain ⟨b₁, hcredit, hb₁, -, hperm₁⟩ := AccountBalances.credit_new AccountBalances.valid_empty hid hamount
        (fun _ hmem => nomatch hmem)
      obtain ⟨b₂, hoptimize, hb₂, hopt₂, hperm₂⟩ := AccountBalances.optimize_spec hb₁ e.1
      have honly : ∀ e' ∈ b₂.mosaics, e' = e := fun e' he' =>
        List.mem_singleton.1 (hperm₁.mem_iff.1 (hperm₂.mem_iff.1 he'))
      obtain ⟨b₃, hread, hb₃, hopt₃, hperm₃⟩ := reads_mosaics hb₂
        (fun e' he' => hmosaics e' (List.mem_cons_of_mem _ he')) hnodup' (fun e' he' e'' he'' heq => by
          rw [honly e'' he''] at heq
          exact hnotMem (List.mem_map.2 ⟨e', he', heq.symm⟩))
      refine ⟨b₃, reads_credit true hcredit (Reads.lift hoptimize) hread, hb₃, hopt₃.trans hopt₂, ?_⟩
      have hsingle : b₂.mosaics.Perm [e] := hperm₂.trans hperm₁
      exact hperm₃.trans ((hsingle.append_left l).trans List.perm_middle |>.trans (by rw [List.append_nil]))
  obtain ⟨b', hread, hb', hopt, hperm⟩ := hread
  refine ⟨b', ?_, hb', ?_, hopt⟩
  · rw [writeMosaics, hlength]
    exact (Reads.nat (by omega)).bind hread
  · have hsorted' : Optimized (firstMosaicId b.mosaics) b'.mosaics := by
      rw [← hopt, hb'.optimized]
      exact hb'.balances.sorted
    refine hperm.eq_of_pairwise (fun a c _ _ hac hca => ?_) hsorted' (optimized_first hsorted)
    exact absurd rfl (ne_of_isLessThan (isLessThan_trans hac hca)).1

end Mosaics

/-! ## Accounts -/

section Accounts
variable {state : AccountState}

/-- What is read of the stacks without the history. -/
def importanceReaderOf (state : AccountState) : ImportanceReader :=
  match getFormat state with
  | .highValue => ⟨state.importanceSnapshots.values.take (importanceHistorySize - rollbackBufferSize),
      state.activityBuckets.values.take (activityBucketHistorySize - rollbackBufferSize)⟩
  | .regular => {}

theorem reads_readImportance (state : AccountState) :
    Reads (readImportance (getFormat state).value.toNat {}) (match getFormat state with
      | .highValue => writeSnapshots state.importanceSnapshots 0 (importanceHistorySize - rollbackBufferSize) ++
          writeBuckets state.activityBuckets 0 (activityBucketHistorySize - rollbackBufferSize)
      | .regular => []) (importanceReaderOf state) := by
  rw [importanceReaderOf]
  cases getFormat state with
  | regular => exact Reads.pure _
  | highValue =>
    have hread := reads_importance {} (state.importanceSnapshots.values.take
      (importanceHistorySize - rollbackBufferSize))
      (state.activityBuckets.values.take (activityBucketHistorySize - rollbackBufferSize))
    rw [List.length_take, state.importanceSnapshots.length_eq, List.length_take,
      state.activityBuckets.length_eq] at hread
    exact hread

theorem reads_withoutHistory (hvalid : state.Valid) (hmosaics : state.balances.size ≤ 65535)
    (hvoting : state.supplementalPublicKeys.voting.length ≤ 255) : ∃ keys balances,
      Reads (loadAccountStateWithoutHistory {}) (saveNonHistorical state)
        ({ state with supplementalPublicKeys := keys, balances := balances, importanceSnapshots := {},
                      activityBuckets := {} }, importanceReaderOf state) ∧
      keys.linked.get = state.supplementalPublicKeys.linked.get ∧
      keys.node.get = state.supplementalPublicKeys.node.get ∧ keys.vrf.get = state.supplementalPublicKeys.vrf.get ∧
      keys.voting = state.supplementalPublicKeys.voting ∧ balances.mosaics = state.balances.mosaics ∧
      balances.optimizedMosaicId = firstMosaicId state.balances.mosaics := by
  obtain ⟨keys, hkeys, hlinked, hnode, hvrf, hvotingKeys⟩ := reads_keys hvalid.voting hvoting
  obtain ⟨balances, hbalances, -, hsame, hopt⟩ := reads_balances hvalid.balances hmosaics
  refine ⟨keys, balances, ?_, hlinked, hnode, hvrf, hvotingKeys, hsame, hopt⟩
  rw [loadAccountStateWithoutHistory, saveNonHistorical]
  refine (Reads.bytes state.address).bind ((Reads.uint64 state.addressHeight).bind ((Reads.bytes state.publicKey).bind
    ((Reads.uint64 state.publicKeyHeight).bind ((Reads.byte state.accountType.value).cons
      ((Reads.byte (getFormat state).value).cons (hkeys.bind ((reads_readImportance state).bind ?_)))))))
  rw [UInt8.ofNat_toNat]
  exact hbalances.bind_map

theorem reads_history (state : AccountState) :
    Reads (if (importanceReaderOf state).hasSnapshots
      then (importanceReaderOf state).read rollbackBufferSize rollbackBufferSize
      else (importanceReaderOf state).read importanceHistorySize activityBucketHistorySize) (saveHistory state)
      ⟨state.importanceSnapshots.values, state.activityBuckets.values⟩ := by
  have hsnapshots := state.importanceSnapshots.length_eq
  have hbuckets := state.activityBuckets.length_eq
  rw [importanceReaderOf, saveHistory]
  cases getFormat state with
  | regular =>
    have hread := reads_importance {} state.importanceSnapshots.values state.activityBuckets.values
    rw [hsnapshots, hbuckets] at hread
    simp only [writeSnapshots, writeBuckets, processRange, List.drop_zero]
    rw [List.take_of_length_le hsnapshots.le, List.take_of_length_le hbuckets.le]
    exact hread
  | highValue =>
    have hread := reads_importance
      ⟨state.importanceSnapshots.values.take (importanceHistorySize - rollbackBufferSize),
        state.activityBuckets.values.take (activityBucketHistorySize - rollbackBufferSize)⟩
      (state.importanceSnapshots.values.drop (importanceHistorySize - rollbackBufferSize))
      (state.activityBuckets.values.drop (activityBucketHistorySize - rollbackBufferSize))
    rw [List.take_append_drop, List.take_append_drop] at hread
    have hsnapshotsDrop : (state.importanceSnapshots.values.drop (importanceHistorySize - rollbackBufferSize)).length =
        rollbackBufferSize := by rw [List.length_drop, hsnapshots]; rfl
    have hbucketsDrop : (state.activityBuckets.values.drop (activityBucketHistorySize - rollbackBufferSize)).length =
        rollbackBufferSize := by rw [List.length_drop, hbuckets]; rfl
    have hset : (⟨state.importanceSnapshots.values.take (importanceHistorySize - rollbackBufferSize),
        state.activityBuckets.values.take (activityBucketHistorySize - rollbackBufferSize)⟩ :
          ImportanceReader).hasSnapshots = true := by
      cases hvalues : state.importanceSnapshots.values with
      | nil => simp [hvalues, importanceHistorySize, rollbackBufferSize] at hsnapshots
      | cons snapshot snapshots => rfl
    rw [hsnapshotsDrop, hbucketsDrop] at hread
    simp only [hset, if_true, writeSnapshots, writeBuckets, processRange]
    rw [List.take_of_length_le hsnapshotsDrop.le, List.take_of_length_le hbucketsDrop.le]
    exact hread

theorem save_congr {state' : AccountState} {id : MosaicId}
    (hobserve : state'.observe = { state.observe with optimizedMosaicId := id }) : save state' = save state := by
  simp only [AccountState.observe, Observed.mk.injEq] at hobserve
  obtain ⟨haddress, haddressHeight, hpublicKey, hpublicKeyHeight, htype, hlinked, hnode, hvrf, hvoting, hsnapshots,
    hbuckets, hmosaics, -⟩ := hobserve
  have hformat : getFormat state' = getFormat state := by
    have hheight : state'.importanceSnapshots.height = state.importanceSnapshots.height := by
      rw [AccountImportanceSnapshots.height, CompactArrayStack.front, hsnapshots]
      rfl
    rw [getFormat, getFormat, AccountImportanceSnapshots.active, hheight]
    rfl
  have hisSet : ∀ {accessor accessor' : PublicKeyAccessor}, accessor'.get = accessor.get →
      accessor'.isSet = accessor.isSet := fun heq => by
    simp only [PublicKeyAccessor.get] at heq
    rw [PublicKeyAccessor.isSet, PublicKeyAccessor.isSet, heq]
  have hmask : mask state'.supplementalPublicKeys = mask state.supplementalPublicKeys := by
    rw [mask, mask, hisSet hlinked, hisSet hnode, hisSet hvrf]
  have hkeys : writeSupplementalPublicKeys state'.supplementalPublicKeys =
      writeSupplementalPublicKeys state.supplementalPublicKeys := by
    rw [writeSupplementalPublicKeys, writeSupplementalPublicKeys, hmask, hlinked, hnode, hvrf, hvoting]
  have hsize : state'.balances.size = state.balances.size := by
    have hlength := congrArg List.length hmosaics
    exact state'.balances.balances.size_eq.trans (hlength.trans state.balances.balances.size_eq.symm)
  simp only [save, saveNonHistorical, saveHistory, writeSnapshots, writeBuckets, writeMosaics, hformat, haddress,
    haddressHeight, hpublicKey, hpublicKeyHeight, htype, hkeys, hsnapshots, hbuckets, hmosaics, hsize]

theorem reads_save (hvalid : state.Valid) (hmosaics : state.balances.size ≤ 65535)
    (hvoting : state.supplementalPublicKeys.voting.length ≤ 255) : ∃ state', Reads load (save state) state' ∧
      state'.observe = { state.observe with optimizedMosaicId := firstMosaicId state.balances.mosaics } := by
  obtain ⟨keys, balances, hread, hlinked, hnode, hvrf, hvotingKeys, hsame, hopt⟩ :=
    reads_withoutHistory hvalid hmosaics hvoting
  obtain ⟨snapshots, buckets, happly, hsnapshots, hbuckets⟩ := @apply_values
    { state with
      supplementalPublicKeys := keys, balances := balances, importanceSnapshots := {}, activityBuckets := {} }
    ⟨state.importanceSnapshots.values, state.activityBuckets.values⟩ rfl rfl state.importanceSnapshots.length_eq
    state.activityBuckets.length_eq hvalid.snapshots hvalid.buckets
  refine ⟨_, hread.bind (List.append_nil (saveHistory state) ▸ (reads_history state).bind (Reads.lift happly)), ?_⟩
  simp only [AccountState.observe, hlinked, hnode, hvrf, hvotingKeys, hsnapshots, hbuckets, hsame, hopt]

/-- An account is read back with the first mosaic optimized. It is seen as before when the account has some of its
optimized mosaic, and it is saved with the same bytes. -/
theorem load_save (hvalid : state.Valid) (hmosaics : state.balances.size ≤ 65535)
    (hvoting : state.supplementalPublicKeys.voting.length ≤ 255) : ∃ state', Reads load (save state) state' ∧
      state'.observe = { state.observe with optimizedMosaicId := firstMosaicId state.balances.mosaics } ∧
      ((∃ e ∈ state.balances.mosaics, e.1 = state.balances.optimizedMosaicId) → state'.observe = state.observe) ∧
      save state' = save state := by
  obtain ⟨state', hread, hobserve⟩ := reads_save hvalid hmosaics hvoting
  refine ⟨state', hread, hobserve, fun hmem => ?_, save_congr hobserve⟩
  have hsorted : Optimized state.balances.optimizedMosaicId state.balances.mosaics := by
    rw [hvalid.balances.optimized]
    exact hvalid.balances.balances.sorted
  rw [hobserve, firstMosaicId_eq hsorted hmem]
  rfl

def harvesterAccount : AccountState where
  address := ⟨List.replicate 24 7, rfl⟩
  addressHeight := 1
  accountType := ⟨1⟩
  supplementalPublicKeys := { node := some ⟨List.replicate 32 9, rfl⟩, voting := [⟨⟨List.replicate 32 8, rfl⟩, 3, 5⟩] }
  importanceSnapshots := ⟨[⟨50, 20⟩, ⟨40, 10⟩, default], 2, rfl⟩
  activityBuckets := ⟨[⟨20, 6, 1, 70⟩, ⟨10, 3, 2, 80⟩] ++ List.replicate 5 default, 2, rfl⟩
  balances := {
    balances := { value := (⟨5⟩, 100), next := some { array := [(⟨3⟩, 200)] }, optimizedMosaicId := ⟨5⟩ }
    optimizedMosaicId := ⟨5⟩ }

theorem harvesterAccount_valid : harvesterAccount.Valid where
  voting := ⟨by decide, by decide⟩
  snapshots := ⟨by decide, by decide⟩
  buckets := ⟨by decide, by decide⟩
  balances := by
    refine ⟨⟨⟨fun storage hmem => ?_, by decide, by decide, List.pairwise_singleton _ _⟩, ?_⟩, by decide, rfl⟩
    · cases hmem
      exact ⟨⟨by decide, fun _ hmap => nomatch hmap⟩, by decide⟩
    · exact optimized_cons_iff.2 ⟨by decide, List.pairwise_singleton _ _⟩

theorem load_save_harvester : ∃ state', Reads load (save harvesterAccount) state' ∧
    state'.observe = harvesterAccount.observe ∧ save state' = save harvesterAccount := by
  obtain ⟨state', hread, -, hsame, hsave⟩ := load_save harvesterAccount_valid (by decide) (by decide)
  exact ⟨state', hread, hsame (by decide), hsave⟩

def emptyAccount : AccountState where
  address := sampleAddress
  addressHeight := 1
  balances := { balances := { optimizedMosaicId := ⟨5⟩ }, optimizedMosaicId := ⟨5⟩ }

def votingAccount : AccountState where
  address := sampleAddress
  addressHeight := 1
  supplementalPublicKeys := {
    voting := (List.range 256).map fun epoch => ⟨zeroKey, UInt32.ofNat epoch, UInt32.ofNat epoch⟩ }

theorem valid_of_empty {state : AccountState} (hvoting : SortedKeys state.supplementalPublicKeys.voting)
    (hsnapshots : state.importanceSnapshots = {}) (hbuckets : state.activityBuckets = {}) {id : MosaicId}
    (hbalances : state.balances = { balances := { optimizedMosaicId := id }, optimizedMosaicId := id }) :
    state.Valid where
  voting := hvoting
  snapshots := hsnapshots ▸ descending_empty rfl
  buckets := hbuckets ▸ descending_empty rfl
  balances := by
    rw [hbalances]
    exact ⟨⟨CompactMosaicMap.stored_empty id, List.Pairwise.nil⟩, fun _ hmem => (nomatch hmem), rfl⟩

theorem votingAccount_sorted : SortedKeys votingAccount.supplementalPublicKeys.voting := by
  refine ⟨fun key hkey => ?_, List.pairwise_map.2 ?_⟩
  · obtain ⟨epoch, -, rfl⟩ := List.mem_map.1 hkey
    exact UInt32.le_refl _
  · refine List.pairwise_lt_range.imp_of_mem fun {epoch epoch'} _ hmem hlt => ?_
    rw [List.mem_range] at hmem
    simp only [UInt32.lt_iff_toNat_lt, UInt32.toNat_ofNat']
    omega

theorem voting_of_load {state : AccountState} {rest : List UInt8} (hload : load (save votingAccount) = .ok state rest) :
    state.supplementalPublicKeys.voting = [] := by
  have hread : (match load (save votingAccount) with
      | .ok state _ => some state.supplementalPublicKeys.voting
      | .error _ _ => none) = some [] := by decide +kernel
  rw [hload] at hread
  exact Option.some.inj hread

/-- An account is not read back as it was when it has nothing of its optimized mosaic, nor when it has more voting keys
than are allowed. -/
theorem not_load_save_every_account :
    (∃ state : AccountState, state.Valid ∧ state.balances.size ≤ 65535 ∧
      state.supplementalPublicKeys.voting.length ≤ 255 ∧
      ∀ state' rest, load (save state) = .ok state' rest → state'.observe ≠ state.observe) ∧
    (∃ state : AccountState, state.Valid ∧ state.balances.size ≤ 65535 ∧
      state.balances.optimizedMosaicId = firstMosaicId state.balances.mosaics ∧
      ∀ state' rest, load (save state) = .ok state' rest → state'.observe ≠ state.observe) := by
  refine ⟨⟨emptyAccount, ?_, by decide, by decide, fun state' rest hload heq => ?_⟩,
    ⟨votingAccount, ?_, by decide, by decide, fun state' rest hload heq => ?_⟩⟩
  · exact valid_of_empty ⟨(fun _ hkey => nomatch hkey), List.Pairwise.nil⟩ rfl rfl rfl
  · have hread : (match load (save emptyAccount) with
        | .ok state _ => some state.balances.optimizedMosaicId
        | .error _ _ => none) = some 0 := by decide +kernel
    rw [hload] at hread
    have hzero : state'.balances.optimizedMosaicId = 0 := Option.some.inj hread
    have hsame : state'.balances.optimizedMosaicId = ⟨5⟩ := congrArg Observed.optimizedMosaicId heq
    rw [hsame] at hzero
    exact absurd hzero (by decide)
  · exact valid_of_empty votingAccount_sorted rfl rfl rfl
  · have hsame : state'.supplementalPublicKeys.voting = votingAccount.supplementalPublicKeys.voting :=
      congrArg Observed.voting heq
    rw [voting_of_load hload] at hsame
    exact absurd hsame (by decide)

end Accounts
end Catapult.State
