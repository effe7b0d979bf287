import Catapult.Finalization.ProofStorage
import Catapult.Finalization.VotingSet

/-!
# Proofs by height (`FileProofStorage::loadProof(Height)`)

The proof storage has no index by height. `loadClosestProof` takes the height of the proof of the second epoch for the
size of an epoch, divides by it, and loads the proof of the epoch that this gives.

In a run that finalizes one epoch after the other (`SavedInEpochs`) the last proof of every epoch but the current one
is at the last height of its epoch, so the second epoch has the size of the others once a third one has begun.
-/

namespace Catapult.Finalization
open Reader

/-- The exceptions of `loadProof(Height)`. -/
inductive LoadAtHeightError where
  /-- "loadProof called with height 0" -/
  | heightZero
  /-- "cannot load proof with height … when storage height is …" -/
  | height (height storageHeight : UInt64)
  | divisionByZero
  | load (error : ProofStorageError)

namespace FileProofStorage
variable {batchSize : Nat} {storage : FileProofStorage batchSize}

def proofHeight (proof : List UInt8) : UInt64 := UInt64.ofNat (ofLeBytes ((proof.drop 16).take 8))

/-- The epoch that is looked up for `height`, with a conversion to 32 bits. -/
def closestEpoch (height votingSetGrouping : UInt64) : UInt32 := (height / votingSetGrouping + 1).toUInt32

def loadClosestProof (storage : FileProofStorage batchSize) (height : UInt64) :
    Except LoadAtHeightError (List UInt8) := do
  let currentEpoch := storage.statistics.round.epoch
  if currentEpoch < 2 then (storage.loadProof 1).mapError .load
  else
    let proof ← (storage.loadProof 2).mapError .load
    let votingSetGrouping := proofHeight proof
    if votingSetGrouping = 0 then throw .divisionByZero
    (storage.loadProof (closestEpoch height votingSetGrouping)).mapError .load

/-- `loadProof(Height)`; `none` for the null pointer. -/
def loadProofAt (storage : FileProofStorage batchSize) (height : UInt64) :
    Except LoadAtHeightError (Option (List UInt8)) := do
  if height = 0 then throw .heightZero
  let currentHeight := storage.statistics.height
  if currentHeight < height then throw (.height height currentHeight)
  let proof ← storage.loadClosestProof height
  return if proofHeight proof ≠ height then none else some proof

end FileProofStorage

theorem endHeight_one (grouping : Nat) : endHeight grouping 1 = 1 := rfl

theorem endHeight_two (grouping : Nat) : endHeight grouping 2 = grouping := by
  rw [endHeight, if_neg (by decide), Nat.one_mul]

theorem endHeight_of_two_le {grouping epoch : Nat} (h : 2 ≤ epoch) :
    endHeight grouping epoch = (epoch - 1) * grouping := if_neg (by omega)

theorem endHeight_pos {grouping epoch : Nat} (hgrouping : 0 < grouping) (hepoch : 0 < epoch) :
    0 < endHeight grouping epoch := by
  rcases Nat.lt_or_ge epoch 2 with hlt | hge
  · rw [show epoch = 1 by omega, endHeight_one]
    decide
  · rw [endHeight_of_two_le hge]
    exact Nat.mul_pos (by omega) hgrouping

/-- A proof is inside its epoch: it is not before the last height of the previous one. -/
structure ProofEntity.InEpoch (grouping : Nat) (proof : ProofEntity) : Prop where
  epoch_pos : 0 < proof.round.epoch.toNat
  lower : 1 < proof.round.epoch.toNat → endHeight grouping (proof.round.epoch.toNat - 1) ≤ proof.height.toNat
  upper : proof.height.toNat ≤ endHeight grouping proof.round.epoch.toNat
  height_pos : 0 < proof.height.toNat

/-- The runs in which every proof is inside its epoch and an epoch is begun when the one before has been finalized
to its last height. -/
inductive SavedInEpochs (grouping : Nat) {batchSize : Nat} : RecordedProofs batchSize → Prop
  | empty (batchSize_pos : 0 < batchSize) :
    SavedInEpochs grouping ⟨{ storage := { database := { batchSize_pos := batchSize_pos } } }, fun _ => none⟩
  | save {state : RecordedProofs batchSize} {proof : ProofEntity} : SavedInEpochs grouping state →
    proof.InEpoch grouping →
    (state.statistics.round.epoch.toNat < proof.round.epoch.toNat → 0 < state.statistics.round.epoch.toNat →
      state.statistics.height.toNat = endHeight grouping state.statistics.round.epoch.toNat) →
    SavedInEpochs grouping (state.save proof)

namespace RecordedProofs
variable {batchSize : Nat} {state : RecordedProofs batchSize} {grouping : Nat}

def epoch (state : RecordedProofs batchSize) : Nat := state.aggregate.storage.epoch

structure InEpochs (grouping : Nat) (state : RecordedProofs batchSize) : Prop where
  wellFormed : state.WellFormed
  accepted_epoch : ∀ e proof, state.accepted e = some proof → 0 < e ∧ e ≤ state.epoch ∧
    proof.round.epoch.toNat = e ∧ proof.InEpoch grouping
  current : ∀ proof, state.accepted state.epoch = some proof → proof.height = state.statistics.height
  earlier : ∀ e proof, e < state.epoch → state.accepted e = some proof → proof.height.toNat = endHeight grouping e
  unstarted : state.epoch = 0 → state.statistics.height = 0

theorem InEpochs.empty (batchSize_pos : 0 < batchSize) :
    InEpochs grouping ⟨{ storage := { database := { batchSize_pos := batchSize_pos } } }, fun _ => none⟩ :=
  ⟨⟨fun _ => none, Io.FileDatabase.shows_empty fun _ => rfl, fun _ hpos hle => absurd hle (Nat.not_le.2 hpos),
    fun _ _ => rfl⟩, fun _ _ h => (by cases h), fun _ h => (by cases h), fun _ _ _ h => (by cases h),
    fun _ => rfl⟩

theorem InEpochs.save (h : InEpochs grouping state) {proof : ProofEntity} (hproof : proof.InEpoch grouping)
    (hbegin : state.statistics.round.epoch.toNat < proof.round.epoch.toNat → 0 < state.statistics.round.epoch.toNat →
      state.statistics.height.toNat = endHeight grouping state.statistics.round.epoch.toNat) :
    InEpochs grouping (state.save proof) := by
  obtain ⟨hwell, hsame | haccepts⟩ := save_cases h.wellFormed proof
  · rw [hsame]
    exact h
  have hstatistics := haccepts.statistics_eq
  have hepoch : (state.save proof).epoch = proof.round.epoch.toNat := congrArg (·.round.epoch.toNat) hstatistics
  have hle : state.epoch ≤ proof.round.epoch.toNat := FileProofStorage.epoch_le_of_round_le haccepts.follows.round
  refine ⟨hwell, fun e p hp => ?_, fun p hp => ?_, fun e p hlt hp => ?_, fun hzero => ?_⟩
  · rw [haccepts.accepted_eq] at hp
    by_cases he : e = proof.round.epoch.toNat
    · rw [he, Function.update_self, Option.some.injEq] at hp
      rw [← hp, hepoch, he]
      exact ⟨hproof.epoch_pos, Nat.le_refl _, rfl, hproof⟩
    · rw [Function.update_of_ne he] at hp
      obtain ⟨hpos, hle', hround, hin⟩ := h.accepted_epoch e p hp
      exact ⟨hpos, by omega, hround, hin⟩
  · rw [haccepts.accepted_eq, hepoch, Function.update_self, Option.some.injEq] at hp
    rw [← hp, hstatistics]
    rfl
  · rw [hepoch] at hlt
    rw [haccepts.accepted_eq, Function.update_of_ne (Nat.ne_of_lt hlt)] at hp
    obtain ⟨hpos, hle', -, -⟩ := h.accepted_epoch e p hp
    rcases Nat.lt_or_ge e state.epoch with hearlier | hcurrent
    · exact h.earlier e p hearlier hp
    · have he : e = state.epoch := Nat.le_antisymm hle' hcurrent
      rw [he] at hp hlt hpos ⊢
      rw [h.current p hp]
      exact hbegin hlt hpos
  · rw [hepoch] at hzero
    exact absurd hzero (Nat.ne_of_gt hproof.epoch_pos)

end RecordedProofs

theorem SavedInEpochs.inEpochs {grouping batchSize : Nat} {state : RecordedProofs batchSize}
    (h : SavedInEpochs grouping state) : state.InEpochs grouping := by
  induction h with
  | empty batchSize_pos => exact .empty batchSize_pos
  | save _ hproof hbegin ih => exact ih.save hproof hbegin

namespace RecordedProofs
variable {batchSize : Nat} {state : RecordedProofs batchSize} {grouping : Nat}

theorem proofHeight_bytes (proof : ProofEntity) : FileProofStorage.proofHeight proof.bytes = proof.height := rfl

theorem InEpochs.exists_proof (h : InEpochs grouping state) {e : UInt32} (hpos : 0 < e.toNat)
    (hle : e.toNat ≤ state.epoch) :
    ∃ proof, state.accepted e.toNat = some proof ∧ state.aggregate.storage.loadProof e = .ok proof.bytes := by
  obtain ⟨c, hholds⟩ := h.wellFormed
  exact hholds.loadProof (fun hzero => by simp [hzero] at hpos) (UInt32.le_iff_toNat_le.2 hle)

theorem InEpochs.height_range (h : InEpochs grouping state) (hpos : 0 < state.epoch) :
    0 < state.statistics.height.toNat ∧ state.statistics.height.toNat ≤ endHeight grouping state.epoch ∧
      (1 < state.epoch → endHeight grouping (state.epoch - 1) ≤ state.statistics.height.toNat) := by
  obtain ⟨proof, haccepted, -⟩ := h.exists_proof (e := state.statistics.round.epoch) hpos (Nat.le_refl _)
  obtain ⟨-, -, hround, hin⟩ := h.accepted_epoch _ proof haccepted
  have hheight := h.current proof haccepted
  rw [← hheight]
  have hround' : proof.round.epoch.toNat = state.epoch := hround
  exact ⟨hin.height_pos, hround' ▸ hin.upper, fun hlt => hround' ▸ hin.lower (hround' ▸ hlt)⟩

/-- The epoch that `loadClosestProof` loads. -/
def lookedUp (grouping : Nat) (state : RecordedProofs batchSize) (height : Nat) : Nat :=
  if state.epoch < 2 then 1
  else if state.epoch = 2 then height / state.statistics.height.toNat + 1
  else height / grouping + 1

theorem InEpochs.lookedUp_le (h : InEpochs grouping state) (hpos : 0 < state.epoch)
    {height : Nat} (hle : height ≤ state.statistics.height.toNat) :
    0 < lookedUp grouping state height ∧ lookedUp grouping state height ≤ state.epoch := by
  obtain ⟨hheight, hend, -⟩ := h.height_range hpos
  unfold lookedUp
  split
  · omega
  · split
    · rename_i htwo
      have hquotient : height / state.statistics.height.toNat ≤ 1 := Nat.div_le_of_le_mul (by omega)
      exact ⟨Nat.succ_pos _, by omega⟩
    · rw [endHeight_of_two_le (by omega)] at hend
      have hquotient : height / grouping ≤ state.epoch - 1 :=
        Nat.div_le_of_le_mul (by rw [Nat.mul_comm]; omega)
      exact ⟨Nat.succ_pos _, by omega⟩

theorem toNat_closestEpoch {height votingSetGrouping : UInt64} {n : Nat}
    (hn : n = height.toNat / votingSetGrouping.toNat + 1) (hlt : n < 2 ^ 32) :
    (FileProofStorage.closestEpoch height votingSetGrouping).toNat = n := by
  have hone : (1 : UInt64).toNat = 1 := rfl
  rw [FileProofStorage.closestEpoch, UInt64.toNat_toUInt32, UInt64.toNat_add, UInt64.toNat_div, hone, ← hn,
    Nat.mod_eq_of_lt (a := n) (by omega), Nat.mod_eq_of_lt hlt]

theorem InEpochs.loadClosestProof (h : InEpochs grouping state) (hpos : 0 < state.epoch)
    {height : UInt64} (hle : height.toNat ≤ state.statistics.height.toNat) :
    ∃ proof, state.accepted (lookedUp grouping state height.toNat) = some proof ∧
      state.aggregate.storage.loadClosestProof height = .ok proof.bytes := by
  have hepochlt : state.epoch < 2 ^ 32 := state.statistics.round.epoch.toNat_lt
  obtain ⟨hlookpos, hlookle⟩ := h.lookedUp_le hpos hle
  have hstorage : state.aggregate.storage.statistics.round.epoch = state.statistics.round.epoch := rfl
  by_cases hone : state.statistics.round.epoch < 2
  · have hlt : state.epoch < 2 := UInt32.lt_iff_toNat_lt.1 hone
    obtain ⟨proof, haccepted, hload⟩ := h.exists_proof (e := 1) (by decide) hpos
    refine ⟨proof, ?_, ?_⟩
    · rw [lookedUp, if_pos hlt]
      exact haccepted
    · simp only [FileProofStorage.loadClosestProof, hstorage, if_pos hone, hload]
      rfl
  · have hge : 2 ≤ state.epoch := UInt32.le_iff_toNat_le.1 (UInt32.not_lt.1 hone)
    obtain ⟨second, haccepted₂, hload₂⟩ := h.exists_proof (e := 2) (by decide) hge
    have hsecond : second.height.toNat =
        if state.epoch = 2 then state.statistics.height.toNat else grouping := by
      split
      · rename_i htwo
        rw [h.current second (by rw [htwo]; exact haccepted₂)]
      · rw [h.earlier 2 second (by omega) haccepted₂, endHeight_two]
    have hlook : lookedUp grouping state height.toNat = height.toNat / second.height.toNat + 1 := by
      rw [lookedUp, if_neg (by omega), hsecond]
      split <;> rfl
    have hclosest := toNat_closestEpoch hlook (Nat.lt_of_le_of_lt hlookle hepochlt)
    obtain ⟨proof, haccepted, hload⟩ := h.exists_proof (e := FileProofStorage.closestEpoch height second.height)
      (by rw [hclosest]; exact hlookpos) (by rw [hclosest]; exact hlookle)
    have hnonzero : ¬ second.height = 0 := fun hzero => by
      have hin := (h.accepted_epoch _ second haccepted₂).2.2.2.height_pos
      rw [hzero] at hin
      exact absurd hin (by decide)
    refine ⟨proof, by rw [← hclosest]; exact haccepted, ?_⟩
    simp only [FileProofStorage.loadClosestProof, hstorage, if_neg hone, hload₂, Except.mapError, proofHeight_bytes,
      bind, Except.bind, if_neg hnonzero, hload]

theorem InEpochs.loadProofAt (h : InEpochs grouping state) {height : UInt64} (hpos : height ≠ 0)
    (hle : height ≤ state.statistics.height) :
    ∃ proof, state.accepted (lookedUp grouping state height.toNat) = some proof ∧
      state.aggregate.storage.loadProofAt height =
        .ok (if proof.height ≠ height then none else some proof.bytes) := by
  have hepoch : 0 < state.epoch := by
    refine Nat.pos_of_ne_zero fun hzero => hpos ?_
    rw [h.unstarted hzero] at hle
    exact UInt64.le_antisymm hle (UInt64.le_iff_toNat_le.2 (Nat.zero_le _))
  obtain ⟨proof, haccepted, hload⟩ := h.loadClosestProof hepoch (UInt64.le_iff_toNat_le.1 hle)
  refine ⟨proof, haccepted, ?_⟩
  have hstatistics : state.aggregate.storage.statistics = state.statistics := rfl
  simp only [FileProofStorage.loadProofAt, if_neg hpos, hstatistics,
    if_neg (UInt64.not_lt.2 hle), hload, proofHeight_bytes, bind, Except.bind]
  rfl

theorem endHeight_mono (hgrouping : 0 < grouping) {e e' : Nat} (hpos : 0 < e) (hle : e ≤ e') :
    endHeight grouping e ≤ endHeight grouping e' := by
  rcases Nat.lt_or_ge e 2 with hlt | hge
  · rw [show e = 1 by omega, endHeight_one]
    exact endHeight_pos hgrouping (by omega)
  · rw [endHeight_of_two_le hge, endHeight_of_two_le (by omega)]
    exact Nat.mul_le_mul_right _ (by omega)

theorem InEpochs.height_le (h : InEpochs grouping state) (hgrouping : 0 < grouping) {e : Nat} {proof : ProofEntity}
    (haccepted : state.accepted e = some proof) :
    proof.height ≠ 0 ∧ proof.height ≤ state.statistics.height := by
  obtain ⟨hpos, hle, -, hin⟩ := h.accepted_epoch e proof haccepted
  refine ⟨fun hzero => ?_, ?_⟩
  · have hheight := hin.height_pos
    rw [hzero] at hheight
    exact absurd hheight (by decide)
  · rcases Nat.lt_or_ge e state.epoch with hlt | hge
    · have hrange := (h.height_range (by omega)).2.2 (by omega)
      have hmono : endHeight grouping e ≤ endHeight grouping (state.epoch - 1) :=
        endHeight_mono hgrouping hpos (by omega)
      rw [UInt64.le_iff_toNat_le, h.earlier e proof hlt haccepted]
      omega
    · rw [Nat.le_antisymm hle hge] at haccepted
      rw [h.current proof haccepted]
      exact UInt64.le_refl _

theorem eq_of_dvd_between {n k : Nat} (hgrouping : 0 < grouping) (hdvd : grouping ∣ n) (hlow : k * grouping ≤ n)
    (hhigh : n ≤ (k + 1) * grouping) : n = k * grouping ∨ n = (k + 1) * grouping := by
  obtain ⟨m, rfl⟩ := hdvd
  rw [Nat.mul_comm grouping m] at hlow hhigh ⊢
  have hkm := Nat.le_of_mul_le_mul_right hlow hgrouping
  have hmk := Nat.le_of_mul_le_mul_right hhigh hgrouping
  rcases Nat.lt_or_ge k m with hlt | hge
  · exact .inr (by rw [show m = k + 1 by omega])
  · exact .inl (by rw [show m = k by omega])

theorem InEpochs.lookedUp_height (h : InEpochs grouping state) (hgrouping : 0 < grouping) {e : Nat}
    {proof found : ProofEntity} (haccepted : state.accepted e = some proof)
    (hend : e ≤ 2 ∨ grouping ∣ proof.height.toNat)
    (hfound : state.accepted (lookedUp grouping state proof.height.toNat) = some found) :
    found.height = proof.height := by
  obtain ⟨hpos, hle, -, hin⟩ := h.accepted_epoch e proof haccepted
  obtain ⟨hheight, hupper, hlower⟩ := h.height_range (by omega)
  -- it is enough that the looked up epoch is the epoch of the proof
  have hsame : lookedUp grouping state proof.height.toNat = e → found.height = proof.height := fun heq => by
    rw [heq, haccepted] at hfound
    cases hfound
    rfl
  by_cases hone : state.epoch < 2
  · refine hsame ?_
    rw [lookedUp, if_pos hone]
    omega
  by_cases htwo : state.epoch = 2
  · rw [lookedUp, if_neg hone, if_pos htwo] at hsame hfound
    rcases Nat.lt_or_ge e 2 with hfirst | hsecond
    · have hearlier := h.earlier e proof (by omega) haccepted
      rw [show e = 1 by omega, endHeight_one] at hearlier
      rw [hearlier] at hsame hfound
      rcases Nat.lt_or_ge 1 state.statistics.height.toNat with hlt | hge
      · refine hsame ?_
        rw [Nat.div_eq_of_lt hlt]
        omega
      · -- the second epoch has not left its first height
        have hheightone : state.statistics.height.toNat = 1 := by omega
        rw [hheightone, Nat.div_one, show 1 + 1 = state.epoch from htwo.symm] at hfound
        rw [h.current found hfound]
        exact UInt64.toNat_inj.1 (hheightone.trans hearlier.symm)
    · have hcurrent := h.current proof (by rw [htwo, ← show e = 2 by omega]; exact haccepted)
      refine hsame ?_
      rw [hcurrent, Nat.div_self hheight]
      omega
  · rw [lookedUp, if_neg hone, if_neg htwo] at hsame hfound
    rcases Nat.lt_or_ge e state.epoch with hlt | hge
    · have hearlier := h.earlier e proof hlt haccepted
      rcases Nat.lt_or_ge e 2 with hfirst | hsecond
      · rw [show e = 1 by omega, endHeight_one] at hearlier
        rw [hearlier] at hsame hfound
        rcases Nat.lt_or_ge 1 grouping with hlt' | hge'
        · refine hsame ?_
          rw [Nat.div_eq_of_lt hlt']
          omega
        · -- epochs of a single height: the second one ends where the first one does
          have hgroupingone : grouping = 1 := by omega
          rw [hgroupingone, Nat.div_one] at hfound
          have hfoundheight := h.earlier 2 found (by omega) hfound
          rw [endHeight_two, hgroupingone] at hfoundheight
          exact UInt64.toNat_inj.1 (hfoundheight.trans hearlier.symm)
      · rw [endHeight_of_two_le hsecond] at hearlier
        refine hsame ?_
        rw [hearlier, Nat.mul_div_cancel _ hgrouping]
        omega
    · have he : e = state.epoch := Nat.le_antisymm hle hge
      have hcurrent := h.current proof (he ▸ haccepted)
      have hdvd := hend.resolve_left (by omega)
      have hlow := hlower (by omega)
      rw [endHeight_of_two_le (by omega), ← hcurrent] at hlow hupper
      rw [show state.epoch - 1 = state.epoch - 2 + 1 by omega] at hupper
      rw [show state.epoch - 1 - 1 = state.epoch - 2 by omega] at hlow
      rcases eq_of_dvd_between hgrouping hdvd hlow hupper with hprevious | hlast
      · -- the first height of the epoch, which is the last one of the epoch before
        rw [hprevious, Nat.mul_div_cancel _ hgrouping, show state.epoch - 2 + 1 = state.epoch - 1 by omega] at hfound
        have hfoundheight := h.earlier _ found (by omega) hfound
        rw [endHeight_of_two_le (by omega), show state.epoch - 1 - 1 = state.epoch - 2 by omega] at hfoundheight
        exact UInt64.toNat_inj.1 (hfoundheight.trans hprevious.symm)
      · refine hsame ?_
        rw [hlast, Nat.mul_div_cancel _ hgrouping]
        omega

/-- In every run that finalizes one epoch after the other: heights that are zero or beyond the storage are refused, a
proof of the first two epochs or at the end of an epoch is found, and where no proof is stored none is found. -/
theorem loadProofAt_found (hgrouping : 0 < grouping) (h : SavedInEpochs grouping state) (height : UInt64) :
    (height = 0 ∨ state.statistics.height < height →
      ∃ error, state.aggregate.storage.loadProofAt height = .error error) ∧
    (∀ e proof, state.accepted e = some proof → proof.height = height → e ≤ 2 ∨ grouping ∣ height.toNat →
      ∃ found, state.aggregate.storage.loadProofAt height = .ok (some found.bytes) ∧ found.height = height ∧
        ∃ e', state.accepted e' = some found) ∧
    (height ≠ 0 → height ≤ state.statistics.height →
      (∀ e proof, state.accepted e = some proof → proof.height ≠ height) →
      state.aggregate.storage.loadProofAt height = .ok none) := by
  have hin := h.inEpochs
  refine ⟨fun hout => ?_, fun e proof haccepted hheight hend => ?_, fun hpos hle hnone => ?_⟩
  · by_cases hzero : height = 0
    · exact ⟨.heightZero, by rw [FileProofStorage.loadProofAt, if_pos hzero]; rfl⟩
    · refine ⟨.height height state.statistics.height, ?_⟩
      rw [FileProofStorage.loadProofAt, if_neg hzero]
      simp only [bind, Except.bind, pure, Except.pure]
      have hbeyond : state.aggregate.storage.statistics.height < height := hout.resolve_left hzero
      rw [if_pos hbeyond]
      rfl
  · subst hheight
    obtain ⟨hpos, hle⟩ := hin.height_le hgrouping haccepted
    obtain ⟨found, hfound, hload⟩ := hin.loadProofAt hpos hle
    have hsame := hin.lookedUp_height hgrouping haccepted hend hfound
    exact ⟨found, by rw [hload, if_neg (not_not.2 hsame)], hsame, _, hfound⟩
  · obtain ⟨found, hfound, hload⟩ := hin.loadProofAt hpos hle
    rw [hload, if_pos (hnone _ found hfound)]

def threeProofs : RecordedProofs 10 :=
  emptyProofs.saveAll [emptyProof 1 1 1, emptyProof 2 1 50, emptyProof 3 1 75]

theorem threeProofs_savedInEpochs : SavedInEpochs 50 threeProofs := by
  have hfirst : SavedInEpochs 50 (emptyProofs.save (emptyProof 1 1 1)) :=
    .save (.empty (by decide)) ⟨by decide +kernel, by decide +kernel, by decide +kernel, by decide +kernel⟩
      (by decide +kernel)
  have hsecond : SavedInEpochs 50 ((emptyProofs.save (emptyProof 1 1 1)).save (emptyProof 2 1 50)) :=
    .save hfirst ⟨by decide +kernel, by decide +kernel, by decide +kernel, by decide +kernel⟩ (by decide +kernel)
  change SavedInEpochs 50 (((emptyProofs.save (emptyProof 1 1 1)).save (emptyProof 2 1 50)).save (emptyProof 3 1 75))
  exact .save hsecond ⟨by decide +kernel, by decide +kernel, by decide +kernel, by decide +kernel⟩ (by decide +kernel)

theorem loadProofAt_found_three : ∃ found : ProofEntity,
    threeProofs.aggregate.storage.loadProofAt 50 = .ok (some found.bytes) ∧ found.height = 50 := by
  obtain ⟨-, hfound, -⟩ := loadProofAt_found (by decide) threeProofs_savedInEpochs 50
  obtain ⟨found, hload, hheight, -⟩ := hfound 2 (emptyProof 2 1 50) (by decide +kernel) (by decide +kernel)
    (.inl (by decide))
  exact ⟨found, hload, hheight⟩

/-- The proof at the height 75 is stored, and the proof of the second epoch is looked at; a height beyond the storage
is refused. -/
theorem loadProofAt_misses : (¬ ∀ (grouping : Nat) (state : RecordedProofs 10), 0 < grouping →
      SavedInEpochs grouping state → ∀ height e proof, state.accepted e = some proof → proof.height = height →
      ∃ found : ProofEntity, state.aggregate.storage.loadProofAt height = .ok (some found.bytes) ∧
        found.height = height) ∧
    ¬ ∀ (grouping : Nat) (state : RecordedProofs 10), 0 < grouping → SavedInEpochs grouping state → ∀ height,
      (∀ e proof, state.accepted e = some proof → proof.height ≠ height) →
      state.aggregate.storage.loadProofAt height = .ok none := by
  constructor
  · intro h
    obtain ⟨found, hload, -⟩ := h 50 threeProofs (by decide) threeProofs_savedInEpochs 75 3 (emptyProof 3 1 75)
      (by decide +kernel) (by decide +kernel)
    obtain ⟨second, hsecond, hload'⟩ := threeProofs_savedInEpochs.inEpochs.loadProofAt
      (show (75 : UInt64) ≠ 0 by decide) (by decide +kernel)
    have hlook : threeProofs.accepted (lookedUp 50 threeProofs (75 : UInt64).toNat) = some (emptyProof 2 1 50) := by
      decide +kernel
    rw [hlook, Option.some.injEq] at hsecond
    rw [← hsecond, if_pos (by decide +kernel), hload] at hload'
    cases hload'
  · intro h
    have hload := h 50 emptyProofs (by decide) (.empty (by decide)) 1 fun _ _ hsome => (by cases hsome)
    cases hload

end RecordedProofs
end Catapult.Finalization
