import Catapult.Metadata.MetadataValue

/-!
# Metadata payloads of the sdks

The sdks send the exclusive or of what both values have, followed by the tail of the longer one. The client reads the
tail in two ways: what grows is combined with zeros, and what shrinks is compared with the bytes that it has. So the
sdks need no padding, and the payload leads from the old value to the new one.
-/

namespace Catapult.Sdk
open Catapult.Metadata

def payload (oldValue newValue : List UInt8) : List UInt8 :=
  let shorterLength := min oldValue.length newValue.length
  let isNewValueShorter := newValue.length < oldValue.length
  List.zipWith (fun old new => old ^^^ new) oldValue newValue ++
    (if isNewValueShorter then oldValue else newValue).drop shorterLength

def metadataUpdateValue : Option (List UInt8) → List UInt8 → List UInt8
  | none, newValue => newValue
  | some [], newValue => newValue
  | some (old :: oldValue), newValue => payload (old :: oldValue) newValue

section Payload
variable {oldValue newValue : List UInt8} {i : Nat}

theorem payload_nil (newValue : List UInt8) : payload [] newValue = newValue := by
  simp [payload]

theorem metadataUpdateValue_eq (oldValue : Option (List UInt8)) (newValue : List UInt8) :
    metadataUpdateValue oldValue newValue = payload (oldValue.getD []) newValue := by
  rcases oldValue with _ | _ | ⟨old, oldValue⟩
  · exact (payload_nil newValue).symm
  · exact (payload_nil newValue).symm
  · rfl

@[simp] theorem length_payload : (payload oldValue newValue).length = max oldValue.length newValue.length := by
  simp only [payload, List.length_append, List.length_zipWith, List.length_drop]
  split <;> omega

theorem getElem?_payload_of_lt (hold : i < oldValue.length) (hnew : i < newValue.length) :
    (payload oldValue newValue)[i]? = some (oldValue[i] ^^^ newValue[i]) := by
  have hi : i < (List.zipWith (fun old new => old ^^^ new) oldValue newValue).length := by
    rw [List.length_zipWith]
    omega
  rw [payload, List.getElem?_append_left hi, List.getElem?_zipWith, List.getElem?_eq_getElem hold,
    List.getElem?_eq_getElem hnew]

theorem getElem?_payload_tail (hi : oldValue.length ≤ i ∨ newValue.length ≤ i) :
    (payload oldValue newValue)[i]? = (if newValue.length < oldValue.length then oldValue else newValue)[i]? := by
  have hshorter : min oldValue.length newValue.length ≤ i := by omega
  rw [payload, List.getElem?_append_right (by rwa [List.length_zipWith]), List.getElem?_drop, List.length_zipWith,
    Nat.add_sub_cancel' hshorter]

theorem getElem?_payload_old (hnew : newValue.length ≤ i) (hold : i < oldValue.length) :
    (payload oldValue newValue)[i]? = oldValue[i]? := by
  rw [getElem?_payload_tail (.inr hnew), if_pos (Nat.lt_of_le_of_lt hnew hold)]

theorem getElem?_payload_new (hold : oldValue.length ≤ i) (hnew : i < newValue.length) :
    (payload oldValue newValue)[i]? = newValue[i]? := by
  rw [getElem?_payload_tail (.inl hold), if_neg (Nat.not_lt.2 (Nat.le_of_lt (Nat.lt_of_le_of_lt hold hnew)))]

theorem update_payload (oldValue newValue : List UInt8) :
    update oldValue ((payload oldValue newValue).take newValue.length) = newValue := by
  apply List.ext_getElem?
  intro i
  rw [getElem?_update, List.getElem?_take]
  by_cases hnew : i < newValue.length
  · rw [if_pos hnew]
    by_cases hold : i < oldValue.length
    · rw [getElem?_payload_of_lt hold hnew, List.getElem?_eq_getElem hold, List.getElem?_eq_getElem hnew]
      simp [← UInt8.xor_assoc]
    · rw [getElem?_payload_new (Nat.not_lt.1 hold) hnew, List.getElem?_eq_none (Nat.not_lt.1 hold),
        List.getElem?_eq_getElem hnew]
      simp
  · rw [if_neg hnew, List.getElem?_eq_none (Nat.not_lt.1 hnew)]
    rfl

theorem canTrim_payload (hle : newValue.length ≤ oldValue.length) :
    canTrim oldValue (payload oldValue newValue) (oldValue.length - newValue.length) = true := by
  rw [canTrim, if_neg (by rw [length_payload]; omega), List.all_eq_true]
  intro i hi
  rw [List.mem_range'_1, length_payload] at hi
  have hold : i < oldValue.length := by omega
  have hnew : newValue.length ≤ i := by omega
  simp [getElem?_payload_old hnew hold]

end Payload

section Notification
variable {Hash Address UnresolvedAddress : Type} {uniqueKey : MetadataKey Address → Hash}
  {resolvers : Resolvers Address UnresolvedAddress}
  {notification : MetadataValueNotification Address UnresolvedAddress} {entries : Entries Hash Address}
  {oldValue : Option (List UInt8)} {newValue : List UInt8}

structure IsUpdate (notification : MetadataValueNotification Address UnresolvedAddress)
    (oldValue : Option (List UInt8)) (newValue : List UInt8) : Prop where
  value_eq : notification.value = metadataUpdateValue oldValue newValue
  valueSizeDelta_eq : notification.valueSizeDelta.toInt = newValue.length - (oldValue.getD []).length

theorem validateSizes_update (maxValueSize : UInt16) (h : IsUpdate notification oldValue newValue)
    (hne : oldValue.getD [] ≠ [] ∨ newValue ≠ []) (hmax : notification.value.length ≤ maxValueSize.toNat) :
    validateSizes notification maxValueSize = .success := by
  have hlength : notification.value.length = max (oldValue.getD []).length newValue.length := by
    rw [h.value_eq, metadataUpdateValue_eq, length_payload]
  have hdelta := h.valueSizeDelta_eq
  have hpos : 0 < (oldValue.getD []).length ∨ 0 < newValue.length :=
    hne.imp List.length_pos_iff.2 List.length_pos_iff.2
  rw [validateSizes, if_neg (by omega), if_neg (by omega), if_neg (by omega)]

theorem validateValue_update (h : IsUpdate notification oldValue newValue)
    (hold : (entries (uniqueKey (notification.metadataKey resolvers))).map MetadataEntry.value = oldValue) :
    validateValue uniqueKey resolvers notification entries = .success := by
  have hlt := notification.valueSize_lt
  have hdelta := h.valueSizeDelta_eq
  have hvalue := h.value_eq
  rw [metadataUpdateValue_eq] at hvalue
  have hlength : notification.value.length = max (oldValue.getD []).length newValue.length := by
    rw [hvalue, length_payload]
  rw [validateValue]
  cases hentry : entries (uniqueKey (notification.metadataKey resolvers)) with
  | none =>
    rw [hentry] at hold
    subst hold
    simp only [Option.map_none, Option.getD_none, List.length_nil] at hdelta hlength
    exact if_pos (by omega)
  | some metadataEntry =>
    rw [hentry] at hold
    subst hold
    simp only [Option.map_some, Option.getD_some] at hdelta hlength hvalue
    have hexpected : expectedCacheValueSize notification = metadataEntry.value.length := by
      rw [expectedCacheValueSize]
      split <;> omega
    simp only [hexpected, ne_eq, not_true_eq_false, if_false]
    split
    · rfl
    · case isFalse hneg =>
      have hcount : ((-notification.valueSizeDelta.toInt) % 2 ^ 16).toNat =
          metadataEntry.value.length - newValue.length := by omega
      rw [hcount, hvalue, canTrim_payload (by omega), if_pos rfl]

theorem observeMetadataValue_update [DecidableEq Hash] (h : IsUpdate notification oldValue newValue)
    (hold : (entries (uniqueKey (notification.metadataKey resolvers))).map MetadataEntry.value = oldValue)
    (hne : oldValue.getD [] ≠ [] ∨ newValue ≠ []) :
    observeMetadataValue uniqueKey resolvers notification .commit entries =
      Function.update entries (uniqueKey (notification.metadataKey resolvers)) (if newValue = [] then none else
        some ⟨(entries (uniqueKey (notification.metadataKey resolvers))).elim (notification.metadataKey resolvers)
          MetadataEntry.key, newValue⟩) := by
  have haccepted := accepted_of_validate (validateSizes_update 0xFFFF h hne
    (Nat.le_of_lt_succ notification.valueSize_lt)) (validateValue_update h hold)
  have hdelta := h.valueSizeDelta_eq
  have hsize : effectiveSize notification .commit = newValue.length := by
    have hcommit := haccepted.effectiveSize_commit
    have hgetD : Metadata.oldValue entries (uniqueKey (notification.metadataKey resolvers)) = oldValue.getD [] := by
      rw [← hold, Metadata.oldValue]
      cases entries (uniqueKey (notification.metadataKey resolvers)) <;> rfl
    rw [hgetD] at hcommit
    omega
  have hbuffer : (notification.value.take newValue.length).length = newValue.length := by
    rw [List.length_take, h.value_eq, metadataUpdateValue_eq, length_payload]
    omega
  rw [observeMetadataValue, updateCache, hsize]
  congr 1
  cases hentry : entries (uniqueKey (notification.metadataKey resolvers)) with
  | none =>
    rw [hentry] at hold
    subst hold
    have hnew : newValue ≠ [] := hne.resolve_left fun hnil => hnil rfl
    simp only [h.value_eq, metadataUpdateValue_eq, Option.map_none, Option.getD_none, update_payload, if_neg hnew]
    rfl
  | some metadataEntry =>
    rw [hentry] at hold
    subst hold
    simp only [hbuffer, List.length_eq_zero_iff]
    simp only [h.value_eq, metadataUpdateValue_eq, Option.map_some, Option.getD_some, update_payload]
    rfl

/-- What the sdks send is accepted on a cache with the old value and leaves the new one. -/
theorem metadataUpdateValue_observed [DecidableEq Hash] (h : IsUpdate notification oldValue newValue)
    (hold : (entries (uniqueKey (notification.metadataKey resolvers))).map MetadataEntry.value = oldValue)
    (hne : oldValue.getD [] ≠ [] ∨ newValue ≠ []) :
    validateValue uniqueKey resolvers notification entries = .success ∧
    (observeMetadataValue uniqueKey resolvers notification .commit entries
      (uniqueKey (notification.metadataKey resolvers))).map MetadataEntry.value =
        (if newValue = [] then none else some newValue) ∧
    ∀ hash ≠ uniqueKey (notification.metadataKey resolvers),
      observeMetadataValue uniqueKey resolvers notification .commit entries hash = entries hash := by
  refine ⟨validateValue_update h hold, ?_, fun hash hhash => ?_⟩
  · rw [observeMetadataValue_update h hold hne, Function.update_self]
    split <;> rfl
  · rw [observeMetadataValue_update h hold hne, Function.update_of_ne hhash]

end Notification

theorem metadataUpdateValue_sample :
    validateValue id ⟨id, id⟩ sampleNotification sampleCache.entries = .success ∧
    (observeMetadataValue id ⟨id, id⟩ sampleNotification .commit sampleCache.entries sampleKey).map
      MetadataEntry.value = some [7] := by
  have hobserved := @metadataUpdateValue_observed _ _ _ id ⟨id, id⟩ sampleNotification sampleCache.entries
    (some [1, 2, 3]) [7] _ ⟨by decide, by decide⟩ (by decide) (.inl (by decide))
  exact ⟨hobserved.1, hobserved.2.1⟩

end Catapult.Sdk
