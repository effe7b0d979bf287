import Catapult.Lib.Fuel
import Catapult.Tree.Serializer

/-!
# Paths in bytes (`TreeNodePath`)

A path is a part of the nibbles of a vector of bytes, which starts at the first or at the second nibble. A part of a
path copies the bytes with its nibbles, and a join puts the nibbles of both paths into new bytes, one at a time. So a
path stands for a list of nibbles (`Packs`), and its operations are the ones of lists. The loop of a join counts
with 32 bits and does not come to the end of a longer path.
-/

namespace Catapult.Tree

inductive PathError where
  /-- An access outside of the bytes. -/
  | outOfRange
  deriving DecidableEq

/-- `TreeNodePath`. -/
structure PackedPath where
  size : Nat := 0
  adjustment : Nat := 0
  path : List UInt8 := []

/-- What `Join` puts together. -/
structure JoinBuilder where
  index : Nat
  path : List UInt8

namespace JoinBuilder

/-- The bytes are zero. -/
def ofSize (size : Nat) : JoinBuilder := ⟨0, List.replicate size 0⟩

def addNibble (nibble : UInt8) (builder : JoinBuilder) : Except PathError JoinBuilder :=
  match builder.path[builder.index / 2]? with
  | none => throw .outOfRange
  | some byte =>
    return ⟨builder.index + 1, builder.path.set (builder.index / 2)
      (byte ||| if builder.index % 2 ≠ 0 then nibble &&& 0x0F else nibble <<< 4)⟩

end JoinBuilder

namespace PackedPath

/-- The bytes of a key; those of a scalar are in big endian order. -/
def ofKey (key : List UInt8) : PackedPath := ⟨2 * key.length, 0, key⟩

def calculateByteSize (offset size : Nat) : Nat := size / 2 + if offset % 2 = 0 ∧ size % 2 = 0 then 0 else 1

/-- The constructor that copies a part of the bytes. -/
def ofPart (path : List UInt8) (offset size : Nat) : Except PathError PackedPath :=
  let byteSize := calculateByteSize offset size
  if size = 0 then return ⟨0, offset % 2, List.replicate byteSize 0⟩
  else if path.length < offset / 2 + byteSize then throw .outOfRange
  else return ⟨size, offset % 2, (path.drop (offset / 2)).take byteSize⟩

def nibbleAt (p : PackedPath) (index : Nat) : Except PathError UInt8 :=
  match p.path[(index + p.adjustment) / 2]? with
  | none => throw .outOfRange
  | some byte => return if (index + p.adjustment) % 2 = 0 then (byte &&& 0xF0) >>> 4 else byte &&& 0x0F

def subpathOfSize (p : PackedPath) (offset size : Nat) : Except PathError PackedPath :=
  ofPart p.path (offset + p.adjustment) size

/-- The size that is left is not negative. -/
def subpath (p : PackedPath) (offset : Nat) : Except PathError PackedPath :=
  if p.size < offset then throw .outOfRange else p.subpathOfSize offset (p.size - offset)

/-- The loop from `index` on, with at most `left` iterations. -/
def differenceFrom (lhs rhs : PackedPath) : (left : Nat) → (index : Nat) → Except PathError Nat
  | 0, index => return index
  | left + 1, index => do
    if (← lhs.nibbleAt index) = (← rhs.nibbleAt index) then differenceFrom lhs rhs left (index + 1) else return index

def findFirstDifferenceIndex (lhs rhs : PackedPath) : Except PathError Nat :=
  differenceFrom lhs rhs (min lhs.size rhs.size) 0

/-- `operator==`. -/
def equals (lhs rhs : PackedPath) : Except PathError Bool :=
  if lhs.size = rhs.size then do return lhs.size = (← findFirstDifferenceIndex lhs rhs) else return false

def addNibbles (fuel : Nat) (p : PackedPath) (builder : JoinBuilder) : ExceptT PathError Option JoinBuilder :=
  indexLoop (fun builder index => do builder.addNibble (← p.nibbleAt index)) (List.range p.size) fuel 0 builder

/-- `Join` of two paths. -/
def join (fuel : Nat) (lhs rhs : PackedPath) : ExceptT PathError Option PackedPath := do
  let joinedPathSize := lhs.size + rhs.size
  let builder ← lhs.addNibbles fuel (.ofSize ((joinedPathSize + 1) / 2))
  let builder ← rhs.addNibbles fuel builder
  ExceptT.mk (some (ofPart builder.path 0 joinedPathSize))

/-- `Join` with a nibble between the paths. -/
def joinNibble (fuel : Nat) (lhs : PackedPath) (nibble : UInt8) (rhs : PackedPath) :
    ExceptT PathError Option PackedPath := do
  let joinedPathSize := lhs.size + 1 + rhs.size
  let builder ← lhs.addNibbles fuel (.ofSize ((joinedPathSize + 1) / 2))
  let builder ← ExceptT.mk (some (builder.addNibble nibble))
  let builder ← rhs.addNibbles fuel builder
  ExceptT.mk (some (ofPart builder.path 0 joinedPathSize))

end PackedPath

section Bytes
variable {bytes : List UInt8} {byte : UInt8} {i k : Nat}

def highNibble (byte : UInt8) : Nibble := ⟨byte.toNat / 16, highNibble_lt byte⟩

def lowNibble (byte : UInt8) : Nibble := ⟨byte.toNat % 16, lowNibble_lt byte⟩

theorem forall_byte {p : UInt8 → Prop} (h : ∀ high low : Nibble, p (UInt8.ofNat (16 * high.val + low.val)))
    (byte : UInt8) : p byte := by
  have hbyte := h (highNibble byte) (lowNibble byte)
  have hvalue : 16 * (highNibble byte).val + (lowNibble byte).val = byte.toNat := Nat.div_add_mod byte.toNat 16
  rwa [hvalue, UInt8.ofNat_toNat] at hbyte

theorem high_eq : ∀ byte : UInt8, (byte &&& 0xF0) >>> 4 = UInt8.ofNat (highNibble byte) := forall_byte (by decide)

theorem low_eq : ∀ byte : UInt8, byte &&& 0x0F = UInt8.ofNat (lowNibble byte) := forall_byte (by decide)

theorem lowNibble_ofNat : ∀ nibble : Nibble, lowNibble (UInt8.ofNat nibble) = nibble := by decide

theorem shift_eq : ∀ byte : UInt8, byte <<< 4 = UInt8.ofNat (16 * (lowNibble byte).val) := forall_byte (by decide)

theorem nibbles_or_high : ∀ low high : Nibble,
    highNibble (UInt8.ofNat low ||| UInt8.ofNat (16 * high.val)) = high ∧
      lowNibble (UInt8.ofNat low ||| UInt8.ofNat (16 * high.val)) = low := by decide

theorem nibbles_or_low : ∀ high low : Nibble,
    highNibble (UInt8.ofNat (16 * high.val) ||| UInt8.ofNat low) = high ∧
      lowNibble (UInt8.ofNat (16 * high.val) ||| UInt8.ofNat low) = low := by decide

theorem eq_of_high_zero : ∀ byte : UInt8, highNibble byte = 0 → byte = UInt8.ofNat (lowNibble byte) :=
  forall_byte (by decide)

theorem eq_of_low_zero : ∀ byte : UInt8, lowNibble byte = 0 → byte = UInt8.ofNat (16 * (highNibble byte).val) :=
  forall_byte (by decide)

theorem nibbles_low {byte : UInt8} (h : lowNibble byte = 0) (nibble : UInt8) :
    highNibble (byte ||| (nibble &&& 0x0F)) = highNibble byte ∧
      lowNibble (byte ||| (nibble &&& 0x0F)) = lowNibble nibble := by
  have hor := nibbles_or_low (highNibble byte) (lowNibble nibble)
  rwa [← eq_of_low_zero byte h, ← low_eq] at hor

theorem nibbles_high {byte : UInt8} (h : highNibble byte = 0) (nibble : UInt8) :
    highNibble (byte ||| nibble <<< 4) = lowNibble nibble ∧ lowNibble (byte ||| nibble <<< 4) = lowNibble byte := by
  have hor := nibbles_or_high (lowNibble byte) (lowNibble nibble)
  rwa [← eq_of_high_zero byte h, ← shift_eq] at hor

theorem treeNodePath_cons' (byte : UInt8) (bytes : List UInt8) :
    treeNodePath (byte :: bytes) = highNibble byte :: lowNibble byte :: treeNodePath bytes :=
  treeNodePath_cons byte bytes

theorem getElem?_treeNodePath (bytes : List UInt8) (k : Nat) : (treeNodePath bytes)[k]? =
    bytes[k / 2]?.map fun byte => if k % 2 = 0 then highNibble byte else lowNibble byte := by
  induction bytes generalizing k with
  | nil => rfl
  | cons byte bytes ih =>
    rw [treeNodePath_cons']
    match k with
    | 0 => rfl
    | 1 => rfl
    | k + 2 =>
      rw [List.getElem?_cons_succ, List.getElem?_cons_succ, ih, Nat.add_div_right k (by decide), Nat.add_mod_right,
        List.getElem?_cons_succ]

theorem treeNodePath_set (h : i < bytes.length) : treeNodePath (bytes.set i byte) =
    ((treeNodePath bytes).set (2 * i) (highNibble byte)).set (2 * i + 1) (lowNibble byte) := by
  induction bytes generalizing i with
  | nil => cases h
  | cons first bytes ih =>
    cases i with
    | zero => rfl
    | succ i =>
      rw [List.set_cons_succ, treeNodePath_cons', ih (Nat.lt_of_succ_lt_succ h), treeNodePath_cons',
        Nat.mul_succ]
      rfl

theorem set_of_getElem? {α : Type} {l : List α} {a : α} (h : l[i]? = some a) : l.set i a = l := by
  obtain ⟨hlt, rfl⟩ := List.getElem?_eq_some_iff.1 h
  exact List.set_getElem_self hlt

theorem treeNodePath_set_or (hbyte : bytes[k / 2]? = some byte) (hzero : (treeNodePath bytes)[k]? = some 0)
    (nibble : UInt8) :
    treeNodePath (bytes.set (k / 2) (byte ||| if k % 2 ≠ 0 then nibble &&& 0x0F else nibble <<< 4)) =
      (treeNodePath bytes).set k (lowNibble nibble) := by
  obtain ⟨hlt, -⟩ := List.getElem?_eq_some_iff.1 hbyte
  rw [getElem?_treeNodePath, hbyte, Option.map_some, Option.some_inj] at hzero
  rw [treeNodePath_set hlt]
  by_cases hodd : k % 2 ≠ 0
  · rw [if_neg hodd] at hzero
    obtain ⟨hhigh, hlow⟩ := nibbles_low hzero nibble
    have hindex : 2 * (k / 2) + 1 = k := by omega
    have hother : (treeNodePath bytes).set (2 * (k / 2)) (highNibble byte) = treeNodePath bytes := by
      refine set_of_getElem? ?_
      rw [getElem?_treeNodePath, Nat.mul_div_cancel_left _ (by decide), hbyte, Nat.mul_mod_right]
      rfl
    rw [if_pos hodd, hhigh, hlow, hother, hindex]
  · rw [if_pos (not_not.1 hodd)] at hzero
    obtain ⟨hhigh, hlow⟩ := nibbles_high hzero nibble
    have hindex : 2 * (k / 2) = k := by omega
    have hother : (treeNodePath bytes).set (2 * (k / 2) + 1) (lowNibble byte) = treeNodePath bytes := by
      refine set_of_getElem? ?_
      rw [getElem?_treeNodePath, show (2 * (k / 2) + 1) / 2 = k / 2 by omega, hbyte,
        show (2 * (k / 2) + 1) % 2 = 1 by omega]
      rfl
    rw [if_neg hodd, hhigh, hlow, List.set_comm _ _ (by omega), hother, hindex]

theorem treeNodePath_drop (bytes : List UInt8) (i : Nat) :
    treeNodePath (bytes.drop i) = (treeNodePath bytes).drop (2 * i) := by
  induction i generalizing bytes with
  | zero => rfl
  | succ i ih =>
    cases bytes with
    | nil => rfl
    | cons byte bytes =>
      rw [List.drop_succ_cons, ih, treeNodePath_cons', Nat.mul_succ]
      rfl

theorem treeNodePath_take (bytes : List UInt8) (i : Nat) :
    treeNodePath (bytes.take i) = (treeNodePath bytes).take (2 * i) := by
  induction i generalizing bytes with
  | zero => rfl
  | succ i ih =>
    cases bytes with
    | nil => rfl
    | cons byte bytes =>
      rw [List.take_succ_cons, treeNodePath_cons', ih, treeNodePath_cons', Nat.mul_succ]
      rfl

theorem treeNodePath_replicate (n : Nat) : treeNodePath (List.replicate n 0) = List.replicate (2 * n) 0 := by
  induction n with
  | zero => rfl
  | succ n ih =>
    rw [List.replicate_succ, treeNodePath_cons', ih]
    rfl

end Bytes

structure Packs (p : PackedPath) (l : TreeNodePath) : Prop where
  size_eq : p.size = l.length
  length_le : p.adjustment + l.length ≤ 2 * p.path.length
  nibbles_eq : ((treeNodePath p.path).drop p.adjustment).take l.length = l

section Packs
variable {p q lhs rhs : PackedPath} {l r : TreeNodePath} {path : List UInt8} {offset size index : Nat}

theorem packs_ofKey (key : List UInt8) : Packs (.ofKey key) (treeNodePath key) := by
  refine ⟨(length_treeNodePath key).symm, ?_, ?_⟩
  · rw [length_treeNodePath]
    exact Nat.le_of_eq (Nat.zero_add _)
  · rw [PackedPath.ofKey, List.drop_zero, List.take_length]

theorem Packs.nibbleAt_eq (h : Packs p l) (hindex : index < l.length) :
    p.nibbleAt index = .ok (UInt8.ofNat l[index]) := by
  have hget : (treeNodePath p.path)[index + p.adjustment]? = some l[index] := by
    have hnibbles := congrArg (fun nibbles : TreeNodePath => nibbles[index]?) h.nibbles_eq
    simp only [List.getElem?_take_of_lt hindex, List.getElem?_drop, List.getElem?_eq_getElem hindex] at hnibbles
    rwa [Nat.add_comm]
  rw [getElem?_treeNodePath, Option.map_eq_some_iff] at hget
  obtain ⟨byte, hbyte, hnibble⟩ := hget
  rw [PackedPath.nibbleAt, hbyte, ← hnibble]
  simp only [high_eq, low_eq]
  split <;> rfl

theorem ofPart_spec (h : offset + size ≤ 2 * path.length) :
    ∃ p, PackedPath.ofPart path offset size = .ok p ∧
      Packs p (((treeNodePath path).drop offset).take size) := by
  have hlength : (((treeNodePath path).drop offset).take size).length = size := by
    rw [List.length_take, List.length_drop, length_treeNodePath]
    omega
  have hbytes : offset % 2 + size ≤ 2 * PackedPath.calculateByteSize offset size ∧
      (size ≠ 0 → offset / 2 + PackedPath.calculateByteSize offset size ≤ path.length) := by
    rw [PackedPath.calculateByteSize]
    split <;> omega
  rw [PackedPath.ofPart]
  by_cases hzero : size = 0
  · subst hzero
    refine ⟨_, if_pos rfl, rfl, ?_, rfl⟩
    rw [List.length_replicate]
    exact hbytes.1
  · refine ⟨_, (if_neg hzero).trans (if_neg (Nat.not_lt.2 (hbytes.2 hzero))), hlength.symm, ?_, ?_⟩
    · have hle := hbytes.2 hzero
      rw [hlength, List.length_take, List.length_drop, Nat.min_eq_left (by omega)]
      exact hbytes.1
    simp only [hlength, treeNodePath_take, treeNodePath_drop, List.drop_take, List.drop_drop, List.take_take]
    rw [Nat.div_add_mod, Nat.min_eq_left (by omega)]

theorem Packs.subpathOfSize_spec (h : Packs p l) (hrange : offset + size ≤ l.length) :
    ∃ q, p.subpathOfSize offset size = .ok q ∧ Packs q ((l.drop offset).take size) := by
  have hlength := h.length_le
  obtain ⟨q, hq, hpacks⟩ := @ofPart_spec p.path (offset + p.adjustment) size (by omega)
  refine ⟨q, hq, ?_⟩
  have hpart : (l.drop offset).take size = ((treeNodePath p.path).drop (offset + p.adjustment)).take size := by
    conv_lhs => rw [← h.nibbles_eq]
    rw [List.drop_take, List.drop_drop, List.take_take, Nat.min_eq_left (by omega), Nat.add_comm]
  rwa [hpart]

theorem Packs.subpath_spec (h : Packs p l) (hrange : offset ≤ l.length) :
    ∃ q, p.subpath offset = .ok q ∧ Packs q (l.drop offset) := by
  have hsize := h.size_eq
  obtain ⟨q, hq, hpacks⟩ := h.subpathOfSize_spec (show offset + (p.size - offset) ≤ l.length by omega)
  refine ⟨q, ?_, ?_⟩
  · rw [PackedPath.subpath, if_neg (by omega), hq]
  · rwa [List.take_of_length_le (by rw [List.length_drop]; omega)] at hpacks

theorem nibble_inj {a b : Nibble} : UInt8.ofNat a = UInt8.ofNat b ↔ a = b := by
  revert a b
  decide

theorem Packs.differenceFrom_spec (hl : Packs lhs l) (hr : Packs rhs r) {left : Nat}
    (hleft : index + left = min l.length r.length) : lhs.differenceFrom rhs left index =
      .ok (index + findFirstDifferenceIndex (l.drop index) (r.drop index)) := by
  induction left generalizing index with
  | zero =>
    -- one of the two is at its end
    have hzero : findFirstDifferenceIndex (l.drop index) (r.drop index) = 0 := by
      rcases Nat.le_total l.length r.length with hle | hle
      · rw [List.drop_eq_nil_of_le (show l.length ≤ index by omega)]
        rfl
      · rw [List.drop_eq_nil_of_le (show r.length ≤ index by omega)]
        cases l.drop index <;> rfl
    rw [PackedPath.differenceFrom, hzero]
    rfl
  | succ left ih =>
    have hindexL : index < l.length := by omega
    have hindexR : index < r.length := by omega
    rw [PackedPath.differenceFrom, hl.nibbleAt_eq hindexL, hr.nibbleAt_eq hindexR, List.drop_eq_getElem_cons hindexL,
      List.drop_eq_getElem_cons hindexR, findFirstDifferenceIndex]
    by_cases heq : l[index] = r[index]
    · have hrest := @ih (index + 1) (by omega)
      rw [Nat.add_assoc, Nat.add_comm 1] at hrest
      rw [if_pos heq, ← hrest]
      exact if_pos (nibble_inj.2 heq)
    · rw [if_neg heq]
      exact if_neg (mt nibble_inj.1 heq)

theorem Packs.findFirstDifferenceIndex_spec (hl : Packs lhs l) (hr : Packs rhs r) :
    lhs.findFirstDifferenceIndex rhs = .ok (findFirstDifferenceIndex l r) := by
  rw [PackedPath.findFirstDifferenceIndex, hl.size_eq, hr.size_eq, hl.differenceFrom_spec hr (Nat.zero_add _),
    Nat.zero_add]
  rfl

theorem findFirstDifferenceIndex_eq_length_iff (hlength : l.length = r.length) :
    findFirstDifferenceIndex l r = l.length ↔ l = r := by
  induction l generalizing r with
  | nil => simp [findFirstDifferenceIndex, List.length_eq_zero_iff.1 hlength.symm]
  | cons a l ih =>
    cases r with
    | nil => cases hlength
    | cons b r =>
      rw [findFirstDifferenceIndex]
      by_cases heq : a = b
      · rw [if_pos heq, List.length_cons, Nat.add_right_cancel_iff, ih (Nat.succ.inj hlength), heq, List.cons_inj_right]
      · rw [if_neg heq]
        exact ⟨fun hzero => absurd hzero.symm (Nat.succ_ne_zero _), fun hcons => absurd (List.cons.inj hcons).1 heq⟩

theorem Packs.equals_spec (hl : Packs lhs l) (hr : Packs rhs r) :
    lhs.equals rhs = .ok (decide (l = r)) := by
  rw [PackedPath.equals, hl.findFirstDifferenceIndex_spec hr, hl.size_eq, hr.size_eq]
  by_cases hlength : l.length = r.length
  · rw [if_pos hlength]
    refine congrArg Except.ok (decide_eq_decide.2 ?_)
    rw [eq_comm, findFirstDifferenceIndex_eq_length_iff hlength]
  · rw [if_neg hlength, decide_eq_false fun heq => hlength (congrArg List.length heq)]
    rfl

end Packs

/-- The nibbles that were added, and room for others. -/
structure Building (added : TreeNodePath) (room : Nat) (builder : JoinBuilder) : Prop where
  index_eq : builder.index = added.length
  nibbles_eq : treeNodePath builder.path = added ++ List.replicate room 0

section Joined
variable {p q lhs rhs : PackedPath} {l r added : TreeNodePath} {builder builder' : JoinBuilder} {room fuel : Nat}

theorem building_ofSize (size : Nat) : Building [] (2 * size) (.ofSize size) := ⟨rfl, treeNodePath_replicate size⟩

theorem Building.addNibble_spec (h : Building added (room + 1) builder) (nibble : UInt8) :
    ∃ builder', builder.addNibble nibble = .ok builder' ∧ Building (added ++ [lowNibble nibble]) room builder' := by
  have hget : (treeNodePath builder.path)[builder.index]? = some 0 := by
    rw [h.nibbles_eq, h.index_eq, List.getElem?_append_right (Nat.le_refl _), Nat.sub_self, List.replicate_succ]
    rfl
  have hzero := hget
  rw [getElem?_treeNodePath, Option.map_eq_some_iff] at hget
  obtain ⟨byte, hbyte, -⟩ := hget
  have hset : (treeNodePath builder.path).set builder.index (lowNibble nibble) =
      (added ++ [lowNibble nibble]) ++ List.replicate room 0 := by
    rw [h.nibbles_eq, h.index_eq, List.set_append_right _ _ (Nat.le_refl _), Nat.sub_self, List.replicate_succ,
      List.set_cons_zero, List.append_assoc]
    rfl
  rw [JoinBuilder.addNibble, hbyte]
  refine ⟨_, rfl, by rw [h.index_eq, List.length_append]; rfl, ?_⟩
  rw [← hset]
  exact treeNodePath_set_or hbyte hzero nibble

theorem foldlM_addNibble (hp : Packs p l) {pre rest : TreeNodePath} (hl : l = pre ++ rest)
    (h : Building added (rest.length + room) builder) :
    ∃ builder', (List.range' pre.length rest.length).foldlM
      (fun builder index => do builder.addNibble (← p.nibbleAt index)) builder = .ok builder' ∧
      Building (added ++ rest) room builder' := by
  induction rest generalizing pre added builder with
  | nil => exact ⟨builder, rfl, by rwa [List.append_nil, ← Nat.zero_add room]⟩
  | cons nibble rest ih =>
    rw [List.length_cons, Nat.add_right_comm] at h
    obtain ⟨next, hnext, hbuilding⟩ := h.addNibble_spec (UInt8.ofNat nibble)
    rw [lowNibble_ofNat] at hbuilding
    obtain ⟨builder', hrest, hbuilding'⟩ :=
      @ih (added ++ [nibble]) next (pre ++ [nibble]) (by rw [hl, List.append_assoc]; rfl) hbuilding
    have hget : p.nibbleAt pre.length = .ok (UInt8.ofNat nibble) := by
      rw [hp.nibbleAt_eq (by rw [hl, List.length_append, List.length_cons]; omega)]
      simp [hl]
    rw [List.length_append] at hrest
    refine ⟨builder', ?_, by rwa [List.append_assoc] at hbuilding'⟩
    rw [List.length_cons, List.range'_succ, List.foldlM_cons, hget]
    exact (congrArg (· >>= fun builder => List.foldlM _ builder _) hnext).trans hrest

theorem ends_addNibbles (hp : Packs p l) (hlength : l.length < 2 ^ 32)
    (h : Building added (l.length + room) builder) :
    ∃ builder', Ends (fun fuel => (p.addNibbles fuel builder).run) (.ok builder') ∧
      Building (added ++ l) room builder' := by
  obtain ⟨builder', hfold, hbuilding⟩ := foldlM_addNibble hp (List.nil_append l).symm h
  refine ⟨builder', ⟨p.size + 1, fun fuel hfuel => ?_⟩, hbuilding⟩
  have hsize := hp.size_eq
  refine congrArg ExceptT.run (indexLoop_ends ?_ ?_ ?_)
  · rwa [List.length_range, hsize]
  · rw [List.range_eq_range', hsize]
    exact hfold
  · rw [List.length_range]
    exact hfuel

theorem lt_of_addNibbles_eq_ok (h : (p.addNibbles fuel builder).run = some (.ok builder')) : p.size < 2 ^ 32 := by
  by_contra hge
  refine run_indexLoop_ne_ok ?_ fuel 0 builder builder' h
  rw [List.length_range]
  exact Nat.not_lt.1 hge

theorem Building.ofPart_spec (h : Building l room builder) :
    ∃ p, PackedPath.ofPart builder.path 0 l.length = .ok p ∧ Packs p l := by
  have hlength := congrArg List.length h.nibbles_eq
  rw [length_treeNodePath, List.length_append] at hlength
  obtain ⟨p, hp, hpacks⟩ := @Catapult.Tree.ofPart_spec builder.path 0 l.length (by omega)
  refine ⟨p, hp, ?_⟩
  rwa [List.drop_zero, h.nibbles_eq, List.take_left] at hpacks

theorem ends_join (hl : Packs lhs l) (hr : Packs rhs r) (hlengthL : l.length < 2 ^ 32) (hlengthR : r.length < 2 ^ 32) :
    ∃ p, Ends (fun fuel => (lhs.join fuel rhs).run) (.ok p) ∧ Packs p (l ++ r) := by
  have hsize : lhs.size + rhs.size = (l ++ r).length := by rw [hl.size_eq, hr.size_eq, List.length_append]
  obtain ⟨room, hroom⟩ : ∃ room, 2 * ((lhs.size + rhs.size + 1) / 2) = l.length + (r.length + room) :=
    ⟨2 * ((lhs.size + rhs.size + 1) / 2) - (l.length + r.length), by rw [hl.size_eq, hr.size_eq]; omega⟩
  obtain ⟨first, hfirst, hbuilding⟩ := ends_addNibbles hl hlengthL (hroom ▸ building_ofSize _)
  obtain ⟨second, hsecond, hbuilding⟩ := ends_addNibbles hr hlengthR hbuilding
  obtain ⟨p, hp, hpacks⟩ := hbuilding.ofPart_spec
  refine ⟨p, hfirst.exceptBind (hsecond.exceptBind (.of_forall fun _ => ?_)), hpacks⟩
  rw [hsize]
  exact congrArg some hp

theorem ends_joinNibble (hl : Packs lhs l) (nibble : UInt8) (hr : Packs rhs r) (hlengthL : l.length < 2 ^ 32)
    (hlengthR : r.length < 2 ^ 32) : ∃ p, Ends (fun fuel => (lhs.joinNibble fuel nibble rhs).run) (.ok p) ∧
      Packs p (l ++ [lowNibble nibble] ++ r) := by
  have hsize : lhs.size + 1 + rhs.size = (l ++ [lowNibble nibble] ++ r).length := by
    rw [hl.size_eq, hr.size_eq, List.length_append, List.length_append]
    rfl
  obtain ⟨room, hroom⟩ : ∃ room, 2 * ((lhs.size + 1 + rhs.size + 1) / 2) = l.length + ((r.length + room) + 1) :=
    ⟨2 * ((lhs.size + 1 + rhs.size + 1) / 2) - (l.length + r.length + 1), by rw [hl.size_eq, hr.size_eq]; omega⟩
  obtain ⟨first, hfirst, hbuilding⟩ := ends_addNibbles hl hlengthL (hroom ▸ building_ofSize _)
  obtain ⟨second, hsecond, hbuilding⟩ := hbuilding.addNibble_spec nibble
  obtain ⟨third, hthird, hbuilding⟩ := ends_addNibbles hr hlengthR hbuilding
  obtain ⟨p, hp, hpacks⟩ := hbuilding.ofPart_spec
  have hmiddle : Ends (fun _ => (ExceptT.mk (some (first.addNibble nibble)) : ExceptT PathError Option _).run)
      (.ok second) := .of_forall fun _ => congrArg some hsecond
  refine ⟨p, hfirst.exceptBind (hmiddle.exceptBind (hthird.exceptBind (.of_forall fun _ => ?_))), hpacks⟩
  rw [hsize]
  exact congrArg some hp

theorem lt_of_join_eq_ok (h : (lhs.join fuel rhs).run = some (.ok p)) : lhs.size < 2 ^ 32 ∧ rhs.size < 2 ^ 32 := by
  obtain ⟨first, hfirst, h⟩ := exists_of_exceptBind_eq_ok h
  obtain ⟨second, hsecond, -⟩ := exists_of_exceptBind_eq_ok h
  exact ⟨lt_of_addNibbles_eq_ok hfirst, lt_of_addNibbles_eq_ok hsecond⟩

theorem lt_of_joinNibble_eq_ok {nibble : UInt8} (h : (lhs.joinNibble fuel nibble rhs).run = some (.ok p)) :
    lhs.size < 2 ^ 32 ∧ rhs.size < 2 ^ 32 := by
  obtain ⟨first, hfirst, h⟩ := exists_of_exceptBind_eq_ok h
  obtain ⟨second, -, h⟩ := exists_of_exceptBind_eq_ok h
  obtain ⟨third, hthird, -⟩ := exists_of_exceptBind_eq_ok h
  exact ⟨lt_of_addNibbles_eq_ok hfirst, lt_of_addNibbles_eq_ok hthird⟩

end Joined

inductive PathExpression where
  | key (bytes : List UInt8)
  | subpath (path : PathExpression) (offset : Nat)
  | subpathOfSize (path : PathExpression) (offset size : Nat)
  | join (lhs rhs : PathExpression)
  | joinNibble (lhs : PathExpression) (nibble : UInt8) (rhs : PathExpression)

namespace PathExpression

def evaluate (fuel : Nat) : PathExpression → ExceptT PathError Option PackedPath
  | key bytes => return .ofKey bytes
  | subpath path offset => do ExceptT.mk (some ((← path.evaluate fuel).subpath offset))
  | subpathOfSize path offset size => do ExceptT.mk (some ((← path.evaluate fuel).subpathOfSize offset size))
  | join lhs rhs => do (← lhs.evaluate fuel).join fuel (← rhs.evaluate fuel)
  | joinNibble lhs nibble rhs => do (← lhs.evaluate fuel).joinNibble fuel nibble (← rhs.evaluate fuel)

def nibbles : PathExpression → TreeNodePath
  | key bytes => treeNodePath bytes
  | subpath path offset => path.nibbles.drop offset
  | subpathOfSize path offset size => (path.nibbles.drop offset).take size
  | join lhs rhs => lhs.nibbles ++ rhs.nibbles
  | joinNibble lhs nibble rhs => lhs.nibbles ++ [lowNibble nibble] ++ rhs.nibbles

/-- Offsets and sizes are in the range of the paths. -/
def InRange : PathExpression → Prop
  | key _ => True
  | subpath path offset => path.InRange ∧ offset ≤ path.nibbles.length
  | subpathOfSize path offset size => path.InRange ∧ offset + size ≤ path.nibbles.length
  | join lhs rhs => lhs.InRange ∧ rhs.InRange
  | joinNibble lhs _ rhs => lhs.InRange ∧ rhs.InRange

/-- The paths that are joined are shorter than what the loops count to. -/
def JoinsShort : PathExpression → Prop
  | key _ => True
  | subpath path _ => path.JoinsShort
  | subpathOfSize path _ _ => path.JoinsShort
  | join lhs rhs => (lhs.JoinsShort ∧ rhs.JoinsShort) ∧ lhs.nibbles.length < 2 ^ 32 ∧ rhs.nibbles.length < 2 ^ 32
  | joinNibble lhs _ rhs =>
    (lhs.JoinsShort ∧ rhs.JoinsShort) ∧ lhs.nibbles.length < 2 ^ 32 ∧ rhs.nibbles.length < 2 ^ 32

variable {expression lhs rhs : PathExpression}

theorem exists_ends (hrange : expression.InRange) (hshort : expression.JoinsShort) :
    ∃ p, Ends (fun fuel => (expression.evaluate fuel).run) (.ok p) ∧ Packs p expression.nibbles := by
  induction expression with
  | key bytes => exact ⟨.ofKey bytes, .of_forall fun _ => rfl, packs_ofKey bytes⟩
  | subpath path offset ih =>
    obtain ⟨p, hends, hp⟩ := ih hrange.1 hshort
    obtain ⟨q, hq, hpacks⟩ := hp.subpath_spec hrange.2
    exact ⟨q, hends.exceptBind (.of_forall fun _ => congrArg some hq), hpacks⟩
  | subpathOfSize path offset size ih =>
    obtain ⟨p, hends, hp⟩ := ih hrange.1 hshort
    obtain ⟨q, hq, hpacks⟩ := hp.subpathOfSize_spec hrange.2
    exact ⟨q, hends.exceptBind (.of_forall fun _ => congrArg some hq), hpacks⟩
  | join lhs rhs ihL ihR =>
    obtain ⟨p, hendsL, hp⟩ := ihL hrange.1 hshort.1.1
    obtain ⟨q, hendsR, hq⟩ := ihR hrange.2 hshort.1.2
    obtain ⟨joined, hends, hpacks⟩ := ends_join hp hq hshort.2.1 hshort.2.2
    exact ⟨joined, hendsL.exceptBind (hendsR.exceptBind hends), hpacks⟩
  | joinNibble lhs nibble rhs ihL ihR =>
    obtain ⟨p, hendsL, hp⟩ := ihL hrange.1 hshort.1.1
    obtain ⟨q, hendsR, hq⟩ := ihR hrange.2 hshort.1.2
    obtain ⟨joined, hends, hpacks⟩ := ends_joinNibble hp nibble hq hshort.2.1 hshort.2.2
    exact ⟨joined, hendsL.exceptBind (hendsR.exceptBind hends), hpacks⟩

theorem size_of_ofPart_eq_ok {path : List UInt8} {offset size : Nat} {p : PackedPath}
    (h : PackedPath.ofPart path offset size = .ok p) : p.size = size := by
  rw [PackedPath.ofPart] at h
  split at h
  · case isTrue hzero =>
    cases h
    exact hzero.symm
  · split at h
    · cases h
    · cases h
      rfl

theorem size_of_evaluate_eq_ok (hrange : expression.InRange) {fuel : Nat} {p : PackedPath}
    (h : (expression.evaluate fuel).run = some (.ok p)) : p.size = expression.nibbles.length := by
  induction expression generalizing p with
  | key bytes =>
    cases h
    exact (length_treeNodePath bytes).symm
  | subpath path offset ih =>
    obtain ⟨q, hq, h⟩ := exists_of_exceptBind_eq_ok h
    have hpart := Option.some_inj.1 h
    rw [PackedPath.subpath] at hpart
    split at hpart
    · cases hpart
    · rw [size_of_ofPart_eq_ok hpart, ih hrange.1 hq, nibbles, List.length_drop]
  | subpathOfSize path offset size ih =>
    obtain ⟨q, -, h⟩ := exists_of_exceptBind_eq_ok h
    rw [size_of_ofPart_eq_ok (Option.some_inj.1 h), nibbles, List.length_take, List.length_drop,
      Nat.min_eq_left (Nat.le_sub_of_add_le' hrange.2)]
  | join lhs rhs ihL ihR =>
    obtain ⟨q, hq, h⟩ := exists_of_exceptBind_eq_ok h
    obtain ⟨q', hq', h⟩ := exists_of_exceptBind_eq_ok h
    obtain ⟨_, -, h⟩ := exists_of_exceptBind_eq_ok h
    obtain ⟨_, -, h⟩ := exists_of_exceptBind_eq_ok h
    rw [size_of_ofPart_eq_ok (Option.some_inj.1 h), ihL hrange.1 hq, ihR hrange.2 hq', nibbles, List.length_append]
  | joinNibble lhs nibble rhs ihL ihR =>
    obtain ⟨q, hq, h⟩ := exists_of_exceptBind_eq_ok h
    obtain ⟨q', hq', h⟩ := exists_of_exceptBind_eq_ok h
    obtain ⟨_, -, h⟩ := exists_of_exceptBind_eq_ok h
    obtain ⟨_, -, h⟩ := exists_of_exceptBind_eq_ok h
    obtain ⟨_, -, h⟩ := exists_of_exceptBind_eq_ok h
    rw [size_of_ofPart_eq_ok (Option.some_inj.1 h), ihL hrange.1 hq, ihR hrange.2 hq', nibbles, List.length_append,
      List.length_append]
    rfl

theorem joinsShort_of_evaluate_eq_ok (hrange : expression.InRange) {fuel : Nat} {p : PackedPath}
    (h : (expression.evaluate fuel).run = some (.ok p)) : expression.JoinsShort := by
  induction expression generalizing p with
  | key bytes => trivial
  | subpath path offset ih =>
    obtain ⟨q, hq, -⟩ := exists_of_exceptBind_eq_ok h
    exact ih hrange.1 hq
  | subpathOfSize path offset size ih =>
    obtain ⟨q, hq, -⟩ := exists_of_exceptBind_eq_ok h
    exact ih hrange.1 hq
  | join lhs rhs ihL ihR =>
    obtain ⟨q, hq, h⟩ := exists_of_exceptBind_eq_ok h
    obtain ⟨q', hq', h⟩ := exists_of_exceptBind_eq_ok h
    have hshortL := ihL hrange.1 hq
    have hshortR := ihR hrange.2 hq'
    obtain ⟨hltL, hltR⟩ := lt_of_join_eq_ok h
    rw [size_of_evaluate_eq_ok hrange.1 hq] at hltL
    rw [size_of_evaluate_eq_ok hrange.2 hq'] at hltR
    exact ⟨⟨hshortL, hshortR⟩, hltL, hltR⟩
  | joinNibble lhs nibble rhs ihL ihR =>
    obtain ⟨q, hq, h⟩ := exists_of_exceptBind_eq_ok h
    obtain ⟨q', hq', h⟩ := exists_of_exceptBind_eq_ok h
    have hshortL := ihL hrange.1 hq
    have hshortR := ihR hrange.2 hq'
    obtain ⟨hltL, hltR⟩ := lt_of_joinNibble_eq_ok h
    rw [size_of_evaluate_eq_ok hrange.1 hq] at hltL
    rw [size_of_evaluate_eq_ok hrange.2 hq'] at hltR
    exact ⟨⟨hshortL, hshortR⟩, hltL, hltR⟩

/-- The loops of all joins end, and what is seen of a path, by itself and beside another one, is what is seen of its
list. -/
def AgreesWithLists (lhs rhs : PathExpression) : Prop :=
  ∃ p q, Ends (fun fuel => (lhs.evaluate fuel).run) (.ok p) ∧ Ends (fun fuel => (rhs.evaluate fuel).run) (.ok q) ∧
    p.size = lhs.nibbles.length ∧ q.size = rhs.nibbles.length ∧
    (∀ index (nibble : Nibble), lhs.nibbles[index]? = some nibble → p.nibbleAt index = .ok (UInt8.ofNat nibble)) ∧
    (∀ index (nibble : Nibble), rhs.nibbles[index]? = some nibble → q.nibbleAt index = .ok (UInt8.ofNat nibble)) ∧
    p.equals q = .ok (decide (lhs.nibbles = rhs.nibbles)) ∧
    p.findFirstDifferenceIndex q = .ok (findFirstDifferenceIndex lhs.nibbles rhs.nibbles)

theorem nibbleAt_of_packs {p : PackedPath} {l : TreeNodePath} (h : Packs p l) (index : Nat) (nibble : Nibble)
    (hnibble : l[index]? = some nibble) : p.nibbleAt index = .ok (UInt8.ofNat nibble) := by
  obtain ⟨hlt, rfl⟩ := List.getElem?_eq_some_iff.1 hnibble
  exact h.nibbleAt_eq hlt

theorem agreesWithLists_of_joinsShort (hL : lhs.InRange) (hR : rhs.InRange) (hshortL : lhs.JoinsShort)
    (hshortR : rhs.JoinsShort) : AgreesWithLists lhs rhs := by
  obtain ⟨p, hendsL, hp⟩ := exists_ends hL hshortL
  obtain ⟨q, hendsR, hq⟩ := exists_ends hR hshortR
  exact ⟨p, q, hendsL, hendsR, hp.size_eq, hq.size_eq, nibbleAt_of_packs hp, nibbleAt_of_packs hq, hp.equals_spec hq,
    hp.findFirstDifferenceIndex_spec hq⟩

theorem AgreesWithLists.joinsShort (h : AgreesWithLists lhs rhs) (hL : lhs.InRange) (hR : rhs.InRange) :
    lhs.JoinsShort ∧ rhs.JoinsShort := by
  obtain ⟨p, q, ⟨m, hm⟩, ⟨n, hn⟩, -⟩ := h
  exact ⟨joinsShort_of_evaluate_eq_ok hL (hm m (Nat.le_refl m)), joinsShort_of_evaluate_eq_ok hR (hn n (Nat.le_refl n))⟩

/-- Paths agree with lists exactly when no path is joined that has 2^32 nibbles or more. -/
theorem agreesWithLists_iff (hL : lhs.InRange) (hR : rhs.InRange) :
    AgreesWithLists lhs rhs ↔ lhs.JoinsShort ∧ rhs.JoinsShort :=
  ⟨fun h => h.joinsShort hL hR, fun h => agreesWithLists_of_joinsShort hL hR h.1 h.2⟩

/-- Two joins of parts that start at the first and at the second nibble of a byte. -/
theorem agreesWithLists_sample : AgreesWithLists (.join (.subpath (.key [0x12, 0x34]) 1) (.key [0x56]))
    (.joinNibble (.subpathOfSize (.key [0x12, 0x34]) 1 2) 4 (.key [0x56])) := by
  have hL : (PathExpression.join (.subpath (.key [0x12, 0x34]) 1) (.key [0x56])).InRange :=
    ⟨⟨trivial, by decide⟩, trivial⟩
  have hR : (PathExpression.joinNibble (.subpathOfSize (.key [0x12, 0x34]) 1 2) 4 (.key [0x56])).InRange :=
    ⟨⟨trivial, by decide⟩, trivial⟩
  refine (agreesWithLists_iff hL hR).2 ⟨⟨⟨trivial, trivial⟩, ?_, ?_⟩, ⟨trivial, trivial⟩, ?_, ?_⟩
  all_goals decide

theorem not_agreesWithLists_sample : ∃ lhs rhs : PathExpression, lhs.InRange ∧ rhs.InRange ∧
    ¬AgreesWithLists lhs rhs := by
  refine ⟨.join (.key (List.replicate (2 ^ 31) 0)) (.key []), .key [], ⟨trivial, trivial⟩, trivial, fun h => ?_⟩
  obtain ⟨⟨-, hlt, -⟩, -⟩ := h.joinsShort ⟨trivial, trivial⟩ trivial
  rw [nibbles, length_treeNodePath, List.length_replicate] at hlt
  exact absurd hlt (by decide)

end PathExpression

end Catapult.Tree
