import Catapult.Lib.BigEndian
import Catapult.Lib.BinaryLogarithm
import Catapult.Tree.Serializer
import Mathlib.Tactic.IntervalCases

/-!
# Fixed-point arithmetic (`IntegerMath.cpp`)

`Log2TimesPowerOfTwo` is defined for numbers that are not zero, and for numbers of 32 bits nothing wraps around: it is
the logarithm of `BinaryLogarithm`, and so it is monotone.
-/

namespace Catapult.Chain
open BinaryLogarithm

/-- `x` is doubled until it has 32 digits, and `y` counts down from 31. -/
def normalize : Nat → Nat → State
  | 0, x => ⟨0, x⟩
  | y + 1, x => if x < 2 ^ 31 then normalize y (2 * x) else ⟨y + 1, x⟩

def extractCoefficient (s : State) : State :=
  let x := s.mantissa * s.mantissa % 2 ^ 64 / 2 ^ 31
  let y := 2 * s.digits % 2 ^ 64
  if 2 * 2 ^ 31 ≤ x then ⟨y + 1, x / 2⟩ else ⟨y, x⟩

/-- There is an error for zero, which has no logarithm. -/
def log2TimesPowerOfTwo (value n : Nat) : Option Nat :=
  if value = 0 then none else some (extractCoefficient^[n] (normalize 31 value)).digits

theorem normalize_start {y x value : Nat} (hy : y ≤ 31) (hx : x = value * 2 ^ (31 - y)) (hlow : 2 ^ 31 ≤ x * 2 ^ y)
    (hhigh : x < 2 ^ 32) : Start 31 value (normalize y x) := by
  induction y generalizing x with
  | zero => exact ⟨⟨by simpa [normalize] using hlow, hhigh⟩, Nat.zero_le _, hx⟩
  | succ y ih =>
    rw [normalize]
    split
    · case isTrue hlt =>
      refine ih (by omega) ?_ ?_ (by omega)
      · have hexp : 31 - y = 31 - (y + 1) + 1 := by omega
        rw [hx, hexp, Nat.pow_succ]
        ring
      · calc 2 ^ 31 ≤ x * 2 ^ (y + 1) := hlow
          _ = 2 * x * 2 ^ y := by rw [Nat.pow_succ]; ring
    · case isFalse hge => exact ⟨⟨Nat.le_of_not_lt hge, hhigh⟩, hy, hx⟩

theorem normalize_start_of_pos {value : Nat} (hpos : 0 < value) (hvalue : value < 2 ^ 32) :
    Start 31 value (normalize 31 value) :=
  normalize_start le_rfl (by simp) (Nat.le_mul_of_pos_left _ hpos) hvalue

theorem extractCoefficient_eq {s : State} (h : Normal 31 s) (hdigits : 2 * s.digits < 2 ^ 64) :
    extractCoefficient s = next 31 s := by
  have hsquare : s.mantissa * s.mantissa < 2 ^ 64 :=
    (Nat.mul_lt_mul'' h.2 h.2).trans_le (by decide)
  rw [extractCoefficient, next, Nat.mod_eq_of_lt hsquare, Nat.mod_eq_of_lt hdigits]
  rfl

theorem iterate_extractCoefficient_eq {s : State} (h : Normal 31 s) (hdigits : s.digits ≤ 31) {n : Nat} (hn : n ≤ 59) :
    extractCoefficient^[n] s = (next 31)^[n] s := by
  induction n with
  | zero => rfl
  | succ n ih =>
    rw [Function.iterate_succ_apply', Function.iterate_succ_apply', ih (by omega)]
    refine extractCoefficient_eq (h.iterate n) ?_
    have hlt := (digits_iterate 31 s n).2
    have hle : (s.digits + 1) * 2 ^ n ≤ 32 * 2 ^ 58 :=
      Nat.mul_le_mul (by omega) (Nat.pow_le_pow_right (by decide) (by omega))
    omega

theorem log2TimesPowerOfTwo_eq {value n : Nat} (hpos : 0 < value) (hvalue : value < 2 ^ 32) (hn : n ≤ 59) :
    log2TimesPowerOfTwo value n = some ((next 31)^[n] (normalize 31 value)).digits := by
  have hstart := normalize_start_of_pos hpos hvalue
  rw [log2TimesPowerOfTwo, if_neg hpos.ne', iterate_extractCoefficient_eq hstart.normal hstart.digits_le hn]

def log2 (value n : Nat) : Nat := ((next 31)^[n] (normalize 31 value)).digits

theorem log2_mono {value value' : Nat} (hpos : 0 < value) (hle : value ≤ value') (hvalue : value' < 2 ^ 32) (n : Nat) :
    log2 value n ≤ log2 value' n := by
  have hstart := normalize_start_of_pos hpos (hle.trans_lt hvalue)
  have hstart' := normalize_start_of_pos (hpos.trans_le hle) hvalue
  exact (iterate_le (hstart.le hstart' hle) n).digits_le

theorem log2_lt {value : Nat} (hpos : 0 < value) (hvalue : value < 2 ^ 32) (n : Nat) : log2 value n < 32 * 2 ^ n := by
  have hstart := normalize_start_of_pos hpos hvalue
  refine (digits_iterate 31 (normalize 31 value) n).2.trans_le (Nat.mul_le_mul_right _ ?_)
  have hle := hstart.digits_le
  omega

theorem le_log2 {value : Nat} (hlow : 2 ^ 31 ≤ value) (n : Nat) : 31 * 2 ^ n ≤ log2 value n := by
  have hdigits : (normalize 31 value).digits = 31 := by
    rw [normalize, if_neg (Nat.not_lt_of_le hlow)]
  have hle := (digits_iterate 31 (normalize 31 value) n).1
  rwa [hdigits] at hle

/-!
## The hit of a block (`BlockScorer.cpp`)

The hit is a logarithm of the generation hash, calculated from the 32 bits that begin at its first bit. It is smaller
for a larger hash, except for a special case: the hit is zero when these 32 bits are all ones, wherever they begin
(`calculateHit_ordered_iff`).
-/

abbrev GenerationHash := Tree.Hash256

namespace GenerationHash

def number (hash : GenerationHash) : Nat := bigEndian hash.bytes

/-- The bits before the first one, at most those before the last 32 bits. -/
def leadingZeros (hash : GenerationHash) : Nat := min (256 - hash.number.size) 224

def leadingBits (hash : GenerationHash) : Nat := hash.number / 2 ^ (224 - hash.leadingZeros)

end GenerationHash

structure GenerationHashInfo where
  value : Nat
  numLeadingZeros : Nat
  deriving DecidableEq

/-- The loop over the bytes from the `i`-th one. -/
def numLeadingZeros (i : Nat) : List UInt8 → Nat
  | [] => 256
  | b :: bs => if b ≠ 0 then 8 * i + 7 - b.toNat.log2 else numLeadingZeros (i + 1) bs

/-- The four bytes at an index. There is no value when they are not all inside of the hash. -/
def extractFromHashAtPosition (hash : GenerationHash) (index : Nat) : Option Nat :=
  if index + 4 ≤ hash.bytes.length then some (bigEndian ((hash.bytes.drop index).take 4)) else none

def extractGenerationHashInfo (hash : GenerationHash) : Option GenerationHashInfo :=
  let n := numLeadingZeros 0 hash.bytes
  if 224 ≤ n then do
    return ⟨← extractFromHashAtPosition hash (32 - 4), 224⟩
  else do
    let quotient := n / 8
    let remainder := n % 8
    let value ← extractFromHashAtPosition hash quotient
    let value := value * 2 ^ remainder % 2 ^ 32
    let byte ← hash.bytes[quotient + 4]?
    return ⟨(value + byte.toNat / 2 ^ (8 - remainder)) % 2 ^ 32, n⟩

/-- The numbers have 64 bits, and the product has 128. -/
def calculateHit (hash : GenerationHash) : Option Nat := do
  let hashInfo ← extractGenerationHashInfo hash
  if hashInfo.value = 0 then
    return 2 ^ 64 - 1
  if hashInfo.value = 0xFFFFFFFF then
    return 0
  let logValue ← log2TimesPowerOfTwo hashInfo.value 54
  let result := ((32 + hashInfo.numLeadingZeros) * 2 ^ 54 + 2 ^ 64 - logValue) % 2 ^ 64
  return result * 10000000000000000 / 14426950408889634 % 2 ^ 64

theorem numLeadingZeros_eq {bytes : List UInt8} {i : Nat} (h : i + bytes.length = 32) :
    numLeadingZeros i bytes = 256 - (bigEndian bytes).size := by
  induction bytes generalizing i with
  | nil => rfl
  | cons b bytes ih =>
    rw [List.length_cons] at h
    rw [numLeadingZeros]
    split
    · case isTrue hb =>
      rw [size_bigEndian_cons hb]
      omega
    · case isFalse hb =>
      rw [ih (by omega), bigEndian, not_not.1 hb]
      simp

theorem numLeadingZeros_hash (hash : GenerationHash) : numLeadingZeros 0 hash.bytes = 256 - hash.number.size :=
  numLeadingZeros_eq (by rw [hash.size_bytes])

theorem extractFromHashAtPosition_eq (hash : GenerationHash) {index : Nat} (h : index ≤ 28) :
    extractFromHashAtPosition hash index = some (hash.number / 256 ^ (28 - index) % 256 ^ 4) := by
  have hlen : index + 4 ≤ hash.bytes.length := by
    rw [hash.size_bytes]
    omega
  rw [extractFromHashAtPosition, if_pos hlen, bigEndian_slice hlen, hash.size_bytes]
  have hexp : 32 - (index + 4) = 28 - index := by omega
  rw [hexp]
  rfl

theorem number_lt (hash : GenerationHash) : hash.number < 2 ^ 256 := by
  have hlt := bigEndian_lt hash.bytes
  rw [hash.size_bytes] at hlt
  exact hlt

@[simp] theorem leadingZeros_le (hash : GenerationHash) : hash.leadingZeros ≤ 224 := min_le_right _ _

theorem leadingBits_lt (hash : GenerationHash) : hash.leadingBits < 2 ^ 32 := by
  have hsize : hash.number < 2 ^ hash.number.size := Nat.lt_size_self _
  have hmax : hash.number.size ≤ 256 := Nat.size_le.2 (number_lt hash)
  rw [GenerationHash.leadingBits, Nat.div_lt_iff_lt_mul (Nat.two_pow_pos _), ← Nat.pow_add]
  refine hsize.trans_le (Nat.pow_le_pow_right (by decide) ?_)
  rw [GenerationHash.leadingZeros]
  omega

theorem shifted_value {number n : Nat} (hn : n < 224) (hlt : number < 2 ^ (256 - n)) :
    (number / 256 ^ (28 - n / 8) % 256 ^ 4 * 2 ^ (n % 8) % 2 ^ 32 +
      number / 256 ^ (32 - (n / 8 + 4 + 1)) % 256 / 2 ^ (8 - n % 8)) % 2 ^ 32 = number / 2 ^ (224 - n) := by
  have hexp : 28 - n / 8 = 32 - (n / 8 + 4 + 1) + 1 := by omega
  obtain ⟨five, hfive⟩ : ∃ five, five = number / 256 ^ (32 - (n / 8 + 4 + 1)) := ⟨_, rfl⟩
  have hsplit : 224 - n = 8 * (32 - (n / 8 + 4 + 1)) + (8 - n % 8) := by omega
  rw [hexp, Nat.pow_succ, ← Nat.div_div_eq_div_mul, ← hfive, hsplit, Nat.pow_add, Nat.pow_mul,
    ← Nat.div_div_eq_div_mul]
  change (five / 256 % 256 ^ 4 * 2 ^ (n % 8) % 2 ^ 32 + five % 256 / 2 ^ (8 - n % 8)) % 2 ^ 32 =
    number / 256 ^ (32 - (n / 8 + 4 + 1)) / 2 ^ (8 - n % 8)
  rw [← hfive]
  have hbound : five < 2 ^ (40 - n % 8) := by
    rw [hfive, Nat.div_lt_iff_lt_mul (Nat.pow_pos (by decide))]
    change number < 2 ^ (40 - n % 8) * (2 ^ 8) ^ (32 - (n / 8 + 4 + 1))
    rw [← Nat.pow_mul, ← Nat.pow_add]
    refine hlt.trans_le (Nat.pow_le_pow_right (by decide) ?_)
    omega
  have hremainder : n % 8 < 8 := Nat.mod_lt _ (by decide)
  generalize n % 8 = remainder at hbound hremainder ⊢
  interval_cases remainder <;> omega

theorem extractGenerationHashInfo_eq (hash : GenerationHash) :
    extractGenerationHashInfo hash = some ⟨hash.leadingBits, hash.leadingZeros⟩ := by
  have hnumber : hash.number < 2 ^ hash.number.size := Nat.lt_size_self _
  have hsize : hash.number.size ≤ 256 := Nat.size_le.2 (number_lt hash)
  rw [extractGenerationHashInfo, numLeadingZeros_hash, GenerationHash.leadingBits, GenerationHash.leadingZeros]
  by_cases hzeros : 224 ≤ 256 - hash.number.size
  · have hlt : hash.number < 256 ^ 4 :=
      hnumber.trans_le ((Nat.pow_le_pow_right (by decide) (show _ ≤ 32 by omega)).trans (by decide))
    rw [if_pos hzeros, extractFromHashAtPosition_eq hash le_rfl, min_eq_right hzeros, Nat.mod_eq_of_lt]
    · rfl
    · simpa using hlt
  · rw [if_neg hzeros]
    have hlt : hash.number < 2 ^ (256 - (256 - hash.number.size)) := by rwa [Nat.sub_sub_self hsize]
    have hquotient : (256 - hash.number.size) / 8 ≤ 27 := by omega
    have hindex : (256 - hash.number.size) / 8 + 4 < hash.bytes.length := by
      rw [hash.size_bytes]
      omega
    dsimp only
    rw [extractFromHashAtPosition_eq hash (hquotient.trans (by decide)), List.getElem?_eq_getElem hindex,
      min_eq_left (Nat.le_of_not_le hzeros), ← shifted_value (Nat.lt_of_not_le hzeros) hlt]
    simp only [Option.bind_eq_bind, Option.bind_some, bigEndian_getElem hindex, hash.size_bytes]
    rfl

def hitValue (value zeros : Nat) : Nat :=
  if value = 0 then 2 ^ 64 - 1
  else if value = 0xFFFFFFFF then 0
  else ((32 + zeros) * 2 ^ 54 - log2 value 54) * 10000000000000000 / 14426950408889634

theorem log2_le {value zeros : Nat} (hpos : 0 < value) (hvalue : value < 2 ^ 32) :
    log2 value 54 ≤ (32 + zeros) * 2 ^ 54 :=
  (log2_lt hpos hvalue 54).le.trans (Nat.mul_le_mul_right _ (Nat.le_add_right _ _))

theorem calculateHit_eq (hash : GenerationHash) :
    calculateHit hash = some (hitValue hash.leadingBits hash.leadingZeros) := by
  have hvalue := leadingBits_lt hash
  rw [calculateHit, extractGenerationHashInfo_eq, hitValue]
  by_cases hzero : hash.leadingBits = 0
  · simp [hzero]
  · by_cases hones : hash.leadingBits = 0xFFFFFFFF
    · simp [hones]
    · have hpos := Nat.pos_of_ne_zero hzero
      have hlog : log2 hash.leadingBits 54 ≤ (32 + hash.leadingZeros) * 2 ^ 54 := log2_le hpos hvalue
      have hzeros := leadingZeros_le hash
      have hdifference : ((32 + hash.leadingZeros) * 2 ^ 54 + 2 ^ 64 - log2 hash.leadingBits 54) % 2 ^ 64 =
          (32 + hash.leadingZeros) * 2 ^ 54 - log2 hash.leadingBits 54 := by omega
      have hhit : ((32 + hash.leadingZeros) * 2 ^ 54 - log2 hash.leadingBits 54) * 10000000000000000 /
          14426950408889634 < 2 ^ 64 := by omega
      simp only [Option.bind_eq_bind, Option.bind_some, if_neg hzero, if_neg hones,
        log2TimesPowerOfTwo_eq hpos hvalue (by decide : 54 ≤ 59)]
      change some (((32 + hash.leadingZeros) * 2 ^ 54 + 2 ^ 64 - log2 hash.leadingBits 54) % 2 ^ 64 *
        10000000000000000 / 14426950408889634 % 2 ^ 64) = _
      rw [hdifference, Nat.mod_eq_of_lt hhit]

theorem leadingZeros_anti {a b : GenerationHash} (h : a.number ≤ b.number) : b.leadingZeros ≤ a.leadingZeros := by
  have hsize := Nat.size_le_size h
  rw [GenerationHash.leadingZeros, GenerationHash.leadingZeros]
  omega

theorem leadingBits_mono {a b : GenerationHash} (h : a.number ≤ b.number) (heq : a.leadingZeros = b.leadingZeros) :
    a.leadingBits ≤ b.leadingBits := by
  rw [GenerationHash.leadingBits, GenerationHash.leadingBits, heq]
  exact Nat.div_le_div_right h

theorem le_leadingBits {hash : GenerationHash} (h : hash.leadingZeros < 224) : 2 ^ 31 ≤ hash.leadingBits := by
  have hzeros : hash.leadingZeros = 256 - hash.number.size := by
    rw [GenerationHash.leadingZeros] at h ⊢
    omega
  have hlow : 2 ^ (31 + (224 - hash.leadingZeros)) ≤ hash.number := Nat.lt_size.1 (by omega)
  rw [GenerationHash.leadingBits, Nat.le_div_iff_mul_le (Nat.two_pow_pos _), ← Nat.pow_add]
  exact hlow

theorem hitValue_pos {value : Nat} (zeros : Nat) (hvalue : value < 2 ^ 32) (hones : value ≠ 0xFFFFFFFF) :
    0 < hitValue value zeros := by
  rw [hitValue]
  split
  · decide
  · case isFalse hzero =>
    have hmono := log2_mono (Nat.pos_of_ne_zero hzero) (show value ≤ 0xFFFFFFFE by omega) (by decide) 54
    have hmax : log2 0xFFFFFFFE 54 + 2 ≤ 32 * 2 ^ 54 := by decide +kernel
    omega

theorem hitValue_le {a b : GenerationHash} (h : a.number ≤ b.number) (hones : a.leadingBits ≠ 0xFFFFFFFF) :
    hitValue b.leadingBits b.leadingZeros ≤ hitValue a.leadingBits a.leadingZeros := by
  have ha := leadingBits_lt a
  have hb := leadingBits_lt b
  have hzeros := leadingZeros_le b
  by_cases hazero : a.leadingBits = 0
  · rw [hitValue, hitValue, if_pos hazero]
    split
    · exact le_rfl
    · split <;> omega
  by_cases hbones : b.leadingBits = 0xFFFFFFFF
  · rw [hitValue, hbones]
    exact Nat.zero_le _
  have hapos := Nat.pos_of_ne_zero hazero
  have hmain : b.leadingBits ≠ 0 ∧ (32 + b.leadingZeros) * 2 ^ 54 - log2 b.leadingBits 54 ≤
      (32 + a.leadingZeros) * 2 ^ 54 - log2 a.leadingBits 54 := by
    rcases Nat.eq_or_lt_of_le (leadingZeros_anti h) with heq | hlt
    · have hbits := leadingBits_mono h heq.symm
      have hlog := log2_mono hapos hbits hb 54
      rw [heq]
      exact ⟨by omega, by omega⟩
    · -- the bits of the larger number begin with one, so its logarithm is at least 31
      have hbits : 2 ^ 31 ≤ b.leadingBits := le_leadingBits (hlt.trans_le (leadingZeros_le a))
      have hblog := le_log2 hbits 54
      have halog := log2_lt hapos ha 54
      exact ⟨by omega, by omega⟩
  rw [hitValue, hitValue, if_neg hmain.1, if_neg hbones, if_neg hazero, if_neg hones]
  exact Nat.div_le_div_right (Nat.mul_le_mul_right _ hmain.2)

/-- The hits of two hashes in order. All bytes that are read are inside of the hashes. -/
structure OrderedHits (a b : GenerationHash) : Prop where
  bits : ∀ hash ∈ [a, b], extractGenerationHashInfo hash = some ⟨hash.leadingBits, hash.leadingZeros⟩
  noUnderflow : ∀ hash ∈ [a, b], ∀ logValue, log2TimesPowerOfTwo hash.leadingBits 54 = some logValue →
    logValue ≤ (32 + hash.leadingZeros) * 2 ^ 54
  hit_le : ∃ hitA hitB, calculateHit a = some hitA ∧ calculateHit b = some hitB ∧ hitB ≤ hitA

theorem log2TimesPowerOfTwo_le (hash : GenerationHash) {logValue : Nat}
    (h : log2TimesPowerOfTwo hash.leadingBits 54 = some logValue) : logValue ≤ (32 + hash.leadingZeros) * 2 ^ 54 := by
  by_cases hzero : hash.leadingBits = 0
  · rw [hzero] at h
    cases h
  · have hpos := Nat.pos_of_ne_zero hzero
    rw [log2TimesPowerOfTwo_eq hpos (leadingBits_lt hash) (by decide)] at h
    cases h
    exact log2_le hpos (leadingBits_lt hash)

/-- Hashes that begin with 32 ones after their zeros have the smallest hit, wherever the ones begin. -/
theorem calculateHit_ordered_iff {a b : GenerationHash} (h : a.number ≤ b.number) :
    OrderedHits a b ↔ (a.leadingBits = 2 ^ 32 - 1 → b.leadingBits = 2 ^ 32 - 1) := by
  constructor
  · rintro ⟨-, -, hitA, hitB, hhitA, hhitB, hle⟩ hones
    rw [calculateHit_eq] at hhitA hhitB
    cases hhitA
    cases hhitB
    by_contra hbones
    have hpos := hitValue_pos b.leadingZeros (leadingBits_lt b) hbones
    have hzero : hitValue a.leadingBits a.leadingZeros = 0 := by
      rw [hitValue, hones]
      rfl
    omega
  · intro hcondition
    refine ⟨fun hash _ => extractGenerationHashInfo_eq hash, fun hash _ _ => log2TimesPowerOfTwo_le hash,
      _, _, calculateHit_eq a, calculateHit_eq b, ?_⟩
    by_cases hones : a.leadingBits = 0xFFFFFFFF
    · rw [hitValue, hcondition hones]
      exact Nat.zero_le _
    · exact hitValue_le h hones

def sampleHash (first second : UInt8) : GenerationHash :=
  ⟨first :: second :: (List.replicate 3 0xFF ++ List.replicate 27 0), rfl⟩

theorem ordered_sample : OrderedHits (sampleHash 0 0x7F) (sampleHash 0 0xFF) :=
  (calculateHit_ordered_iff (by decide +kernel)).2 fun hones => absurd hones (by decide +kernel)

/-- The hash `00FFFFFFFF00..` has no hit, but the larger hash `0100FFFFFF00..` has one. -/
theorem not_ordered_sample : (sampleHash 0 0xFF).number ≤ (sampleHash 1 0).number ∧
    calculateHit (sampleHash 0 0xFF) = some 0 ∧ calculateHit (sampleHash 1 0) = some 99822804643275843 ∧
    ¬ OrderedHits (sampleHash 0 0xFF) (sampleHash 1 0) := by
  have hfirst : calculateHit (sampleHash 0 0xFF) = some 0 := by decide +kernel
  have hsecond : calculateHit (sampleHash 1 0) = some 99822804643275843 := by decide +kernel
  refine ⟨by decide +kernel, hfirst, hsecond, ?_⟩
  rintro ⟨-, -, hitA, hitB, hhitA, hhitB, hle⟩
  rw [hfirst] at hhitA
  rw [hsecond] at hhitB
  cases hhitA
  cases hhitB
  exact absurd hle (by decide)

end Catapult.Chain
