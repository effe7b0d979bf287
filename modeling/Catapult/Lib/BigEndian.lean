import Mathlib.Data.Nat.Size
import Mathlib.Data.UInt

/-!
# Big-endian numbers

A list of bytes read as a number, highest byte first. A part of the list has the digits of the number at its place.
-/

namespace Catapult

def bigEndian : List UInt8 → Nat
  | [] => 0
  | b :: bs => b.toNat * 256 ^ bs.length + bigEndian bs

theorem bigEndian_append (l l' : List UInt8) :
    bigEndian (l ++ l') = bigEndian l * 256 ^ l'.length + bigEndian l' := by
  induction l with
  | nil => simp [bigEndian]
  | cons b l ih =>
    rw [List.cons_append, bigEndian, bigEndian, ih, List.length_append, Nat.pow_add, Nat.add_mul, Nat.mul_assoc,
      Nat.add_assoc]

theorem bigEndian_lt (l : List UInt8) : bigEndian l < 256 ^ l.length := by
  induction l with
  | nil => exact Nat.one_pos
  | cons b l ih =>
    rw [bigEndian, List.length_cons, Nat.pow_succ, Nat.mul_comm (256 ^ l.length)]
    have hb : b.toNat + 1 ≤ 256 := b.toNat_lt
    calc b.toNat * 256 ^ l.length + bigEndian l < (b.toNat + 1) * 256 ^ l.length := by
          rw [Nat.add_mul, Nat.one_mul]; omega
      _ ≤ 256 * 256 ^ l.length := Nat.mul_le_mul_right _ hb

theorem bigEndian_slice {l : List UInt8} {i k : Nat} (h : i + k ≤ l.length) :
    bigEndian ((l.drop i).take k) = bigEndian l / 256 ^ (l.length - (i + k)) % 256 ^ k := by
  have hsplit : l = l.take i ++ ((l.drop i).take k ++ l.drop (i + k)) := by
    rw [← List.drop_drop, List.take_append_drop, List.take_append_drop]
  have hlow : (l.drop (i + k)).length = l.length - (i + k) := List.length_drop
  have hmiddle : ((l.drop i).take k).length = k := by
    rw [List.length_take, List.length_drop]
    omega
  have hdrop := bigEndian_lt (l.drop (i + k))
  have htake := bigEndian_lt ((l.drop i).take k)
  rw [hlow] at hdrop
  rw [hmiddle] at htake
  conv_rhs => rw [hsplit]
  rw [bigEndian_append, bigEndian_append, List.length_append, hmiddle, hlow]
  have hnumber : bigEndian (l.take i) * 256 ^ (k + (l.length - (i + k))) +
      (bigEndian ((l.drop i).take k) * 256 ^ (l.length - (i + k)) + bigEndian (l.drop (i + k))) =
      (bigEndian (l.take i) * 256 ^ k + bigEndian ((l.drop i).take k)) * 256 ^ (l.length - (i + k)) +
        bigEndian (l.drop (i + k)) := by
    rw [Nat.pow_add, Nat.add_mul, Nat.mul_assoc, Nat.add_assoc]
  have hlength : (l.take i ++ ((l.drop i).take k ++ l.drop (i + k))).length = l.length := by rw [← hsplit]
  rw [hlength, hnumber, Nat.mul_comm _ (256 ^ (l.length - (i + k))),
    Nat.mul_add_div (Nat.pow_pos (by decide)), Nat.div_eq_of_lt hdrop, Nat.add_zero, Nat.mul_comm _ (256 ^ k),
    Nat.mul_add_mod, Nat.mod_eq_of_lt htake]

theorem bigEndian_getElem {l : List UInt8} {i : Nat} (h : i < l.length) :
    l[i].toNat = bigEndian l / 256 ^ (l.length - (i + 1)) % 256 := by
  have hslice := bigEndian_slice (l := l) (i := i) (k := 1) h
  rw [Nat.pow_one] at hslice
  rw [← hslice, List.drop_eq_getElem_cons h, List.take_succ_cons, List.take_zero, bigEndian, bigEndian]
  simp

theorem size_bigEndian_cons {b : UInt8} (hb : b ≠ 0) (l : List UInt8) :
    (bigEndian (b :: l)).size = 8 * l.length + b.toNat.log2 + 1 := by
  have hpos : b.toNat ≠ 0 := fun hzero => hb (UInt8.toNat_inj.1 hzero)
  have hpow : 256 ^ l.length = 2 ^ (8 * l.length) := by rw [Nat.pow_mul]
  have hlt := bigEndian_lt l
  have hlow : 2 ^ b.toNat.log2 ≤ b.toNat := Nat.log2_self_le hpos
  have hhigh : b.toNat + 1 ≤ 2 ^ (b.toNat.log2 + 1) := Nat.lt_log2_self
  rw [bigEndian]
  rw [hpow] at hlt ⊢
  refine Nat.le_antisymm (Nat.size_le.2 ?_) (Nat.lt_size.2 ?_)
  · calc b.toNat * 2 ^ (8 * l.length) + bigEndian l < (b.toNat + 1) * 2 ^ (8 * l.length) := by
          rw [Nat.add_mul, Nat.one_mul]; omega
      _ ≤ 2 ^ (b.toNat.log2 + 1) * 2 ^ (8 * l.length) := Nat.mul_le_mul_right _ hhigh
      _ = 2 ^ (8 * l.length + b.toNat.log2 + 1) := by rw [← Nat.pow_add]; congr 1; omega
  · calc 2 ^ (8 * l.length + b.toNat.log2) = 2 ^ b.toNat.log2 * 2 ^ (8 * l.length) := by
          rw [← Nat.pow_add, Nat.add_comm]
      _ ≤ b.toNat * 2 ^ (8 * l.length) := Nat.mul_le_mul_right _ hlow
      _ ≤ b.toNat * 2 ^ (8 * l.length) + bigEndian l := Nat.le_add_right _ _

end Catapult
