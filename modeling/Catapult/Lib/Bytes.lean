import Mathlib.Data.UInt

/-!
# Fixed-width byte encodings

`leBytes k n` are the `k` low bytes of `n`, lowest first; `beBytes k n` the same bytes, highest first. A width and a
number below `256 ^ k` are determined by the bytes, so records that are laid out as a sequence of fixed-width fields
can be read back field by field.
-/

/-- The `k` low bytes of `n`, lowest first. -/
def leBytes : Nat → Nat → List UInt8
  | 0, _ => []
  | k + 1, n => UInt8.ofNat n :: leBytes k (n / 256)

/-- The `k` low bytes of `n`, highest first. -/
def beBytes (k n : Nat) : List UInt8 := (leBytes k n).reverse

@[simp] theorem length_leBytes (k n : Nat) : (leBytes k n).length = k := by
  induction k generalizing n with
  | zero => rfl
  | succ k ih => simp [leBytes, ih]

@[simp] theorem length_beBytes (k n : Nat) : (beBytes k n).length = k := by simp [beBytes]

theorem leBytes_inj {k n m : Nat} (hn : n < 256 ^ k) (hm : m < 256 ^ k) (h : leBytes k n = leBytes k m) : n = m := by
  induction k generalizing n m with
  | zero => simp only [Nat.pow_zero] at hn hm; omega
  | succ k ih =>
    obtain ⟨hhead, htail⟩ := List.cons.inj h
    have hdiv := ih (Nat.div_lt_of_lt_mul (by rwa [Nat.pow_succ'] at hn))
      (Nat.div_lt_of_lt_mul (by rwa [Nat.pow_succ'] at hm)) htail
    have hmod := congrArg UInt8.toNat hhead
    simp only [UInt8.toNat_ofNat'] at hmod
    omega

theorem beBytes_inj {k n m : Nat} (hn : n < 256 ^ k) (hm : m < 256 ^ k) (h : beBytes k n = beBytes k m) : n = m :=
  leBytes_inj hn hm (List.reverse_injective h)

theorem leBytes_uint32_inj {a b : UInt32} (h : leBytes 4 a.toNat = leBytes 4 b.toNat) : a = b := by
  have ha := a.toNat_lt
  have hb := b.toNat_lt
  exact UInt32.toNat_inj.1 (leBytes_inj (by omega) (by omega) h)

theorem leBytes_uint64_inj {a b : UInt64} (h : leBytes 8 a.toNat = leBytes 8 b.toNat) : a = b := by
  have ha := a.toNat_lt
  have hb := b.toNat_lt
  exact UInt64.toNat_inj.1 (leBytes_inj (by omega) (by omega) h)

theorem beBytes_bitVec_inj {k : Nat} {a b : BitVec (8 * k)} (h : beBytes k a.toNat = beBytes k b.toNat) : a = b := by
  have hpow : (256 : Nat) ^ k = 2 ^ (8 * k) := by rw [Nat.pow_mul]
  exact BitVec.eq_of_toNat_eq (beBytes_inj (by rw [hpow]; exact a.isLt) (by rw [hpow]; exact b.isLt) h)

theorem flatMap_inj_of_width {α β : Type*} {f : α → List β} {k : Nat} (hk : 0 < k) (hlen : ∀ a, (f a).length = k)
    (hinj : ∀ a b, f a = f b → a = b) {l l' : List α} (h : l.flatMap f = l'.flatMap f) : l = l' := by
  induction l generalizing l' with
  | nil =>
    cases l' with
    | nil => rfl
    | cons b l' =>
      have := congrArg List.length h
      simp only [List.flatMap_nil, List.length_nil, List.flatMap_cons, List.length_append, hlen] at this
      omega
  | cons a l ih =>
    cases l' with
    | nil =>
      have := congrArg List.length h
      simp only [List.flatMap_nil, List.length_nil, List.flatMap_cons, List.length_append, hlen] at this
      omega
    | cons b l' =>
      rw [List.flatMap_cons, List.flatMap_cons] at h
      obtain ⟨hhead, htail⟩ := List.append_inj h ((hlen a).trans (hlen b).symm)
      rw [hinj a b hhead, ih htail]
