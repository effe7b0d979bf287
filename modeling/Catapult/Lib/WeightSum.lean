import Mathlib.Data.UInt
import Mathlib.Algebra.Order.BigOperators.Group.List
import Mathlib.Algebra.Order.Group.Nat

/-!
# Weighted ballots

A ballot is an element of a list with a weight. `weightOf p w l` is the weight of the ballots of `l` that satisfy `p`,
in any commutative monoid: wrapping 64-bit weights or unbounded ones. Two ballot sets of more than half the total
weight share a ballot.
-/

section WeightOf
variable {α M : Type*} [AddCommMonoid M]

/-- The weight of the ballots of `l` that satisfy `p`. -/
def weightOf (p : α → Bool) (w : α → M) (l : List α) : M := ((l.filter p).map w).sum

@[simp] theorem weightOf_nil (p : α → Bool) (w : α → M) : weightOf p w [] = 0 := rfl

theorem weightOf_cons (p : α → Bool) (w : α → M) (a : α) (l : List α) :
    weightOf p w (a :: l) = (if p a then w a else 0) + weightOf p w l := by
  unfold weightOf; cases h : p a <;> simp [h]

theorem weightOf_append (p : α → Bool) (w : α → M) (l l' : List α) :
    weightOf p w (l ++ l') = weightOf p w l + weightOf p w l' := by
  simp [weightOf]

theorem weightOf_concat (p : α → Bool) (w : α → M) (l : List α) (a : α) :
    weightOf p w (l ++ [a]) = weightOf p w l + if p a then w a else 0 := by
  simp [weightOf_append, weightOf_cons]

theorem weightOf_perm {p : α → Bool} {w : α → M} {l l' : List α} (h : l.Perm l') :
    weightOf p w l = weightOf p w l' :=
  ((h.filter p).map w).sum_eq

theorem weightOf_or {p q : α → Bool} {w : α → M} {l : List α} (h : ∀ a ∈ l, p a → q a → False) :
    weightOf (fun a => p a || q a) w l = weightOf p w l + weightOf q w l := by
  induction l with
  | nil => simp
  | cons a l ih =>
    have ha := h a (List.mem_cons_self ..)
    simp only [weightOf_cons, ih fun b hb => h b (List.mem_cons_of_mem _ hb)]
    cases hp : p a <;> cases hq : q a
    · simp
    · simp [add_left_comm]
    · simp [add_assoc]
    · exact (ha hp hq).elim

theorem weightOf_map {β : Type*} (p : β → Bool) (w : β → M) (f : α → β) (l : List α) :
    weightOf p w (l.map f) = weightOf (fun a => p (f a)) (fun a => w (f a)) l := by
  rw [weightOf, weightOf, List.filter_map, List.map_map]; rfl

theorem weightOf_filter {p q : α → Bool} {w : α → M} {l : List α} (h : ∀ a ∈ l, p a → q a) :
    weightOf p w (l.filter q) = weightOf p w l := by
  rw [weightOf, weightOf, List.filter_filter]
  congr 2
  refine List.filter_congr fun a ha => ?_
  cases hp : p a
  · simp
  · simp [h a ha hp]

theorem weightOf_eq_zero {p : α → Bool} {w : α → M} {l : List α} (h : ∀ a ∈ l, p a = false) :
    weightOf p w l = 0 := by
  rw [weightOf, List.filter_eq_nil_iff.2 fun a ha => by simp [h a ha]]; rfl

end WeightOf

section Quorum
variable {α : Type*} {p q : α → Bool} {w : α → Nat} {l : List α}

theorem weightOf_le_sum (p : α → Bool) (w : α → Nat) (l : List α) : weightOf p w l ≤ (l.map w).sum :=
  (List.filter_sublist.map w).sum_le_sum fun _ _ => Nat.zero_le _

theorem weightOf_le_of_imp (h : ∀ a ∈ l, p a → q a) : weightOf p w l ≤ weightOf q w l := by
  rw [← weightOf_filter h]
  refine (weightOf_le_sum p w (l.filter q)).trans (Nat.le_of_eq ?_)
  rfl

theorem exists_common_of_quorums {t : Nat} (hp : t ≤ weightOf p w l) (hq : t ≤ weightOf q w l)
    (ht : (l.map w).sum < 2 * t) : ∃ a ∈ l, p a ∧ q a := by
  by_contra hno
  have hdisj : ∀ a ∈ l, p a → q a → False := fun a ha h1 h2 => hno ⟨a, ha, h1, h2⟩
  have hle := weightOf_le_sum (fun a => p a || q a) w l
  rw [weightOf_or hdisj] at hle
  omega

theorem sum_map_le_of_nodup {ks ks' : List α} (hnd : ks.Nodup) (hsub : ∀ k ∈ ks, k ∈ ks') :
    (ks.map w).sum ≤ (ks'.map w).sum := by
  obtain ⟨l', hperm, hsl⟩ := hnd.subperm hsub
  rw [← (hperm.map w).sum_eq]
  exact (hsl.map w).sum_le_sum fun _ _ => Nat.zero_le _

end Quorum

section UInt64
variable {α : Type*}

theorem toNat_sum {l : List UInt64} (h : (l.map UInt64.toNat).sum < 2 ^ 64) :
    l.sum.toNat = (l.map UInt64.toNat).sum := by
  induction l with
  | nil => rfl
  | cons a l ih =>
    simp only [List.map_cons, List.sum_cons] at h ⊢
    rw [UInt64.toNat_add, ih (by omega), Nat.mod_eq_of_lt h]

theorem toNat_weightOf {p : α → Bool} {w : α → UInt64} {l : List α}
    (h : (l.map fun a => (w a).toNat).sum < 2 ^ 64) :
    (weightOf p w l).toNat = weightOf p (fun a => (w a).toNat) l := by
  have hle := weightOf_le_sum p (fun a => (w a).toNat) l
  simp only [weightOf] at hle ⊢
  rw [toNat_sum (by rw [List.map_map]; exact lt_of_le_of_lt hle h), List.map_map]
  rfl

end UInt64
