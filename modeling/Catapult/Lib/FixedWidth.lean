import Mathlib.Algebra.BigOperators.Group.List.Basic
import Mathlib.Algebra.GroupWithZero.Nat

/-!
# Partial computations

A computation that can fail `Yields` a result under a condition when it fails without the condition. Conditions and
results are composed step by step. It is `Below` another one when this has the same result, or more results.
-/

namespace Catapult
variable {α β : Type}

/-- The result is `g`, and there is one exactly when `P` holds. -/
def Yields (o : Option α) (P : Prop) (g : α) : Prop := ∀ x, o = some x ↔ P ∧ x = g

namespace Yields
variable {o : Option α} {P Q : Prop} {g : α}

theorem of_some (g : α) : Yields (some g) True g := fun x => by simp [eq_comm]

theorem ite (P : Prop) [Decidable P] (g : α) : Yields (if P then some g else none) P g := by
  intro x
  split <;> simp [*, eq_comm]

theorem congr (h : Yields o P g) (hP : P ↔ Q) : Yields o Q g := fun x => (h x).trans (and_congr_left' hP)

theorem eq_some_iff (h : Yields o P g) : o = some g ↔ P := (h g).trans (and_iff_left rfl)

theorem of_holds (h : Yields o P g) (hP : P) : Yields o True g := h.congr (iff_true_intro hP)

theorem bind {f : α → Option β} {b : β} (h : Yields o P g) (hf : Yields (f g) Q b) :
    Yields (o >>= f) (P ∧ Q) b := by
  intro x
  rw [Option.bind_eq_bind, Option.bind_eq_some_iff, and_assoc]
  constructor
  · rintro ⟨y, hy, hx⟩
    obtain ⟨hP, rfl⟩ := (h y).1 hy
    exact ⟨hP, (hf x).1 hx⟩
  · rintro ⟨hP, hx⟩
    exact ⟨g, (h g).2 ⟨hP, rfl⟩, (hf x).2 hx⟩

theorem bind_of_true {f : α → Option β} {b : β} (h : Yields o True g) (hf : Yields (f g) Q b) :
    Yields (o >>= f) Q b :=
  (h.bind hf).congr (iff_of_eq (true_and Q))

theorem mapM {f : α → Option β} {p : α → Prop} {g : α → β} {l : List α}
    (h : ∀ a ∈ l, Yields (f a) (p a) (g a)) : Yields (l.mapM f) (∀ a ∈ l, p a) (l.map g) := by
  induction l with
  | nil =>
    rw [List.mapM_nil]
    exact (of_some []).congr (by simp)
  | cons a l ih =>
    obtain ⟨ha, hl⟩ := List.forall_mem_cons.1 h
    rw [List.mapM_cons]
    have hrest : Yields (l.mapM f >>= fun bs => pure (g a :: bs)) ((∀ a ∈ l, p a) ∧ True) (g a :: l.map g) :=
      (ih hl).bind (of_some _)
    exact (ha.bind hrest).congr (by simp)

theorem foldlM_add {add : Nat → Nat → Option Nat} {bound : Nat} (hadd : ∀ s n, Yields (add s n) (s + n < bound) (s + n))
    (v : α → Nat) (l : List α) {s : Nat} (hs : s < bound) :
    Yields (l.foldlM (fun s a => add s (v a)) s) (s + (l.map v).sum < bound) (s + (l.map v).sum) := by
  induction l generalizing s with
  | nil => exact (of_some s).congr (by simpa using hs)
  | cons a l ih =>
    rw [List.foldlM_cons, List.map_cons, List.sum_cons, ← Nat.add_assoc]
    by_cases hle : s + v a < bound
    · exact ((hadd s (v a)).of_holds hle).bind_of_true (ih hle)
    · intro x
      refine iff_of_false ?_ fun h => hle (Nat.lt_of_le_of_lt (Nat.le_add_right _ _) h.1)
      rw [Option.bind_eq_bind, Option.bind_eq_some_iff]
      rintro ⟨y, hy, -⟩
      exact hle ((hadd s (v a) y).1 hy).1

end Yields

def Below (o o' : Option α) : Prop := ∀ x, o = some x → o' = some x

namespace Below
variable {o o' : Option α}

theorem refl (o : Option α) : Below o o := fun _ h => h

theorem bind {f f' : α → Option β} (h : Below o o') (hf : ∀ a, Below (f a) (f' a)) :
    Below (o >>= f) (o' >>= f') := by
  intro x hx
  rw [Option.bind_eq_bind, Option.bind_eq_some_iff] at hx ⊢
  obtain ⟨y, hy, hx⟩ := hx
  exact ⟨y, h y hy, hf y x hx⟩

theorem mapM {f f' : α → Option β} (h : ∀ a, Below (f a) (f' a)) (l : List α) : Below (l.mapM f) (l.mapM f') := by
  induction l with
  | nil => exact refl _
  | cons a l ih =>
    rw [List.mapM_cons, List.mapM_cons]
    exact (h a).bind fun _ => ih.bind fun _ => refl _

theorem foldlM {f f' : β → α → Option β} (h : ∀ b a, Below (f b a) (f' b a)) (l : List α) (b : β) :
    Below (l.foldlM f b) (l.foldlM f' b) := by
  induction l generalizing b with
  | nil => exact refl _
  | cons a l ih =>
    rw [List.foldlM_cons, List.foldlM_cons]
    exact (h b a).bind ih

end Below

/-!
## Arithmetic of fixed width

The same calculation can be done with numbers that wrap around (`wrapping`) or with an error in place of each wrap
(`checked`). A result of the checked calculation is one of the wrapping calculation, too.
-/

structure Arithmetic where
  uint64 : Nat → Option Nat
  uint128 : Nat → Option Nat
  /-- The difference of two numbers of 64 bits. -/
  sub64 : Nat → Nat → Option Nat

/-- Nothing is divided by zero. -/
def divide (n d : Nat) : Option Nat := if d = 0 then none else some (n / d)

theorem divide_yields (n d : Nat) : Yields (divide n d) (d ≠ 0) (n / d) := by
  intro x
  rw [divide]
  split <;> simp [*, eq_comm]

namespace Arithmetic

/-- The arithmetic of the machine. A cast takes the low bits, too. -/
def wrapping : Arithmetic where
  uint64 n := some (n % 2 ^ 64)
  uint128 n := some (n % 2 ^ 128)
  sub64 n m := some ((n + (2 ^ 64 - m)) % 2 ^ 64)

def checked : Arithmetic where
  uint64 n := if n < 2 ^ 64 then some n else none
  uint128 n := if n < 2 ^ 128 then some n else none
  sub64 n m := if m ≤ n then some (n - m) else none

def sum {α : Type} (arith : Arithmetic) (value : α → Nat) (l : List α) : Option Nat :=
  l.foldlM (fun s a => arith.uint64 (s + value a)) 0

theorem exists_sum_wrapping {α : Type} (value : α → Nat) (l : List α) : ∃ s, wrapping.sum value l = some s := by
  have hfold : ∀ s, ∃ s', l.foldlM (fun s a => wrapping.uint64 (s + value a)) s = some s' := by
    induction l with
    | nil => exact fun s => ⟨s, rfl⟩
    | cons a l ih => exact fun s => ih _
  exact hfold 0

theorem uint64_yields (n : Nat) : Yields (checked.uint64 n) (n < 2 ^ 64) n := .ite _ n

theorem uint128_yields (n : Nat) : Yields (checked.uint128 n) (n < 2 ^ 128) n := .ite _ n

theorem sub64_yields (n m : Nat) : Yields (checked.sub64 n m) (m ≤ n) (n - m) := .ite _ _

theorem sum_yields {α : Type} (value : α → Nat) (l : List α) :
    Yields (checked.sum value l) ((l.map value).sum < 2 ^ 64) (l.map value).sum := by
  have hsum := Yields.foldlM_add (fun s n => uint64_yields (s + n)) value l (s := 0) (by decide)
  rwa [Nat.zero_add] at hsum

theorem uint64_below (n : Nat) : Below (checked.uint64 n) (wrapping.uint64 n) := by
  intro x hx
  obtain ⟨hlt, rfl⟩ := (uint64_yields n x).1 hx
  exact congrArg some (Nat.mod_eq_of_lt hlt)

theorem uint128_below (n : Nat) : Below (checked.uint128 n) (wrapping.uint128 n) := by
  intro x hx
  obtain ⟨hlt, rfl⟩ := (uint128_yields n x).1 hx
  exact congrArg some (Nat.mod_eq_of_lt hlt)

theorem sub64_below {n m : Nat} (hn : n < 2 ^ 64) : Below (checked.sub64 n m) (wrapping.sub64 n m) := by
  intro x hx
  obtain ⟨hle, rfl⟩ := (sub64_yields n m x).1 hx
  refine congrArg some ?_
  omega

theorem sum_below {α : Type} (value : α → Nat) (l : List α) : Below (checked.sum value l) (wrapping.sum value l) :=
  Below.foldlM (fun _ _ => uint64_below _) l 0

end Arithmetic

end Catapult
