import Mathlib.Data.List.Chain
import Mathlib.Data.List.TakeWhile
import Mathlib.Order.Lattice

/-!
# Step functions

A list of changes with descending keys is a step function: its value at a key is the one of the latest change at or
before the key (`valueAt`). A list is `Canonical` when every change changes the value, and then the function alone
tells where the changes are.
-/

namespace StepFunction
variable {K V : Type*} [LinearOrder K]

abbrev Descending (changes : List (K × V)) : Prop := changes.Pairwise fun a b => b.1 < a.1

/-- The value of the latest change at or before `q`. -/
def valueAt (d : V) (changes : List (K × V)) (q : K) : V :=
  (changes.find? fun e => decide (e.1 ≤ q)).elim d Prod.snd

def top (d : V) (changes : List (K × V)) : V := changes.head?.elim d Prod.snd

/-- Every change changes the value. One at the least key is not compared with the value before all changes. -/
structure Canonical (d : V) (changes : List (K × V)) : Prop where
  chain : changes.IsChain fun a b => a.2 ≠ b.2
  last : ∀ e ∈ changes.getLast?, ¬IsMin e.1 → e.2 ≠ d

section Splits
variable {l : List (K × V)} {h : K}

theorem lt_of_mem_takeWhile {e : K × V} (he : e ∈ l.takeWhile fun e => decide (h < e.1)) : h < e.1 := by
  simpa using List.mem_takeWhile_imp he

theorem not_of_mem_dropWhile {p : K → Bool} (hl : Descending l) (hp : ∀ k k', k' < k → p k = false → p k' = false)
    {e : K × V} (he : e ∈ l.dropWhile fun e => p e.1) : p e.1 = false := by
  cases hdrop : l.dropWhile fun e => p e.1 with
  | nil =>
    rw [hdrop] at he
    cases he
  | cons first rest =>
    have hfirst : p first.1 = false := by
      have hhead := List.head?_dropWhile_not (fun e : K × V => p e.1) l
      rw [hdrop, List.head?_cons] at hhead
      simpa using hhead
    have hdesc : Descending (first :: rest) := hdrop ▸ hl.sublist (List.dropWhile_sublist _)
    rw [hdrop] at he
    rcases List.mem_cons.1 he with rfl | he
    · exact hfirst
    · exact hp _ _ ((List.pairwise_cons.1 hdesc).1 e he) hfirst

theorem le_of_mem_dropWhile (hl : Descending l) {e : K × V} (he : e ∈ l.dropWhile fun e => decide (h < e.1)) :
    e.1 ≤ h := by
  have hnot := not_of_mem_dropWhile (p := fun k => decide (h < k)) hl
    (fun k k' hlt hk => by simpa using hlt.le.trans (by simpa using hk)) he
  simpa using hnot

theorem lt_of_mem_dropWhile (hl : Descending l) {e : K × V} (he : e ∈ l.dropWhile fun e => decide (h ≤ e.1)) :
    e.1 < h := by
  have hnot := not_of_mem_dropWhile (p := fun k => decide (h ≤ k)) hl
    (fun k k' hlt hk => by simpa using hlt.trans (by simpa using hk)) he
  simpa using hnot

theorem descending_insert (hl : Descending l) (h : K) (v : V) :
    Descending ((l.takeWhile fun e => decide (h < e.1)) ++ (h, v) :: l.dropWhile fun e => decide (h ≤ e.1)) := by
  refine List.pairwise_append.2 ⟨hl.sublist (List.takeWhile_sublist _), List.pairwise_cons.2 ⟨fun e he => ?_, ?_⟩, ?_⟩
  · exact lt_of_mem_dropWhile hl he
  · exact hl.sublist (List.dropWhile_sublist _)
  · intro a ha b hb
    refine lt_of_le_of_lt ?_ (lt_of_mem_takeWhile ha)
    rcases List.mem_cons.1 hb with rfl | hb
    · exact le_rfl
    · exact (lt_of_mem_dropWhile hl hb).le

end Splits

section Values
variable {d : V} {l r : List (K × V)} {h q : K}

theorem valueAt_append (d : V) (l r : List (K × V)) (q : K) : valueAt d (l ++ r) q = valueAt (valueAt d r q) l q := by
  rw [valueAt, valueAt, List.find?_append]
  cases l.find? fun e => decide (e.1 ≤ q) <;> rfl

theorem valueAt_of_lt (hlt : ∀ e ∈ l, q < e.1) : valueAt d l q = d := by
  have hnone : l.find? (fun e => decide (e.1 ≤ q)) = none := by
    simpa [List.find?_eq_none] using fun a b hmem => hlt (a, b) hmem
  rw [valueAt, hnone]
  rfl

theorem valueAt_of_le (hle : ∀ e ∈ l, e.1 ≤ q) : valueAt d l q = top d l := by
  cases l with
  | nil => rfl
  | cons e l =>
    rw [valueAt, List.find?_cons_of_pos (by simpa using hle e List.mem_cons_self)]
    rfl

theorem valueAt_append_of_lt (hlt : ∀ e ∈ l, q < e.1) : valueAt d (l ++ r) q = valueAt d r q := by
  rw [valueAt_append, valueAt_of_lt hlt]

theorem valueAt_concat (d : V) (l : List (K × V)) (k q : K) : valueAt d (l ++ [(k, d)]) q = valueAt d l q := by
  rw [valueAt_append, valueAt, valueAt]
  by_cases hk : k ≤ q <;> simp [hk, valueAt]

theorem valueAt_default {d' : V} (hmem : ∃ e ∈ l, e.1 ≤ q) : valueAt d l q = valueAt d' l q := by
  obtain ⟨e, he, hle⟩ := hmem
  have hsome : (l.find? fun e => decide (e.1 ≤ q)).isSome = true :=
    List.find?_isSome.2 ⟨e, he, by simpa using hle⟩
  obtain ⟨e', he'⟩ := Option.isSome_iff_exists.1 hsome
  rw [valueAt, valueAt, he']
  rfl

theorem valueAt_spec (hl : Descending l) (q : K) : (∀ e ∈ l, q < e.1) ∧ valueAt d l q = d ∨
    ∃ e ∈ l, e.1 ≤ q ∧ (∀ e' ∈ l, e'.1 ≤ q → e'.1 ≤ e.1) ∧ valueAt d l q = e.2 := by
  induction l with
  | nil => exact .inl ⟨by simp, rfl⟩
  | cons a l ih =>
    obtain ⟨ha, hl⟩ := List.pairwise_cons.1 hl
    by_cases hle : a.1 ≤ q
    · refine .inr ⟨a, List.mem_cons_self, hle, fun e he _ => ?_, ?_⟩
      · rcases List.mem_cons.1 he with rfl | he
        · exact le_rfl
        · exact (ha e he).le
      · rw [valueAt, List.find?_cons_of_pos (by simpa using hle)]
        rfl
    · have hvalue : valueAt d (a :: l) q = valueAt d l q := by
        rw [valueAt, valueAt, List.find?_cons_of_neg (by simpa using hle)]
      rw [hvalue]
      refine (ih hl).imp (fun ⟨hlt, heq⟩ => ⟨?_, heq⟩) fun ⟨e, he, hq, hmax, heq⟩ => ⟨e, ?_, hq, ?_, heq⟩
      · exact List.forall_mem_cons.2 ⟨not_le.1 hle, hlt⟩
      · exact List.mem_cons_of_mem _ he
      · exact List.forall_mem_cons.2 ⟨fun hcontra => absurd hcontra hle, hmax⟩

end Values

section Canonical
variable {d : V} {l r : List (K × V)} {h q : K}

theorem canonical_nil (d : V) : Canonical (K := K) d [] := ⟨List.isChain_nil, fun _ hmem => nomatch hmem⟩

theorem Canonical.append (hl : l.IsChain fun a b => a.2 ≠ b.2) (hr : Canonical d r)
    (hlast : ∀ e ∈ l.getLast?, e.2 ≠ top d r) : Canonical d (l ++ r) := by
  refine ⟨List.isChain_append.2 ⟨hl, hr.chain, fun a ha b hb => ?_⟩, fun e he hmin => ?_⟩
  · have hne := hlast a ha
    rwa [top, Option.mem_def.1 hb] at hne
  · cases r with
    | nil =>
      rw [List.append_nil] at he
      exact hlast e he
    | cons b r =>
      rw [List.getLast?_append_of_ne_nil _ (List.cons_ne_nil b r)] at he
      exact hr.last e he hmin

theorem Canonical.last_ne (hcan : Canonical d (l ++ r)) (hl : ∀ e ∈ l, h < e.1) : ∀ e ∈ l.getLast?, e.2 ≠ top d r := by
  intro e he
  cases r with
  | nil =>
    rw [List.append_nil] at hcan
    refine hcan.last e he fun hmin => ?_
    exact hmin.not_lt (hl e (List.mem_of_getLast? he))
  | cons b r => exact (List.isChain_append.1 hcan.chain).2.2 e he b rfl

theorem Canonical.left (hcan : Canonical d (l ++ r)) : l.IsChain fun a b => a.2 ≠ b.2 :=
  (List.isChain_append.1 hcan.chain).1

theorem Canonical.right (hcan : Canonical d (l ++ r)) : Canonical d r := by
  refine ⟨(List.isChain_append.1 hcan.chain).2.1, fun e he hmin => ?_⟩
  cases r with
  | nil => cases he
  | cons b r =>
    refine hcan.last e ?_ hmin
    rwa [List.getLast?_append_of_ne_nil _ (List.cons_ne_nil b r)]

theorem constant_iff (hdesc : Descending l) (hcan : Canonical d (l ++ r)) (hl : ∀ e ∈ l, h < e.1)
    (hr : ∀ e ∈ r, e.1 ≤ h) :
    (∀ k, h ≤ k → k ≤ q → valueAt d (l ++ r) k = valueAt d (l ++ r) h) ↔ ∀ e ∈ l, q < e.1 := by
  have htop : ∀ k, h ≤ k → valueAt d r k = top d r := fun k hk => valueAt_of_le fun e he => (hr e he).trans hk
  constructor
  · intro hconst e he
    by_contra hnot
    -- the first change after `h` has another value
    obtain ⟨init, last, rfl⟩ := List.eq_nil_or_concat' l |>.resolve_left (List.ne_nil_of_mem he)
    obtain ⟨-, -, hbetween⟩ := List.pairwise_append.1 hdesc
    have hle : last.1 ≤ q := by
      refine le_trans ?_ (not_lt.1 hnot)
      rcases List.mem_append.1 he with he | he
      · exact (hbetween e he last List.mem_cons_self).le
      · rw [List.mem_singleton.1 he]
    have hgt : h < last.1 := hl last (by simp)
    have hinit : ∀ e ∈ init, last.1 < e.1 := fun e he => hbetween e he last List.mem_cons_self
    have hvalue : valueAt d ((init ++ [last]) ++ r) last.1 = last.2 := by
      rw [List.append_assoc, valueAt_append_of_lt hinit, valueAt, List.singleton_append,
        List.find?_cons_of_pos (by simp)]
      rfl
    have hold := hconst last.1 hgt.le hle
    rw [hvalue, valueAt_append_of_lt hl, htop h le_rfl] at hold
    exact hcan.last_ne hl last (by simp) hold
  · intro hlt k hhk hkq
    rw [valueAt_append_of_lt fun e he => hkq.trans_lt (hlt e he), valueAt_append_of_lt hl, htop k hhk, htop h le_rfl]

end Canonical

end StepFunction
