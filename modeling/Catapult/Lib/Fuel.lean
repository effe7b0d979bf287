import Mathlib.Algebra.Group.Nat.Defs
import Mathlib.Data.List.Basic

/-!
# Recursion with fuel

A function that is only defined where its recursion ends is a function of its fuel, which returns `none` when it runs
out. `Ends f a`: with enough fuel `f` returns `a`.
-/

namespace Catapult

variable {α β : Type}

def Ends (f : Nat → Option α) (a : α) : Prop := ∃ enough, ∀ fuel, enough ≤ fuel → f fuel = some a

namespace Ends

variable {f g : Nat → Option α} {a b : α}

theorem of_forall (h : ∀ fuel, f fuel = some a) : Ends f a := ⟨0, fun fuel _ => h fuel⟩

theorem of_succ (h : Ends g a) (hf : ∀ fuel, f (fuel + 1) = g fuel) : Ends f a := by
  obtain ⟨enough, h⟩ := h
  refine ⟨enough + 1, fun fuel hfuel => ?_⟩
  obtain ⟨fuel, rfl⟩ := Nat.exists_eq_add_of_le' (Nat.le_of_add_left_le hfuel)
  rw [hf]
  exact h fuel (Nat.le_of_succ_le_succ hfuel)

theorem unique (ha : Ends f a) (hb : Ends f b) : a = b := by
  obtain ⟨m, ha⟩ := ha
  obtain ⟨n, hb⟩ := hb
  have heq := (ha _ (Nat.le_max_left m n)).symm.trans (hb _ (Nat.le_max_right m n))
  exact Option.some_inj.1 heq

theorem iff_eq (ha : Ends f a) : Ends f b ↔ a = b := by
  constructor
  · intro hb
    exact ha.unique hb
  · rintro rfl
    exact ha

theorem bind {k : Nat → α → Option β} {b : β} (ha : Ends f a) (hb : Ends (fun fuel => k fuel a) b) :
    Ends (fun fuel => f fuel >>= k fuel) b := by
  obtain ⟨m, ha⟩ := ha
  obtain ⟨n, hb⟩ := hb
  refine ⟨max m n, fun fuel hfuel => ?_⟩
  change f fuel >>= k fuel = some b
  rw [ha fuel (Nat.le_trans (Nat.le_max_left m n) hfuel)]
  exact hb fuel (Nat.le_trans (Nat.le_max_right m n) hfuel)

theorem exceptBind {ε : Type} {x : Nat → ExceptT ε Option α} {k : Nat → α → ExceptT ε Option β} {result : Except ε β}
    (ha : Ends (fun fuel => (x fuel).run) (.ok a)) (hb : Ends (fun fuel => (k fuel a).run) result) :
    Ends (fun fuel => (x fuel >>= k fuel).run) result :=
  @Ends.bind _ _ _ _ (fun fuel => ExceptT.bindCont (k fuel)) _ ha hb

theorem map {k : α → β} (ha : Ends f a) : Ends (fun fuel => return k (← f fuel)) (k a) :=
  ha.bind (.of_forall fun _ => rfl)

theorem foldlM {step : Nat → β → α → Option β} {next : β → α → β} (l : List α) (b : β)
    (h : ∀ a ∈ l, ∀ b, Ends (fun fuel => step fuel b a) (next b a)) :
    Ends (fun fuel => l.foldlM (step fuel) b) (l.foldl next b) := by
  induction l generalizing b with
  | nil => exact .of_forall fun _ => rfl
  | cons a l ih =>
    simp only [List.foldlM_cons, List.foldl_cons]
    exact (h a List.mem_cons_self b).bind (ih _ fun a ha => h a (List.mem_cons_of_mem _ ha))

theorem allM {p : Nat → α → Option Bool} {q : α → Bool} (l : List α) (h : ∀ a ∈ l, Ends (fun fuel => p fuel a) (q a)) :
    Ends (fun fuel => l.allM (p fuel)) (l.all q) := by
  induction l with
  | nil => exact .of_forall fun _ => rfl
  | cons a l ih =>
    simp only [List.allM, List.all_cons]
    refine (h a List.mem_cons_self).bind ?_
    cases hq : q a with
    | false => exact .of_forall fun _ => rfl
    | true => exact ih fun a ha => h a (List.mem_cons_of_mem _ ha)

end Ends

theorem exists_of_exceptBind_eq_ok {ε : Type} {x : ExceptT ε Option α} {k : α → ExceptT ε Option β} {b : β}
    (h : (x >>= k).run = some (.ok b)) : ∃ a, x.run = some (.ok a) ∧ (k a).run = some (.ok b) := by
  change x.run >>= ExceptT.bindCont k = some (.ok b) at h
  obtain ⟨result, hresult, hcont⟩ := Option.bind_eq_some_iff.1 h
  cases result with
  | ok a => exact ⟨a, hresult, hcont⟩
  | error e => cases hcont

/-!
## Loops with a 32 bit index

`for (auto i = 0u; i < values.size(); ++i)` goes over a vector. It ends when the body throws or after the last value; a
vector of 2^32 values has no value that the index does not reach, and the loop goes over it again and again.
-/

variable {ε σ : Type}

/-- The iterations that are left at `i`, at most `fuel` of them. -/
def indexLoop (body : σ → α → Except ε σ) (values : List α) : Nat → UInt32 → σ → ExceptT ε Option σ
  | 0, _, _ => ExceptT.mk none
  | fuel + 1, i, s =>
    match values[i.toNat]? with
    | none => return s
    | some value => do
      let s' ← ExceptT.mk (some (body s value))
      indexLoop body values fuel (i + 1) s'

variable {body : σ → α → Except ε σ} {values : List α}

/-- By induction on the values that are left. -/
theorem indexLoop_from (hlength : values.length < 2 ^ 32) {fuel : Nat} {i : UInt32} {s s' : σ}
    (hfuel : values.length - i.toNat < fuel) (h : (values.drop i.toNat).foldlM body s = .ok s') :
    indexLoop body values fuel i s = pure s' := by
  induction fuel generalizing i s with
  | zero => omega
  | succ fuel ih =>
    rw [indexLoop]
    cases hvalue : values[i.toNat]? with
    | none =>
      rw [List.getElem?_eq_none_iff] at hvalue
      rw [List.drop_eq_nil_of_le hvalue] at h
      cases h
      rfl
    | some value =>
      obtain ⟨hlt, hget⟩ := List.getElem?_eq_some_iff.1 hvalue
      have hnext : (i + 1).toNat = i.toNat + 1 := by
        rw [UInt32.toNat_add, UInt32.toNat_one, Nat.mod_eq_of_lt (by omega)]
      rw [List.drop_eq_getElem_cons hlt, hget, List.foldlM_cons] at h
      cases hbody : body s value with
      | error e =>
        rw [hbody] at h
        cases h
      | ok next =>
        rw [hbody] at h
        have hloop := ih (i := i + 1) (by omega) (by rw [hnext]; exact h)
        simp only [hbody]
        exact hloop

theorem indexLoop_ends (hlength : values.length < 2 ^ 32) {s s' : σ} (h : values.foldlM body s = .ok s') {fuel : Nat}
    (hfuel : values.length < fuel) : indexLoop body values fuel 0 s = pure s' :=
  indexLoop_from hlength hfuel h

theorem indexLoop_none (hlength : 2 ^ 32 ≤ values.length) (h : ∀ s, ∀ value ∈ values, ∃ s', body s value = .ok s')
    (fuel : Nat) (i : UInt32) (s : σ) : indexLoop body values fuel i s = ExceptT.mk none := by
  induction fuel generalizing i s with
  | zero => rfl
  | succ fuel ih =>
    have hlt : i.toNat < values.length := Nat.lt_of_lt_of_le i.toNat_lt hlength
    obtain ⟨s', hbody⟩ := h s values[i.toNat] (List.getElem_mem hlt)
    rw [indexLoop, List.getElem?_eq_getElem hlt]
    simp only [hbody]
    exact ih (i + 1) s'

theorem run_indexLoop_ne_ok (hlength : 2 ^ 32 ≤ values.length) (fuel : Nat) (i : UInt32) (s s' : σ) :
    (indexLoop body values fuel i s).run ≠ some (.ok s') := by
  induction fuel generalizing i s with
  | zero => exact fun h => nomatch h
  | succ fuel ih =>
    intro h
    have hlt : i.toNat < values.length := Nat.lt_of_lt_of_le i.toNat_lt hlength
    rw [indexLoop, List.getElem?_eq_getElem hlt] at h
    obtain ⟨next, -, hrest⟩ := exists_of_exceptBind_eq_ok h
    exact ih (i + 1) next hrest

end Catapult
