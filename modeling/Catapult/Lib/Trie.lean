import Mathlib.Data.List.Basic

/-!
# Compact tries

A trie over keys of one length: a leaf holds the rest of its key, a branch a path that all its keys share and a child
for each next digit. A `Compact` trie has at least two children at every branch. `insert` and `erase` keep tries
compact, and a compact trie is determined by the map it represents, so it does not remember how it was built.
-/

section Split
variable {α : Type*} [DecidableEq α]

def splitCommon : List α → List α → List α × List α × List α
  | a :: p, b :: k =>
    if a = b then (a :: (splitCommon p k).1, (splitCommon p k).2.1, (splitCommon p k).2.2) else ([], a :: p, b :: k)
  | p, k => ([], p, k)

theorem splitCommon_append (p k : List α) :
    p = (splitCommon p k).1 ++ (splitCommon p k).2.1 ∧ k = (splitCommon p k).1 ++ (splitCommon p k).2.2 := by
  induction p generalizing k with
  | nil => simp [splitCommon]
  | cons a p ih =>
    cases k with
    | nil => simp [splitCommon]
    | cons b k =>
      rw [splitCommon]
      split
      · rename_i hab
        obtain ⟨h1, h2⟩ := ih k
        exact ⟨congrArg (a :: ·) h1, by rw [← hab]; exact congrArg (a :: ·) h2⟩
      · exact ⟨rfl, rfl⟩

theorem splitCommon_ne {p k q p' k' : List α} {a b : α} (h : splitCommon p k = (q, a :: p', b :: k')) : a ≠ b := by
  induction p generalizing k q with
  | nil => simp [splitCommon] at h
  | cons x p ih =>
    cases k with
    | nil => simp [splitCommon] at h
    | cons y k =>
      rw [splitCommon] at h
      split at h
      · simp only [Prod.mk.injEq] at h
        exact ih (Prod.ext rfl (Prod.ext h.2.1 h.2.2))
      · rename_i hxy
        simp only [Prod.mk.injEq, List.cons.injEq] at h
        obtain ⟨-, ⟨rfl, -⟩, rfl, -⟩ := h
        exact hxy

@[simp] theorem splitCommon_self_append (p k : List α) : splitCommon p (p ++ k) = (p, [], k) := by
  induction p with
  | nil => simp [splitCommon]
  | cons a p ih => simp [splitCommon, ih]

theorem splitCommon_cases (p k : List α) :
    (∃ r, k = p ++ r ∧ splitCommon p k = (p, [], r)) ∨
    (∃ a p', p = k ++ a :: p' ∧ splitCommon p k = (k, a :: p', [])) ∨
    (∃ q a p' b k', a ≠ b ∧ p = q ++ a :: p' ∧ k = q ++ b :: k' ∧ splitCommon p k = (q, a :: p', b :: k')) := by
  obtain ⟨hp, hk⟩ := splitCommon_append p k
  obtain ⟨q, p', k', hs⟩ : ∃ q p' k', splitCommon p k = (q, p', k') := ⟨_, _, _, rfl⟩
  rw [hs] at hp hk
  simp only at hp hk
  cases p' with
  | nil =>
    rw [List.append_nil] at hp
    subst hp
    exact .inl ⟨k', hk, hs⟩
  | cons a p' =>
    cases k' with
    | nil =>
      rw [List.append_nil] at hk
      subst hk
      exact .inr (.inl ⟨a, p', hp, hs⟩)
    | cons b k' => exact .inr (.inr ⟨q, a, p', b, k', splitCommon_ne hs, hp, hk, hs⟩)

theorem splitCommon_cases_of_length_eq {p k : List α} (hlen : p.length = k.length) :
    (k = p ∧ splitCommon p k = (p, [], [])) ∨
    ∃ q a p' b k', a ≠ b ∧ p = q ++ a :: p' ∧ k = q ++ b :: k' ∧ splitCommon p k = (q, a :: p', b :: k') := by
  rcases splitCommon_cases p k with ⟨r, rfl, hs⟩ | ⟨a, p', rfl, -⟩ | hfork
  · have hr : r = [] := by rw [List.length_append] at hlen; exact List.length_eq_zero_iff.1 (by omega)
    subst hr
    exact .inl ⟨List.append_nil p, hs⟩
  · simp only [List.length_append, List.length_cons] at hlen; omega
  · exact .inr hfork

end Split

/-- A trie with digits `α` and values `V`. -/
inductive Trie (α V : Type*) where
  | empty
  | leaf (path : List α) (value : V)
  | branch (path : List α) (children : α → Trie α V)

namespace Trie
variable {α V : Type*} [DecidableEq α] {t t' : Trie α V} {n m : Nat} {p k : List α} {c : α → Trie α V} {v : V}

def lookup : Trie α V → List α → Option V
  | empty, _ => none
  | leaf p v, k => if k = p then some v else none
  | branch p c, k =>
    match (splitCommon p k).2 with
    | ([], i :: r) => (c i).lookup r
    | _ => none

@[simp] theorem lookup_empty (k : List α) : (empty : Trie α V).lookup k = none := rfl

theorem lookup_leaf (p : List α) (v : V) (k : List α) : (leaf p v).lookup k = if k = p then some v else none := rfl

@[simp] theorem lookup_branch (p : List α) (c : α → Trie α V) (i : α) (r : List α) :
    (branch p c).lookup (p ++ i :: r) = (c i).lookup r := by
  simp [lookup]

theorem lookup_branch_eq_none (h : ∀ i r, k ≠ p ++ i :: r) : (branch p c).lookup k = none := by
  rw [lookup]
  rcases splitCommon_cases p k with ⟨r, hk, hs⟩ | ⟨a, p', -, hs⟩ | ⟨q, a, p', b, k', -, -, -, hs⟩
  · cases r with
    | nil => rw [hs]
    | cons i r => exact absurd hk (h i r)
  · rw [hs]
  · rw [hs]

theorem lookup_branch_cases (p : List α) (c : α → Trie α V) (k : List α) :
    (∃ i r, k = p ++ i :: r) ∨ ((∀ i r, k ≠ p ++ i :: r) ∧ (branch p c).lookup k = none) := by
  by_cases h : ∃ i r, k = p ++ i :: r
  · exact .inl h
  · have h' : ∀ i r, k ≠ p ++ i :: r := fun i r hk => h ⟨i, r, hk⟩
    exact .inr ⟨h', lookup_branch_eq_none h'⟩

omit [DecidableEq α] in
theorem append_cons_inj {i j : α} {r s : List α} : p ++ i :: r = p ++ j :: s ↔ i = j ∧ r = s := by
  rw [List.append_cancel_left_eq, List.cons.injEq]

/-- A nonempty compact trie of depth `n`. -/
def WF : Trie α V → Nat → Prop
  | empty, _ => False
  | leaf p _, n => p.length = n
  | branch p c, n => ∃ m, n = p.length + 1 + m ∧ (∀ i, c i = empty ∨ (c i).WF m) ∧
      ∃ i j, i ≠ j ∧ c i ≠ empty ∧ c j ≠ empty

/-- A compact trie whose keys have length `n`. -/
def Compact (t : Trie α V) (n : Nat) : Prop := t = empty ∨ t.WF n

section
omit [DecidableEq α]

theorem WF.compact (h : t.WF n) : t.Compact n := .inr h

theorem Compact.wf (h : t.Compact n) (ht : t ≠ empty) : t.WF n := h.resolve_left ht

theorem WF.ne_empty (h : t.WF n) : t ≠ empty := by
  rintro rfl; exact h

end

theorem WF.exists_key (h : t.WF n) : ∃ k v, t.lookup k = some v := by
  induction t generalizing n with
  | empty => exact h.elim
  | leaf p v => exact ⟨p, v, by simp [lookup_leaf]⟩
  | branch p c ih =>
    obtain ⟨m, -, hc, i, -, -, hi, -⟩ := h
    obtain ⟨k, v, hk⟩ := ih i ((hc i).resolve_left hi)
    exact ⟨p ++ i :: k, v, by rw [lookup_branch, hk]⟩

theorem Compact.eq_empty_iff (h : t.Compact n) : t = empty ↔ ∀ k, t.lookup k = none := by
  constructor
  · rintro rfl k; rfl
  · intro hnone
    by_contra hne
    obtain ⟨k, v, hk⟩ := (h.wf hne).exists_key
    rw [hnone k] at hk
    cases hk

theorem WF.path_le (h : (branch p c).WF n) {p' : List α} {c' : α → Trie α V}
    (hsub : ∀ k, (branch p c).lookup k ≠ none → (branch p' c').lookup k ≠ none) : p'.length ≤ p.length := by
  obtain ⟨m, -, hc, i, j, hij, hi, hj⟩ := h
  obtain ⟨ki, vi, hki⟩ := ((hc i).resolve_left hi).exists_key
  obtain ⟨kj, vj, hkj⟩ := ((hc j).resolve_left hj).exists_key
  have hstart : ∀ x kx, (c x).lookup kx ≠ none → ∃ y r, p ++ x :: kx = p' ++ y :: r := by
    intro x kx hx
    rcases lookup_branch_cases p' c' (p ++ x :: kx) with h | ⟨-, hnone⟩
    · exact h
    · exact absurd hnone (hsub _ (by rwa [lookup_branch]))
  obtain ⟨yi, ri, hei⟩ := hstart i ki (by simp [hki])
  obtain ⟨yj, rj, hej⟩ := hstart j kj (by simp [hkj])
  by_contra hlt
  -- a longer path would fix the digit after `p`
  have hdigit : ∀ x kx y r, p ++ x :: kx = p' ++ y :: r → p'[p.length]? = some x := by
    intro x kx y r he
    have hget := congrArg (fun l => l[p.length]?) he
    rw [List.getElem?_append_right (Nat.le_refl _), Nat.sub_self, List.getElem?_cons_zero,
      List.getElem?_append_left (by omega)] at hget
    exact hget.symm
  have h1 := hdigit _ _ _ _ hei
  rw [hdigit _ _ _ _ hej] at h1
  exact hij (Option.some.inj h1).symm

theorem WF.not_leaf (h : (branch p c).WF n) {p' : List α} {w : V} :
    ¬ ∀ k, (branch p c).lookup k ≠ none → (leaf p' w).lookup k ≠ none := by
  intro hsub
  obtain ⟨m, -, hc, i, j, hij, hi, hj⟩ := h
  have hkey : ∀ x kx, (c x).lookup kx ≠ none → p ++ x :: kx = p' := by
    intro x kx hx
    have hne := hsub (p ++ x :: kx) (by rwa [lookup_branch])
    rw [lookup_leaf] at hne
    by_contra hno
    exact hne (if_neg hno)
  obtain ⟨ki, vi, hki⟩ := ((hc i).resolve_left hi).exists_key
  obtain ⟨kj, vj, hkj⟩ := ((hc j).resolve_left hj).exists_key
  have he := (hkey i ki (by simp [hki])).trans (hkey j kj (by simp [hkj])).symm
  exact hij (append_cons_inj.1 he).1

theorem WF.eq_of_lookup (h : t.WF n) (h' : t'.WF m) (heq : ∀ k, t.lookup k = t'.lookup k) : t = t' := by
  induction t generalizing t' n m with
  | empty => exact h.elim
  | leaf p v =>
    cases t' with
    | empty => exact h'.elim
    | leaf p' v' =>
      have hp := heq p
      rw [lookup_leaf, lookup_leaf, if_pos rfl] at hp
      split at hp
      · rename_i hpp; rw [hpp, Option.some.inj hp]
      · cases hp
    | branch p' c' => exact (h'.not_leaf fun k hk => by rwa [heq]).elim
  | branch p c ih =>
    cases t' with
    | empty => exact h'.elim
    | leaf p' v' => exact (h.not_leaf fun k hk => by rwa [← heq]).elim
    | branch p' c' =>
      have hlen : p.length = p'.length :=
        Nat.le_antisymm (h'.path_le fun k hk => by rwa [heq]) (h.path_le fun k hk => by rwa [← heq])
      obtain ⟨k, v, hk⟩ := h.exists_key
      have hpp : p = p' := by
        rcases lookup_branch_cases p c k with ⟨i, r, rfl⟩ | ⟨-, hnone⟩
        · rcases lookup_branch_cases p' c' (p ++ i :: r) with ⟨i', r', hk'⟩ | ⟨-, hnone⟩
          · exact (List.append_inj hk' hlen).1
          · rw [heq, hnone] at hk; cases hk
        · rw [hnone] at hk; cases hk
      subst hpp
      obtain ⟨m₁, -, hc, -⟩ := h
      obtain ⟨m₂, -, hc', -⟩ := h'
      have hchild : ∀ i r, (c i).lookup r = (c' i).lookup r := fun i r => by
        have := heq (p ++ i :: r)
        rwa [lookup_branch, lookup_branch] at this
      have hcc : c = c' := by
        funext i
        rcases hc i with hi | hi
        · rw [hi]
          exact ((Compact.eq_empty_iff (hc' i)).2 fun r => by rw [← hchild i, hi]; rfl).symm
        · rcases hc' i with hi' | hi'
          · exact ((Compact.eq_empty_iff (hc i)).2 fun r => by rw [hchild i, hi']; rfl).trans hi'.symm
          · exact ih i hi hi' (hchild i)
      rw [hcc]

theorem Compact.eq_of_lookup (h : t.Compact n) (h' : t'.Compact m) (heq : ∀ k, t.lookup k = t'.lookup k) : t = t' := by
  rcases h with rfl | h
  · exact (h'.eq_empty_iff.2 fun k => (heq k).symm).symm
  · rcases h' with rfl | h'
    · exact h.compact.eq_empty_iff.2 heq
    · exact h.eq_of_lookup h' heq

def fork (p : List α) (a : α) (ta : Trie α V) (b : α) (tb : Trie α V) : Trie α V :=
  branch p (Function.update (Function.update (fun _ => empty) a ta) b tb)

theorem wf_fork {a b : α} {ta tb : Trie α V} (hab : a ≠ b) (ha : ta.WF m) (hb : tb.WF m) :
    (fork p a ta b tb).WF (p.length + 1 + m) := by
  refine ⟨m, rfl, fun i => ?_, a, b, hab, ?_, ?_⟩
  · by_cases hib : i = b
    · subst hib; simpa using .inr hb
    · by_cases hia : i = a
      · subst hia; simpa [hib] using .inr ha
      · simp [hib, hia]
  · simpa [hab] using ha.ne_empty
  · simpa using hb.ne_empty

def insert : Trie α V → List α → V → Trie α V
  | empty, k, v => leaf k v
  | leaf p w, k, v =>
    match splitCommon p k with
    | (q, a :: p', b :: k') => fork q a (leaf p' w) b (leaf k' v)
    | _ => leaf k v
  | branch p c, k, v =>
    match splitCommon p k with
    | (_, [], b :: k') => branch p (Function.update c b ((c b).insert k' v))
    | (q, a :: p', b :: k') => fork q a (branch p' c) b (leaf k' v)
    | _ => branch p c

omit [DecidableEq α] in
theorem WF.exists_rest (h : (branch p c).WF (p ++ k).length) : ∃ i r, k = i :: r := by
  obtain ⟨m, hlen, -⟩ := h
  rw [List.length_append] at hlen
  cases k with
  | nil => simp only [List.length_nil] at hlen; omega
  | cons i r => exact ⟨i, r, rfl⟩

theorem WF.fork_cases (h : (branch p c).WF k.length) :
    (∃ i r, k = p ++ i :: r ∧ splitCommon p k = (p, [], i :: r)) ∨
    ∃ q a p' b k', a ≠ b ∧ p = q ++ a :: p' ∧ k = q ++ b :: k' ∧ splitCommon p k = (q, a :: p', b :: k') := by
  rcases splitCommon_cases p k with ⟨r, rfl, hs⟩ | ⟨a, p', rfl, -⟩ | hfork
  · obtain ⟨i, r, rfl⟩ := h.exists_rest
    exact .inl ⟨i, r, rfl, hs⟩
  · obtain ⟨m, hlen, -⟩ := h
    simp only [List.length_append, List.length_cons] at hlen; omega
  · exact .inr hfork

omit [DecidableEq α] in
theorem WF.child (h : (branch p c).WF (p ++ (k : List α)).length) {i : α} {r : List α} (hk : k = i :: r) :
    (c i).Compact r.length := by
  obtain ⟨m, hlen, hc, -⟩ := h
  rw [hk, List.length_append, List.length_cons] at hlen
  rw [show r.length = m by omega]
  exact hc i

theorem WF.insert_branch {b : α} {k' : List α} (h : (branch p c).WF (p ++ b :: k').length)
    (hb : ((c b).insert k' v).WF k'.length) :
    (branch p (Function.update c b ((c b).insert k' v))).WF (p ++ b :: k').length := by
  obtain ⟨m, hlen, hc, i, j, hij, hi, hj⟩ := h
  have hm : k'.length = m := by rw [List.length_append, List.length_cons] at hlen; omega
  have hne : ∀ x, c x ≠ empty → Function.update c b ((c b).insert k' v) x ≠ empty := by
    intro x hx
    by_cases hxb : x = b
    · subst hxb; simpa using hb.ne_empty
    · simpa [hxb] using hx
  refine ⟨m, hlen, fun x => ?_, i, j, hij, hne i hi, hne j hj⟩
  by_cases hxb : x = b
  · subst hxb; rw [Function.update_self, ← hm]; exact .inr hb
  · rw [Function.update_of_ne hxb]; exact hc x

theorem wf_insert (h : t.Compact k.length) (v : V) : (t.insert k v).WF k.length := by
  induction t generalizing k with
  | empty => rfl
  | leaf p w =>
    have hlen : p.length = k.length := h.wf (by simp)
    rw [Trie.insert]
    rcases splitCommon_cases_of_length_eq hlen with ⟨rfl, hs⟩ | ⟨q, a, p', b, k', hab, rfl, rfl, hs⟩
    · rw [hs]; rfl
    · rw [hs]
      have hlen' : p'.length = k'.length := by
        simp only [List.length_append, List.length_cons] at hlen; omega
      have hfork : (fork q a (leaf p' w) b (leaf k' v)).WF (q.length + 1 + k'.length) := wf_fork hab hlen' rfl
      simpa [List.length_append, Nat.add_assoc, Nat.add_comm 1] using hfork
  | branch p c ih =>
    have hwf : (branch p c).WF k.length := h.wf (by simp)
    rw [Trie.insert]
    rcases hwf.fork_cases with ⟨b, k', rfl, hs⟩ | ⟨q, a, p', b, k', hab, rfl, rfl, hs⟩
    · rw [hs]
      exact hwf.insert_branch (ih b (hwf.child rfl))
    · rw [hs]
      obtain ⟨m, hlen, hc⟩ := hwf
      have hold : (branch p' c).WF k'.length := by
        refine ⟨m, ?_, hc⟩
        simp only [List.length_append, List.length_cons] at hlen; omega
      have hfork : (fork q a (branch p' c) b (leaf k' v)).WF (q.length + 1 + k'.length) := wf_fork hab hold rfl
      simpa [List.length_append, Nat.add_assoc, Nat.add_comm 1] using hfork

theorem lookup_fork {q k' : List α} {a b : α} (hab : a ≠ b) (ta : Trie α V) (v : V)
    (hta : ∀ r, ta.lookup r = t.lookup (q ++ a :: r)) (ht : ∀ k, (∀ r, k ≠ q ++ a :: r) → t.lookup k = none)
    (k : List α) :
    (fork q a ta b (leaf k' v)).lookup k = if k = q ++ b :: k' then some v else t.lookup k := by
  rcases lookup_branch_cases q (Function.update (Function.update (fun _ => empty) a ta) b (leaf k' v)) k with
    ⟨i, r, rfl⟩ | ⟨hno, hnone⟩
  · simp only [fork, lookup_branch, append_cons_inj]
    by_cases hib : i = b
    · subst hib
      rw [Function.update_self, lookup_leaf, ht _ fun r' he => hab (append_cons_inj.1 he).1.symm]
      by_cases hr : r = k' <;> simp [hr]
    · rw [Function.update_of_ne hib]
      by_cases hia : i = a
      · subst hia; simp [hib, hta]
      · rw [Function.update_of_ne hia, ht _ fun r' he => hia (append_cons_inj.1 he).1]
        simp [hib]
  · rw [if_neg (hno b k'), ht k fun r => hno a r]
    exact hnone

theorem lookup_insert (h : t.Compact k.length) (v : V) (k' : List α) :
    (t.insert k v).lookup k' = if k' = k then some v else t.lookup k' := by
  induction t generalizing k k' with
  | empty => rfl
  | leaf p w =>
    have hlen : p.length = k.length := h.wf (by simp)
    rw [Trie.insert]
    rcases splitCommon_cases_of_length_eq hlen with ⟨rfl, hs⟩ | ⟨q, a, p', b, k', hab, rfl, rfl, hs⟩
    · rw [hs]
      simp only [lookup_leaf]
      by_cases hk : k' = k <;> simp [hk]
    · rw [hs]
      refine lookup_fork hab (leaf p' w) v (fun r => ?_) (fun k hk => ?_) _
      · simp only [lookup_leaf, append_cons_inj, true_and]
      · rw [lookup_leaf, if_neg (hk p')]
  | branch p c ih =>
    have hwf : (branch p c).WF k.length := h.wf (by simp)
    rw [Trie.insert]
    rcases hwf.fork_cases with ⟨b, k₁, rfl, hs⟩ | ⟨q, a, p', b, k', hab, rfl, rfl, hs⟩
    · rw [hs]
      rcases lookup_branch_cases p c k' with ⟨i, r, rfl⟩ | ⟨hno, hnone⟩
      · simp only [lookup_branch, append_cons_inj]
        by_cases hib : i = b
        · subst hib
          rw [Function.update_self, ih i (hwf.child rfl)]
          simp
        · simp [hib]
      · rw [if_neg (hno b k₁), hnone]
        exact lookup_branch_eq_none hno
    · rw [hs]
      refine lookup_fork hab (branch p' c) v (fun r => ?_) (fun k hk => ?_) _
      · rcases lookup_branch_cases p' c r with ⟨i, s, rfl⟩ | ⟨hno, hnone⟩
        · rw [lookup_branch, ← List.cons_append, ← List.append_assoc, lookup_branch]
        · rw [hnone, lookup_branch_eq_none]
          intro i s he
          rw [List.append_assoc, List.cons_append, append_cons_inj] at he
          exact hno i s he.2
      · refine lookup_branch_eq_none fun i s he => ?_
        rw [List.append_assoc, List.cons_append] at he
        exact hk _ he

/-- The trie below the path `p` and the digit `i`. -/
def prepend (p : List α) (i : α) : Trie α V → Trie α V
  | empty => empty
  | leaf r v => leaf (p ++ i :: r) v
  | branch r c => branch (p ++ i :: r) c

omit [DecidableEq α] in
theorem WF.prepend (h : t.WF m) (p : List α) (i : α) : (t.prepend p i).WF (p.length + 1 + m) := by
  cases t with
  | empty => exact h.elim
  | leaf r v =>
    have hr : r.length = m := h
    simp only [Trie.prepend, WF, List.length_append, List.length_cons]
    omega
  | branch r c =>
    obtain ⟨d, hd, hc⟩ := h
    refine ⟨d, ?_, hc⟩
    simp only [List.length_append, List.length_cons]
    omega

theorem lookup_prepend (t : Trie α V) (p : List α) (i : α) (k : List α) :
    (t.prepend p i).lookup k = (branch p (Function.update (fun _ => empty) i t)).lookup k := by
  have hleft : ∀ r, (t.prepend p i).lookup (p ++ i :: r) = t.lookup r := by
    intro r
    cases t with
    | empty => rfl
    | leaf r' v => simp only [prepend, lookup_leaf, append_cons_inj, true_and]
    | branch r' c =>
      rcases lookup_branch_cases r' c r with ⟨j, s, rfl⟩ | ⟨hno, hnone⟩
      · rw [prepend, lookup_branch, ← List.cons_append, ← List.append_assoc, lookup_branch]
      · rw [prepend, hnone, lookup_branch_eq_none]
        intro j s he
        rw [List.append_assoc, List.cons_append, append_cons_inj] at he
        exact hno j s he.2
  have hright : (∀ r, k ≠ p ++ i :: r) → (t.prepend p i).lookup k = none := by
    intro hk
    cases t with
    | empty => rfl
    | leaf r' v => exact if_neg (hk r')
    | branch r' c =>
      refine lookup_branch_eq_none fun j s he => ?_
      rw [List.append_assoc, List.cons_append] at he
      exact hk _ he
  rcases lookup_branch_cases p (Function.update (fun _ => empty) i t) k with ⟨j, r, rfl⟩ | ⟨hno, hnone⟩
  · rw [lookup_branch]
    by_cases hji : j = i
    · subst hji; rw [hleft, Function.update_self]
    · rw [Function.update_of_ne hji, hright fun r' he => hji (append_cons_inj.1 he).1]
      rfl
  · rw [hnone, hright fun r => hno i r]

def Only (c : α → Trie α V) (i : α) : Prop := c i ≠ empty ∧ ∀ j, c j ≠ empty → j = i

open Classical in
/-- A branch, or the trie that is left of it when it has one child. -/
noncomputable def collapse (p : List α) (c : α → Trie α V) : Trie α V :=
  if h : ∃ i, Only c i then (c h.choose).prepend p h.choose else branch p c

omit [DecidableEq α] in
theorem collapse_of_only {i : α} (h : Only c i) : collapse p c = (c i).prepend p i := by
  have hex : ∃ i, Only c i := ⟨i, h⟩
  have heq : hex.choose = i := h.2 _ hex.choose_spec.1
  rw [collapse, dif_pos hex, heq]

omit [DecidableEq α] in
theorem collapse_of_two {i j : α} (hij : i ≠ j) (hi : c i ≠ empty) (hj : c j ≠ empty) : collapse p c = branch p c := by
  refine dif_neg ?_
  rintro ⟨x, -, hx⟩
  exact hij ((hx i hi).trans (hx j hj).symm)

theorem lookup_collapse (p : List α) (c : α → Trie α V) (k : List α) :
    (collapse p c).lookup k = (branch p c).lookup k := by
  by_cases h : ∃ i, Only c i
  · obtain ⟨i, hi⟩ := h
    have hc : Function.update (fun _ => empty) i (c i) = c := by
      funext j
      by_cases hji : j = i
      · subst hji; simp
      · rw [Function.update_of_ne hji]
        by_contra hne
        exact hji (hi.2 j (Ne.symm hne))
    rw [collapse_of_only hi, lookup_prepend, hc]
  · rw [collapse, dif_neg h]

omit [DecidableEq α] in
theorem wf_collapse (hc : ∀ i, (c i).Compact m) (hne : ∃ i, c i ≠ empty) : (collapse p c).WF (p.length + 1 + m) := by
  by_cases h : ∃ i, Only c i
  · obtain ⟨i, hi⟩ := h
    rw [collapse_of_only hi]
    exact ((hc i).wf hi.1).prepend p i
  · rw [collapse, dif_neg h]
    obtain ⟨i, hi⟩ := hne
    refine ⟨m, rfl, hc, ?_⟩
    by_contra hno
    refine h ⟨i, hi, fun j hj => ?_⟩
    by_contra hji
    exact hno ⟨i, j, Ne.symm hji, hi, hj⟩

noncomputable def erase : Trie α V → List α → Trie α V
  | empty, _ => empty
  | leaf p v, k => if p = k then empty else leaf p v
  | branch p c, k =>
    match (splitCommon p k).2 with
    | ([], i :: r) => collapse p (Function.update c i ((c i).erase r))
    | _ => branch p c

theorem erase_branch (p : List α) (c : α → Trie α V) (i : α) (r : List α) :
    (branch p c).erase (p ++ i :: r) = collapse p (Function.update c i ((c i).erase r)) := by
  simp [erase]

theorem erase_branch_of_ne (h : ∀ i r, k ≠ p ++ i :: r) : (branch p c).erase k = branch p c := by
  rw [erase]
  rcases splitCommon_cases p k with ⟨r, hk, hs⟩ | ⟨a, p', -, hs⟩ | ⟨q, a, p', b, k', -, -, -, hs⟩
  · cases r with
    | nil => rw [hs]
    | cons i r => exact absurd hk (h i r)
  · rw [hs]
  · rw [hs]

theorem WF.collapse_update (h : (branch p c).WF n) (i : α) (ht : ∀ m, (c i).Compact m → t.Compact m) :
    (collapse p (Function.update c i t)).WF n := by
  obtain ⟨m, rfl, hc, x, y, hxy, hx, hy⟩ := h
  refine wf_collapse (fun j => ?_) ?_
  · by_cases hji : j = i
    · subst hji; rw [Function.update_self]; exact ht m (hc j)
    · rw [Function.update_of_ne hji]; exact hc j
  · -- one of the two children is not the one that changes
    by_cases hxi : x = i
    · exact ⟨y, by rwa [Function.update_of_ne fun hyi => hxy (hxi.trans hyi.symm)]⟩
    · exact ⟨x, by rwa [Function.update_of_ne hxi]⟩

theorem compact_erase (h : t.Compact n) (k : List α) : (t.erase k).Compact n := by
  induction t generalizing k n with
  | empty => exact .inl rfl
  | leaf p v =>
    rw [erase]
    split
    · exact .inl rfl
    · exact h
  | branch p c ih =>
    rcases lookup_branch_cases p c k with ⟨i, r, rfl⟩ | ⟨hno, -⟩
    · rw [erase_branch]
      exact ((h.wf (by simp)).collapse_update i fun m hm => ih i hm r).compact
    · rwa [erase_branch_of_ne hno]

theorem WF.erase_ne_empty (h : (branch p c).WF n) (k : List α) : (branch p c).erase k ≠ empty := by
  rcases lookup_branch_cases p c k with ⟨i, r, rfl⟩ | ⟨hno, -⟩
  · rw [erase_branch]
    exact (h.collapse_update i fun m hm => compact_erase hm r).ne_empty
  · rw [erase_branch_of_ne hno]; simp

theorem lookup_erase (t : Trie α V) (k k' : List α) : (t.erase k).lookup k' = if k' = k then none else t.lookup k' := by
  induction t generalizing k k' with
  | empty => simp [erase]
  | leaf p v =>
    rw [erase]
    by_cases hpk : p = k
    · subst hpk; by_cases hk : k' = p <;> simp [hk, lookup_leaf]
    · rw [if_neg hpk, lookup_leaf]
      by_cases hk : k' = k
      · subst hk; simp [Ne.symm hpk]
      · simp [hk]
  | branch p c ih =>
    rcases lookup_branch_cases p c k with ⟨i, r, rfl⟩ | ⟨hno, hnone⟩
    · rw [erase_branch, lookup_collapse]
      rcases lookup_branch_cases p c k' with ⟨j, s, rfl⟩ | ⟨hno', hnone'⟩
      · simp only [lookup_branch, append_cons_inj]
        by_cases hji : j = i
        · subst hji; rw [Function.update_self, ih]; simp
        · simp [hji]
      · rw [if_neg (hno' i r), hnone', lookup_branch_eq_none hno']
    · rw [erase_branch_of_ne hno]
      by_cases hk : k' = k
      · rw [if_pos hk, hk, hnone]
      · rw [if_neg hk]

end Trie
