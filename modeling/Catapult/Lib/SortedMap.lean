import Mathlib.Algebra.BigOperators.Group.List.Basic
import Mathlib.Algebra.GroupWithZero.Nat
import Mathlib.Order.Lattice

/-!
# Ordered maps

`SortedMap K V` is an association list with strictly increasing keys: an ordered map with unique keys that is iterated
in key order. Every update goes through `alter`, and `find?_alter` is its whole specification; two maps with the same
lookups are equal, so a map never remembers the order in which its keys were inserted.
-/

structure SortedMap (K V : Type*) [LinearOrder K] where
  entries : List (K × V)
  sorted : entries.Pairwise fun a b => a.1 < b.1

namespace SortedMap
variable {K V : Type*} [LinearOrder K]

/-- The value stored under `k`. -/
def findIn (k : K) : List (K × V) → Option V
  | [] => none
  | e :: l => if k = e.1 then some e.2 else findIn k l

/-- Replaces the binding of `k` by `f` of it, keeping the keys sorted. -/
def alterIn (k : K) (f : Option V → Option V) : List (K × V) → List (K × V)
  | [] => ((f none).map fun v => (k, v)).toList
  | e :: l =>
    if k < e.1 then ((f none).map fun v => (k, v)).toList ++ e :: l
    else if k = e.1 then ((f (some e.2)).map fun v => (k, v)).toList ++ l
    else e :: alterIn k f l

omit [LinearOrder K] in
theorem mem_toList_map {k : K} {o : Option V} {e : K × V} (h : e ∈ (o.map fun v => (k, v)).toList) :
    e.1 = k := by
  cases o with
  | none => simp at h
  | some v => simp only [Option.map_some, Option.toList_some, List.mem_singleton] at h; rw [h]

theorem mem_alterIn {k : K} {f : Option V → Option V} {l : List (K × V)} {e : K × V}
    (h : e ∈ alterIn k f l) : e.1 = k ∨ e ∈ l := by
  induction l with
  | nil => exact .inl (mem_toList_map h)
  | cons a l ih =>
    simp only [alterIn] at h
    split at h
    · exact (List.mem_append.1 h).imp mem_toList_map id
    split at h
    · exact (List.mem_append.1 h).imp mem_toList_map (List.mem_cons_of_mem _)
    · rcases List.mem_cons.1 h with rfl | h
      · simp
      · rcases ih h with h | h <;> simp [h]

theorem alterIn_sorted {k : K} {f : Option V → Option V} {l : List (K × V)}
    (h : l.Pairwise fun a b => a.1 < b.1) : (alterIn k f l).Pairwise fun a b => a.1 < b.1 := by
  induction l with
  | nil => simp only [alterIn]; cases f none <;> simp
  | cons a l ih =>
    obtain ⟨ha, hl⟩ := List.pairwise_cons.1 h
    simp only [alterIn]
    split
    · rename_i hk
      cases f none with
      | none => simpa using h
      | some v =>
        refine List.pairwise_cons.2 ⟨fun b hb => ?_, h⟩
        rcases List.mem_cons.1 hb with rfl | hb
        · exact hk
        · exact hk.trans (ha b hb)
    split
    · rename_i hk
      cases f (some a.2) with
      | none => simpa using hl
      | some v => exact List.pairwise_cons.2 ⟨fun b hb => hk ▸ ha b hb, hl⟩
    · rename_i hlt hne
      refine List.pairwise_cons.2 ⟨fun b hb => ?_, ih hl⟩
      rcases mem_alterIn hb with hb | hb
      · exact hb ▸ lt_of_le_of_ne (not_lt.1 hlt) (Ne.symm hne)
      · exact ha b hb

theorem findIn_eq_none_of_lt {k : K} {l : List (K × V)} (h : ∀ e ∈ l, k < e.1) : findIn k l = none := by
  induction l with
  | nil => rfl
  | cons a l ih =>
    have ha := h a (List.mem_cons_self ..)
    simp [findIn, ha.ne, ih fun e he => h e (List.mem_cons_of_mem _ he)]

theorem findIn_alterIn {k : K} {f : Option V → Option V} {l : List (K × V)}
    (h : l.Pairwise fun a b => a.1 < b.1) (k' : K) :
    findIn k' (alterIn k f l) = if k' = k then f (findIn k l) else findIn k' l := by
  induction l with
  | nil => simp only [alterIn]; cases hf : f none <;> by_cases hk' : k' = k <;> simp [findIn, hk', hf]
  | cons a l ih =>
    obtain ⟨ha, hl⟩ := List.pairwise_cons.1 h
    simp only [alterIn]
    split
    · rename_i hk
      have hnone : findIn k (a :: l) = none := findIn_eq_none_of_lt fun e he => by
        rcases List.mem_cons.1 he with rfl | he
        · exact hk
        · exact hk.trans (ha e he)
      cases hf : f none with
      | none => by_cases hk' : k' = k <;> simp [hk', hnone, hf]
      | some v => rw [hnone, hf]; by_cases hk' : k' = k <;> simp [findIn, hk']
    split
    · rename_i hk
      subst hk
      have hnone : findIn a.1 l = none := findIn_eq_none_of_lt ha
      cases hf : f (some a.2) with
      | none => by_cases hk' : k' = a.1 <;> simp [findIn, hk', hf, hnone]
      | some v => by_cases hk' : k' = a.1 <;> simp [findIn, hk', hf]
    · rename_i hlt hne
      simp only [findIn, ih hl]
      by_cases hk' : k' = k
      · simp [hk', hne]
      · simp [hk']

theorem mem_of_findIn {k : K} {v : V} {l : List (K × V)} (h : findIn k l = some v) : (k, v) ∈ l := by
  induction l with
  | nil => simp [findIn] at h
  | cons a l ih =>
    simp only [findIn] at h
    split at h
    · rename_i hk; cases h; simp [hk]
    · exact List.mem_cons_of_mem _ (ih h)

theorem findIn_of_mem {e : K × V} {l : List (K × V)} (hl : l.Pairwise fun a b => a.1 < b.1)
    (h : e ∈ l) : findIn e.1 l = some e.2 := by
  induction l with
  | nil => simp at h
  | cons a l ih =>
    obtain ⟨ha, hl⟩ := List.pairwise_cons.1 hl
    rcases List.mem_cons.1 h with rfl | h
    · simp [findIn]
    · simp [findIn, (ha e h).ne', ih hl h]

theorem eq_of_findIn {l l' : List (K × V)} (hl : l.Pairwise fun a b => a.1 < b.1)
    (hl' : l'.Pairwise fun a b => a.1 < b.1) (h : ∀ k, findIn k l = findIn k l') : l = l' := by
  induction l generalizing l' with
  | nil =>
    cases l' with
    | nil => rfl
    | cons b l' => simpa [findIn] using h b.1
  | cons a l ih =>
    obtain ⟨ha, hl⟩ := List.pairwise_cons.1 hl
    cases l' with
    | nil => simpa [findIn] using h a.1
    | cons b l' =>
      obtain ⟨hb, htl'⟩ := List.pairwise_cons.1 hl'
      -- the least key of either list is bound in the other one, so both lists start with it
      have hab : a ∈ b :: l' := mem_of_findIn (by rw [← h a.1]; simp [findIn])
      have hba : b ∈ a :: l := mem_of_findIn (by rw [h b.1]; simp [findIn])
      have heq : a = b := by
        rcases List.mem_cons.1 hab with hab | hab
        · exact hab
        rcases List.mem_cons.1 hba with hba | hba
        · exact hba.symm
        · exact absurd ((hb a hab).trans (ha b hba)) (lt_irrefl _)
      subst heq
      congr 1
      refine ih hl htl' fun k => ?_
      by_cases hk : k = a.1
      · rw [hk, findIn_eq_none_of_lt ha, findIn_eq_none_of_lt hb]
      · simpa [findIn, hk] using h k

instance : EmptyCollection (SortedMap K V) := ⟨⟨[], List.Pairwise.nil⟩⟩

/-- The value bound to `k`. -/
def find? (m : SortedMap K V) (k : K) : Option V := findIn k m.entries

/-- Replaces the binding of `k` by `f` of it. -/
def alter (m : SortedMap K V) (k : K) (f : Option V → Option V) : SortedMap K V :=
  ⟨alterIn k f m.entries, alterIn_sorted m.sorted⟩

/-- Binds `k` to `v` unless it is bound already. -/
def emplace (m : SortedMap K V) (k : K) (v : V) : SortedMap K V :=
  m.alter k fun o => some (o.getD v)

/-- Updates the value bound to `k`, if any. -/
def modify (m : SortedMap K V) (k : K) (f : V → V) : SortedMap K V :=
  m.alter k (Option.map f)

/-- The binding with the largest key that satisfies `p`. -/
def findLast? (m : SortedMap K V) (p : K → V → Bool) : Option (K × V) :=
  m.entries.reverse.find? fun e => p e.1 e.2

@[simp] theorem find?_empty (k : K) : (∅ : SortedMap K V).find? k = none := rfl

theorem find?_alter (m : SortedMap K V) (k : K) (f : Option V → Option V) (k' : K) :
    (m.alter k f).find? k' = if k' = k then f (m.find? k) else m.find? k' :=
  findIn_alterIn m.sorted k'

@[simp] theorem find?_emplace (m : SortedMap K V) (k : K) (v : V) (k' : K) :
    (m.emplace k v).find? k' = if k' = k then some ((m.find? k).getD v) else m.find? k' :=
  find?_alter ..

@[simp] theorem find?_modify (m : SortedMap K V) (k : K) (f : V → V) (k' : K) :
    (m.modify k f).find? k' = if k' = k then (m.find? k).map f else m.find? k' :=
  find?_alter ..

theorem find?_foldl_modify {ks : List K} (hnd : ks.Nodup) (m : SortedMap K V) (f : V → V) (k : K) :
    (ks.foldl (fun m k => m.modify k f) m).find? k = if k ∈ ks then (m.find? k).map f else m.find? k := by
  induction ks generalizing m with
  | nil => simp
  | cons a ks ih =>
    obtain ⟨ha, hnd⟩ := List.nodup_cons.1 hnd
    rw [List.foldl_cons, ih hnd, find?_modify]
    by_cases hk : k = a
    · subst hk; simp [ha]
    · simp [hk]

theorem ext_find? {m m' : SortedMap K V} (h : ∀ k, m.find? k = m'.find? k) : m = m' := by
  obtain ⟨l, hl⟩ := m
  obtain ⟨l', hl'⟩ := m'
  have := eq_of_findIn hl hl' h
  subst this; rfl

theorem mem_entries_iff {m : SortedMap K V} {e : K × V} : e ∈ m.entries ↔ m.find? e.1 = some e.2 :=
  ⟨findIn_of_mem m.sorted, mem_of_findIn⟩

theorem findLast?_eq_some {m : SortedMap K V} {p : K → V → Bool} {e : K × V}
    (h : m.findLast? p = some e) : m.find? e.1 = some e.2 ∧ p e.1 e.2 = true :=
  ⟨mem_entries_iff.1 (List.mem_reverse.1 (List.mem_of_find?_eq_some h)), by simpa using List.find?_some h⟩

theorem exists_findLast?_ge {m : SortedMap K V} {p : K → V → Bool} {k : K} {v : V} (hfind : m.find? k = some v)
    (hp : p k v = true) : ∃ e, m.findLast? p = some e ∧ k ≤ e.1 := by
  have hmem : (k, v) ∈ m.entries.reverse := List.mem_reverse.2 (mem_entries_iff.2 hfind)
  have hsorted : m.entries.reverse.Pairwise fun a b => b.1 < a.1 := List.pairwise_reverse.2 m.sorted
  unfold findLast?
  generalize m.entries.reverse = entries at hmem hsorted ⊢
  induction entries with
  | nil => simp at hmem
  | cons e l ih =>
    obtain ⟨hhead, htail⟩ := List.pairwise_cons.1 hsorted
    rw [List.find?_cons]
    rcases List.mem_cons.1 hmem with rfl | hmem
    · exact ⟨(k, v), by rw [hp], le_rfl⟩
    · cases he : p e.1 e.2 with
      | true => exact ⟨e, rfl, (hhead _ hmem).le⟩
      | false => exact ih hmem htail

theorem alterIn_perm {k : K} {f : Option V → Option V} {l : List (K × V)} (h : l.Pairwise fun a b => a.1 < b.1) :
    ∃ rest, l.Perm (((findIn k l).map fun v => (k, v)).toList ++ rest) ∧
      (alterIn k f l).Perm (((f (findIn k l)).map fun v => (k, v)).toList ++ rest) := by
  induction l with
  | nil => exact ⟨[], by simp [findIn], by simp [findIn, alterIn]⟩
  | cons a l ih =>
    obtain ⟨ha, hl⟩ := List.pairwise_cons.1 h
    simp only [alterIn]
    split
    · rename_i hk
      have hnone : findIn k (a :: l) = none := findIn_eq_none_of_lt fun e he => by
        rcases List.mem_cons.1 he with rfl | he
        · exact hk
        · exact hk.trans (ha e he)
      exact ⟨a :: l, by simp [hnone], by rw [hnone]⟩
    split
    · rename_i hk
      exact ⟨l, by simp [findIn, hk], by simp [findIn, hk]⟩
    · rename_i hne
      obtain ⟨rest, h1, h2⟩ := ih hl
      refine ⟨a :: rest, ?_, ?_⟩
      · simp only [findIn, if_neg hne]
        exact (h1.cons a).trans List.perm_middle.symm
      · simp only [findIn, if_neg hne]
        exact (h2.cons a).trans List.perm_middle.symm

theorem entries_alter_perm (m : SortedMap K V) (k : K) (f : Option V → Option V) :
    ∃ rest, m.entries.Perm (((m.find? k).map fun v => (k, v)).toList ++ rest) ∧
      (m.alter k f).entries.Perm (((f (m.find? k)).map fun v => (k, v)).toList ++ rest) :=
  alterIn_perm m.sorted

/-- Drops the bindings whose keys do not satisfy `p`. -/
def filterKeys (p : K → Bool) (m : SortedMap K V) : SortedMap K V where
  entries := m.entries.filter fun e => p e.1
  sorted := m.sorted.sublist List.filter_sublist

theorem find?_filterKeys (p : K → Bool) (m : SortedMap K V) (k : K) :
    (m.filterKeys p).find? k = if p k then m.find? k else none := by
  refine Option.ext fun v => ?_
  have hmem : (k, v) ∈ (m.filterKeys p).entries ↔ (k, v) ∈ m.entries ∧ p k := List.mem_filter
  rw [mem_entries_iff, mem_entries_iff] at hmem
  rw [hmem]
  cases p k <;> simp

theorem find?_filterKeys_eq_some {m : SortedMap K V} {p : K → Bool} {k : K} {v : V}
    (h : (m.filterKeys p).find? k = some v) : m.find? k = some v := by
  have hmem : (k, v) ∈ (m.filterKeys p).entries := mem_entries_iff.2 h
  exact mem_entries_iff.1 (List.mem_filter.1 hmem).1

/-- Binds `k` to `v`. -/
def insert (m : SortedMap K V) (k : K) (v : V) : SortedMap K V := m.alter k fun _ => some v

/-- Drops the binding of `k`. -/
def erase (m : SortedMap K V) (k : K) : SortedMap K V := m.alter k fun _ => none

def insertAll (m : SortedMap K V) (l : List (K × V)) : SortedMap K V := l.foldl (fun m e => m.insert e.1 e.2) m

def eraseAll (m : SortedMap K V) (l : List K) : SortedMap K V := l.foldl erase m

@[simp] theorem find?_insert (m : SortedMap K V) (k : K) (v : V) (k' : K) :
    (m.insert k v).find? k' = if k' = k then some v else m.find? k' := find?_alter ..

@[simp] theorem find?_erase (m : SortedMap K V) (k k' : K) :
    (m.erase k).find? k' = if k' = k then none else m.find? k' := find?_alter ..

@[simp] theorem find?_eraseAll (m : SortedMap K V) (l : List K) (k : K) :
    (m.eraseAll l).find? k = if k ∈ l then none else m.find? k := by
  induction l generalizing m with
  | nil => simp [eraseAll]
  | cons a l ih =>
    rw [eraseAll, List.foldl_cons, ← eraseAll, ih, find?_erase]
    by_cases hk : k = a <;> simp [hk]

theorem find?_insertAll_of_notMem {m : SortedMap K V} {l : List (K × V)} {k : K} (h : k ∉ l.map Prod.fst) :
    (m.insertAll l).find? k = m.find? k := by
  induction l generalizing m with
  | nil => rfl
  | cons a l ih =>
    rw [List.map_cons, List.mem_cons, not_or] at h
    rw [insertAll, List.foldl_cons, ← insertAll, ih h.2, find?_insert, if_neg h.1]

theorem find?_insertAll_of_mem {m : SortedMap K V} {l : List (K × V)} (hnd : (l.map Prod.fst).Nodup) {e : K × V}
    (h : e ∈ l) : (m.insertAll l).find? e.1 = some e.2 := by
  induction l generalizing m with
  | nil => cases h
  | cons a l ih =>
    rw [List.map_cons, List.nodup_cons] at hnd
    rw [insertAll, List.foldl_cons, ← insertAll]
    rcases List.mem_cons.1 h with rfl | h
    · rw [find?_insertAll_of_notMem hnd.1, find?_insert, if_pos rfl]
    · exact ih hnd.2 h

def keys (m : SortedMap K V) : List K := m.entries.map Prod.fst

theorem mem_keys_iff {m : SortedMap K V} {k : K} : k ∈ m.keys ↔ ∃ v, m.find? k = some v := by
  simp only [keys, List.mem_map, Prod.exists, exists_and_right, exists_eq_right, mem_entries_iff]

theorem entries_alter_of_lt {m : SortedMap K V} {k : K} (h : ∀ e ∈ m.entries, k < e.1) (f : Option V → Option V) :
    (m.alter k f).entries = ((f none).map fun v => (k, v)).toList ++ m.entries := by
  obtain ⟨_ | ⟨e, l⟩, hsorted⟩ := m
  · simp [alter, alterIn]
  · simp [alter, alterIn, h e List.mem_cons_self]

theorem alterIn_of_gt {k : K} {l : List (K × V)} (h : ∀ e ∈ l, e.1 < k) (f : Option V → Option V) :
    alterIn k f l = l ++ ((f none).map fun v => (k, v)).toList := by
  induction l with
  | nil => rfl
  | cons e l ih =>
    obtain ⟨he, hl⟩ := List.forall_mem_cons.1 h
    rw [alterIn, if_neg he.asymm, if_neg he.ne', ih hl]
    rfl

theorem entries_insert_of_gt {m : SortedMap K V} {k : K} (h : ∀ e ∈ m.entries, e.1 < k) (v : V) :
    (m.insert k v).entries = m.entries ++ [(k, v)] := alterIn_of_gt h _

theorem entries_erase (m : SortedMap K V) (k : K) : (m.erase k).entries = m.entries.filter fun e => e.1 ≠ k := by
  have hfilter : m.erase k = m.filterKeys fun k' => k' ≠ k := by
    apply ext_find?
    intro k'
    rw [find?_erase, find?_filterKeys]
    by_cases hk : k' = k <;> simp [hk]
  rw [hfilter]
  rfl

theorem entries_erase_head {m : SortedMap K V} {e : K × V} {l : List (K × V)} (h : m.entries = e :: l) :
    (m.erase e.1).entries = l := by
  obtain ⟨entries, hsorted⟩ := m
  obtain rfl : entries = e :: l := h
  simp [erase, alter, alterIn]

theorem nodup_keys (m : SortedMap K V) : m.keys.Nodup :=
  List.pairwise_map.2 (m.sorted.imp fun h => ne_of_lt h)

theorem alterIn_map {k : K} (f : V → V) {l : List (K × V)} (h : l.Pairwise fun a b => a.1 < b.1) :
    alterIn k (Option.map f) l = l.map fun e => if e.1 = k then (e.1, f e.2) else e := by
  have hsame : ∀ l : List (K × V), (∀ e ∈ l, k < e.1) → (l.map fun e => if e.1 = k then (e.1, f e.2) else e) = l := by
    intro l hl
    refine (List.map_congr_left fun e he => ?_).trans l.map_id
    exact if_neg (hl e he).ne'
  induction l with
  | nil => rfl
  | cons a l ih =>
    obtain ⟨ha, hl⟩ := List.pairwise_cons.1 h
    simp only [alterIn]
    split
    · rename_i hk
      refine (hsame (a :: l) fun e he => ?_).symm
      rcases List.mem_cons.1 he with rfl | he
      · exact hk
      · exact hk.trans (ha e he)
    split
    · rename_i hk
      subst hk
      rw [List.map_cons, if_pos rfl, hsame l ha]
      rfl
    · rename_i hne
      rw [List.map_cons, if_neg (Ne.symm hne), ih hl]

theorem entries_modify (m : SortedMap K V) (k : K) (f : V → V) :
    (m.modify k f).entries = m.entries.map fun e => if e.1 = k then (e.1, f e.2) else e :=
  alterIn_map f m.sorted

theorem mem_keys_eraseAll {m : SortedMap K V} {l : List K} {k : K} :
    k ∈ (m.eraseAll l).keys ↔ k ∉ l ∧ k ∈ m.keys := by
  rw [mem_keys_iff, mem_keys_iff, find?_eraseAll]
  split <;> simp [*]

def size (m : SortedMap K V) : Nat := m.entries.length

def total (weight : K → V → Nat) (m : SortedMap K V) : Nat := (m.entries.map fun e => weight e.1 e.2).sum

theorem size_eq_total (m : SortedMap K V) : m.size = m.total fun _ _ => 1 := by simp [size, total]

theorem length_keys (m : SortedMap K V) : m.keys.length = m.size := by simp [keys, size]

theorem total_le_total {weight weight' : K → V → Nat} (h : ∀ k v, weight k v ≤ weight' k v) (m : SortedMap K V) :
    m.total weight ≤ m.total weight' := by
  rw [total, total]
  induction m.entries with
  | nil => exact Nat.le_refl _
  | cons e l ih =>
    rw [List.map_cons, List.map_cons, List.sum_cons, List.sum_cons]
    exact Nat.add_le_add (h e.1 e.2) ih

@[simp] theorem size_empty : (∅ : SortedMap K V).size = 0 := rfl

theorem eq_empty_of_size {m : SortedMap K V} (h : m.size = 0) : m = ∅ := by
  obtain ⟨l, hl⟩ := m
  obtain rfl := List.eq_nil_of_length_eq_zero h
  rfl

theorem total_alter (weight : K → V → Nat) (m : SortedMap K V) (k : K) (f : Option V → Option V) :
    (m.alter k f).total weight + (m.find? k).elim 0 (weight k) =
      m.total weight + (f (m.find? k)).elim 0 (weight k) := by
  obtain ⟨rest, hold, hnew⟩ := entries_alter_perm m k f
  have hold := (hold.map fun e => weight e.1 e.2).sum_eq
  have hnew := (hnew.map fun e => weight e.1 e.2).sum_eq
  unfold total
  rw [hold, hnew]
  cases m.find? k <;> cases f _ <;> simp <;> omega

theorem total_insert_of_some (weight : K → V → Nat) {m : SortedMap K V} {k : K} {v : V} (h : m.find? k = some v)
    (v' : V) : (m.insert k v').total weight + weight k v = m.total weight + weight k v' := by
  simpa [h, insert] using total_alter weight m k fun _ => some v'

theorem total_insert_of_none (weight : K → V → Nat) {m : SortedMap K V} {k : K} (h : m.find? k = none) (v : V) :
    (m.insert k v).total weight = m.total weight + weight k v := by
  simpa [h, insert] using total_alter weight m k fun _ => some v

theorem total_erase_of_some (weight : K → V → Nat) {m : SortedMap K V} {k : K} {v : V} (h : m.find? k = some v) :
    (m.erase k).total weight + weight k v = m.total weight := by
  simpa [h, erase] using total_alter weight m k fun _ => none

theorem size_insert_of_none {m : SortedMap K V} {k : K} (h : m.find? k = none) (v : V) :
    (m.insert k v).size = m.size + 1 := by
  simpa only [size_eq_total] using total_insert_of_none (fun _ _ => 1) h v

theorem size_erase_of_some {m : SortedMap K V} {k : K} {v : V} (h : m.find? k = some v) :
    (m.erase k).size + 1 = m.size := by
  simpa only [size_eq_total] using total_erase_of_some (fun _ _ => 1) h

theorem size_eraseAll {m : SortedMap K V} {l : List K} (hnd : l.Nodup) (h : ∀ k ∈ l, ∃ v, m.find? k = some v) :
    (m.eraseAll l).size + l.length = m.size := by
  induction l generalizing m with
  | nil => rfl
  | cons a l ih =>
    obtain ⟨ha, hnd⟩ := List.nodup_cons.1 hnd
    obtain ⟨v, hv⟩ := h a (by simp)
    have hrest : ((m.erase a).eraseAll l).size + l.length = (m.erase a).size := by
      apply ih hnd
      intro k hk
      have hne : k ≠ a := fun heq => ha (heq ▸ hk)
      simpa [hne] using h k (by simp [hk])
    have herase := size_erase_of_some hv
    rw [eraseAll, List.foldl_cons, ← eraseAll, List.length_cons]
    omega

theorem size_insertAll {m : SortedMap K V} {l : List (K × V)} (hnd : (l.map Prod.fst).Nodup)
    (h : ∀ k ∈ l.map Prod.fst, m.find? k = none) : (m.insertAll l).size = m.size + l.length := by
  induction l generalizing m with
  | nil => rfl
  | cons a l ih =>
    rw [List.map_cons, List.nodup_cons] at hnd
    have hrest : ((m.insert a.1 a.2).insertAll l).size = (m.insert a.1 a.2).size + l.length := by
      apply ih hnd.2
      intro k hk
      have hne : k ≠ a.1 := fun heq => hnd.1 (heq ▸ hk)
      simpa [hne] using h k (by simp [hk])
    have hinsert := size_insert_of_none (h a.1 (by simp)) a.2
    rw [insertAll, List.foldl_cons, ← insertAll, List.length_cons]
    omega

section MapVal
variable {W : Type*}

/-- Applies `f` to all values. -/
def mapVal (f : V → W) (m : SortedMap K V) : SortedMap K W where
  entries := m.entries.map fun e => (e.1, f e.2)
  sorted := List.pairwise_map.2 m.sorted

@[simp] theorem find?_mapVal (f : V → W) (m : SortedMap K V) (k : K) : (m.mapVal f).find? k = (m.find? k).map f := by
  refine Option.ext fun w => ?_
  rw [← mem_entries_iff (e := (k, w))]
  simp only [mapVal, List.mem_map, Prod.exists, Prod.mk.injEq, mem_entries_iff, Option.map_eq_some_iff]
  constructor
  · rintro ⟨k, v, hfind, rfl, rfl⟩
    exact ⟨v, hfind, rfl⟩
  · rintro ⟨v, hfind, rfl⟩
    exact ⟨k, v, hfind, rfl, rfl⟩

@[simp] theorem size_mapVal (f : V → W) (m : SortedMap K V) : (m.mapVal f).size = m.size := by simp [size, mapVal]

end MapVal

theorem find?_insertAll_entries (m new : SortedMap K V) (k : K) :
    (m.insertAll new.entries).find? k = (new.find? k).or (m.find? k) := by
  cases hk : new.find? k with
  | none =>
    have hnot : k ∉ new.entries.map Prod.fst := fun hmem => by
      obtain ⟨v, hv⟩ := mem_keys_iff.1 hmem
      simp [hk] at hv
    rw [find?_insertAll_of_notMem hnot, Option.none_or]
  | some v => exact find?_insertAll_of_mem new.nodup_keys (e := (k, v)) (mem_entries_iff.2 hk)

/-- In `m'` the bindings of `old` are replaced by those of `new`. -/
def Replaced (m m' old new : SortedMap K V) : Prop :=
  ∀ k, m'.find? k = (new.find? k).or (if (old.find? k).isSome then none else m.find? k)

theorem size_of_replaced {m m' old new : SortedMap K V} (h : Replaced m m' old new)
    (hold : ∀ k ∈ old.keys, ∃ v, m.find? k = some v)
    (hnew : ∀ k ∈ new.keys, old.find? k = none → m.find? k = none) : m'.size + old.size = m.size + new.size := by
  have heq : m' = (m.eraseAll old.keys).insertAll new.entries := by
    apply ext_find?
    intro k
    rw [h k, find?_insertAll_entries, find?_eraseAll]
    congr 1
    exact if_congr (Option.isSome_iff_exists.trans mem_keys_iff.symm) rfl rfl
  have herased := size_eraseAll old.nodup_keys hold
  have hinserted := size_insertAll (m := m.eraseAll old.keys) new.nodup_keys (l := new.entries) (by
    intro k hk
    rw [find?_eraseAll]
    split
    · rfl
    · rename_i hmem
      exact hnew k hk (by rwa [mem_keys_iff, ← Option.isSome_iff_exists, Option.not_isSome_iff_eq_none] at hmem))
  rw [heq, hinserted]
  rw [length_keys] at herased
  simp only [size] at herased ⊢
  omega

end SortedMap
