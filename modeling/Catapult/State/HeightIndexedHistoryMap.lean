import Catapult.Lib.StepFunction
import Mathlib.Data.UInt

/-!
# Values by height (`HeightIndexedHistoryMap`)

The map has an entry at every height at which the value changes, the latest one first. `add` merges the entry with the
ones next to it that have the same value, and the smaller neighbor is the value at the height before. There is none at
height zero, where this height wraps around and the value is the latest one.
-/

namespace Catapult.State

/-- `Height`. -/
structure HistoryHeight where
  value : UInt64

namespace HistoryHeight

instance : LinearOrder HistoryHeight :=
  LinearOrder.lift' (fun height => height.value.toNat) fun ⟨a⟩ ⟨b⟩ h => by simpa using UInt64.toNat_inj.1 h

instance : Zero HistoryHeight := ⟨⟨0⟩⟩

instance : One HistoryHeight := ⟨⟨1⟩⟩

/-- The difference wraps around. -/
instance : Sub HistoryHeight := ⟨fun a b => ⟨a.value - b.value⟩⟩

variable {h k : HistoryHeight}

theorem le_iff : h ≤ k ↔ h.value.toNat ≤ k.value.toNat := Iff.rfl

theorem lt_iff : h < k ↔ h.value.toNat < k.value.toNat := Iff.rfl

theorem ne_zero_iff : h ≠ 0 ↔ 0 < h.value.toNat := by
  rw [Nat.pos_iff_ne_zero, ne_eq, ne_eq, not_iff_not]
  constructor
  · rintro rfl
    rfl
  · intro hzero
    obtain ⟨value⟩ := h
    exact congrArg HistoryHeight.mk (UInt64.toNat_inj.1 hzero)

theorem isMin_iff : IsMin h ↔ h = 0 := by
  constructor
  · intro hmin
    by_contra hne
    exact hmin.not_lt (b := 0) (ne_zero_iff.1 hne)
  · rintro rfl
    exact fun k _ => Nat.zero_le _

theorem toNat_sub_one (hne : h ≠ 0) : (h - 1).value.toNat = h.value.toNat - 1 := by
  have hle : (1 : UInt64) ≤ h.value := UInt64.le_iff_toNat_le.2 (ne_zero_iff.1 hne)
  exact UInt64.toNat_sub_of_le _ _ hle

theorem lt_iff_le_sub_one (hne : h ≠ 0) : k < h ↔ k ≤ h - 1 := by
  have hpos := ne_zero_iff.1 hne
  rw [lt_iff, le_iff, toNat_sub_one hne]
  omega

theorem le_zero_sub_one (k : HistoryHeight) : k ≤ 0 - 1 := by
  have hlt := UInt64.toNat_lt k.value
  rw [le_iff]
  change k.value.toNat ≤ 18446744073709551615
  omega

end HistoryHeight

/-- The entries are stored by descending heights. -/
structure HeightIndexedHistoryMap (TValue : Type) where
  entries : List (HistoryHeight × TValue) := []
  sorted : StepFunction.Descending entries := by exact List.Pairwise.nil

namespace HeightIndexedHistoryMap
variable {TValue : Type}

/-- The position of the first entry that is not after a height, as the entries from it on. -/
def lowerBound (m : HeightIndexedHistoryMap TValue) (height : HistoryHeight) : List (HistoryHeight × TValue) :=
  m.entries.dropWhile fun e => decide (height < e.1)

/-- The entries before this position. -/
def larger (m : HeightIndexedHistoryMap TValue) (height : HistoryHeight) : List (HistoryHeight × TValue) :=
  m.entries.takeWhile fun e => decide (height < e.1)

def get [Inhabited TValue] (m : HeightIndexedHistoryMap TValue) : TValue := m.entries.head?.elim default Prod.snd

def getAt [Inhabited TValue] (m : HeightIndexedHistoryMap TValue) (height : HistoryHeight) : TValue :=
  (m.lowerBound height).head?.elim default Prod.snd

def insertOrAssign (m : HeightIndexedHistoryMap TValue) (height : HistoryHeight) (value : TValue) :
    HeightIndexedHistoryMap TValue where
  entries := m.larger height ++ (height, value) :: m.entries.dropWhile fun e => decide (height ≤ e.1)
  sorted := StepFunction.descending_insert m.sorted height value

def eraseAt (m : HeightIndexedHistoryMap TValue) (iter : Nat) : HeightIndexedHistoryMap TValue where
  entries := m.entries.eraseIdx iter
  sorted := m.sorted.sublist (List.eraseIdx_sublist _ _)

def erase (m : HeightIndexedHistoryMap TValue) (height : HistoryHeight) : HeightIndexedHistoryMap TValue where
  entries := m.entries.filter fun e => decide (e.1 ≠ height)
  sorted := m.sorted.sublist List.filter_sublist

/-- The entry before the one at `iter` is deleted when it has the value. -/
def eraseLarger [DecidableEq TValue] (m : HeightIndexedHistoryMap TValue) (iter : Nat) (value : TValue) :
    HeightIndexedHistoryMap TValue :=
  if iter ≠ 0 ∧ (m.entries[iter - 1]?).map Prod.snd = some value then m.eraseAt (iter - 1) else m

def add [Inhabited TValue] [DecidableEq TValue] (m : HeightIndexedHistoryMap TValue) (height : HistoryHeight)
    (value : TValue) : HeightIndexedHistoryMap TValue :=
  let iter := (m.larger height).length
  -- delete larger height entry with same value
  let m := (m.insertOrAssign height value).eraseLarger iter value
  -- delete new height entry if smaller height entry with same value exists
  if m.getAt (height - 1) = value then m.erase height else m

def pruneLess [Inhabited TValue] [DecidableEq TValue] (m : HeightIndexedHistoryMap TValue) (height : HistoryHeight) :
    HeightIndexedHistoryMap TValue :=
  match m.lowerBound height with
  | [] => m
  | e :: _ => add ⟨m.larger height, m.sorted.sublist (List.takeWhile_sublist _)⟩ height e.2

def pruneGreater (m : HeightIndexedHistoryMap TValue) (height : HistoryHeight) : HeightIndexedHistoryMap TValue where
  entries := m.lowerBound height
  sorted := m.sorted.sublist (List.dropWhile_sublist _)

/-! ## The step function of the entries -/

section Entries
variable {m : HeightIndexedHistoryMap TValue} {height q : HistoryHeight}

theorem getAt_eq [Inhabited TValue] (m : HeightIndexedHistoryMap TValue) (q : HistoryHeight) :
    m.getAt q = StepFunction.valueAt default m.entries q := by
  rw [getAt, lowerBound, StepFunction.valueAt]
  congr 1
  induction m.entries with
  | nil => rfl
  | cons e l ih =>
    by_cases hle : e.1 ≤ q
    · rw [List.find?_cons_of_pos (by simpa using hle), List.dropWhile_cons_of_neg (by simpa using hle)]
      rfl
    · rw [List.find?_cons_of_neg (by simpa using hle), List.dropWhile_cons_of_pos (by simpa using hle)]
      exact ih

theorem entries_eq (m : HeightIndexedHistoryMap TValue) (height : HistoryHeight) :
    m.entries = m.larger height ++ m.lowerBound height :=
  List.takeWhile_append_dropWhile.symm

theorem larger_gt : ∀ e ∈ m.larger height, height < e.1 := fun _ he => StepFunction.lt_of_mem_takeWhile he

theorem lowerBound_le : ∀ e ∈ m.lowerBound height, e.1 ≤ height := fun _ he =>
  StepFunction.le_of_mem_dropWhile m.sorted he

theorem larger_sorted : StepFunction.Descending (m.larger height) := m.sorted.sublist (List.takeWhile_sublist _)

end Entries

/-! ## Adding a value -/

def merged [DecidableEq TValue] (above : List (HistoryHeight × TValue)) (value : TValue) :
    List (HistoryHeight × TValue) :=
  if above.getLast?.map Prod.snd = some value then above.dropLast else above

section Merged
variable [DecidableEq TValue] {above : List (HistoryHeight × TValue)} {value : TValue}

theorem merged_spec (above : List (HistoryHeight × TValue)) (value : TValue) :
    above = merged above value ∧ (∀ e ∈ above.getLast?, e.2 ≠ value) ∨
      ∃ e : HistoryHeight × TValue, above = merged above value ++ [e] ∧ e.2 = value := by
  rw [merged]
  split
  · rename_i hlast
    obtain ⟨e, hmem, hvalue⟩ := Option.map_eq_some_iff.1 hlast
    obtain ⟨init, rfl⟩ := List.getLast?_eq_some_iff.1 hmem
    exact .inr ⟨e, by rw [List.dropLast_concat], hvalue⟩
  · rename_i hlast
    refine .inl ⟨rfl, fun e he hvalue => hlast ?_⟩
    rw [Option.mem_def.1 he, Option.map_some, hvalue]

theorem merged_sublist : (merged above value).Sublist above := by
  rcases merged_spec above value with ⟨heq, -⟩ | ⟨e, heq, -⟩
  · rw [← heq]
  · conv_rhs => rw [heq]
    exact List.sublist_append_left _ _

theorem merged_last_ne (hchain : above.IsChain fun a b => a.2 ≠ b.2) :
    ∀ e ∈ (merged above value).getLast?, e.2 ≠ value := by
  rcases merged_spec above value with ⟨heq, hne⟩ | ⟨e, heq, hvalue⟩
  · rwa [← heq]
  · intro a ha
    rw [heq] at hchain
    rw [← hvalue]
    exact (List.isChain_append.1 hchain).2.2 a ha e rfl

theorem valueAt_merged (above : List (HistoryHeight × TValue)) (value : TValue) (q : HistoryHeight) :
    StepFunction.valueAt value (merged above value) q = StepFunction.valueAt value above q := by
  rcases merged_spec above value with ⟨heq, -⟩ | ⟨⟨k, v⟩, heq, rfl⟩
  · rw [← heq]
  · conv_rhs => rw [heq]
    exact (StepFunction.valueAt_concat _ _ _ _).symm

end Merged

section Smaller
variable {m : HeightIndexedHistoryMap TValue} {height q : HistoryHeight}

def smaller (m : HeightIndexedHistoryMap TValue) (height : HistoryHeight) : List (HistoryHeight × TValue) :=
  m.entries.dropWhile fun e => decide (height ≤ e.1)

theorem smaller_lt : ∀ e ∈ m.smaller height, e.1 < height := fun _ he => StepFunction.lt_of_mem_dropWhile m.sorted he

theorem lowerBound_eq (m : HeightIndexedHistoryMap TValue) (height : HistoryHeight) :
    m.lowerBound height = m.smaller height ∨ ∃ old, m.lowerBound height = (height, old) :: m.smaller height := by
  have hsplit : m.smaller height = (m.lowerBound height).dropWhile fun e => decide (height ≤ e.1) := by
    rw [smaller, entries_eq m height, List.dropWhile_append_of_pos]
    intro e he
    simpa using (larger_gt e he).le
  rw [hsplit]
  have hle := @lowerBound_le _ m height
  have hsorted : StepFunction.Descending (m.lowerBound height) := m.sorted.sublist (List.dropWhile_sublist _)
  generalize m.lowerBound height = entries at hle hsorted
  cases entries with
  | nil => exact .inl rfl
  | cons e l =>
    have htail : l.dropWhile (fun e => decide (height ≤ e.1)) = l := by
      refine List.dropWhile_eq_self_iff.2 fun hlength => ?_
      have hlt := (List.pairwise_cons.1 hsorted).1 l[0] (List.getElem_mem hlength)
      simpa using hlt.trans_le (hle e List.mem_cons_self)
    rcases (hle e List.mem_cons_self).lt_or_eq with hlt | heq
    · exact .inl (List.dropWhile_cons_of_neg (by simpa using hlt)).symm
    · refine .inr ⟨e.2, ?_⟩
      rw [List.dropWhile_cons_of_pos (by simpa using heq.ge), htail, ← heq]

theorem canonical_lowerBound {d : TValue} (hm : StepFunction.Canonical d m.entries) :
    StepFunction.Canonical d (m.lowerBound height) := by
  rw [entries_eq m height] at hm
  exact hm.right

theorem canonical_smaller {d : TValue} (hm : StepFunction.Canonical d m.entries) :
    StepFunction.Canonical d (m.smaller height) := by
  have hlower := @canonical_lowerBound _ m height d hm
  rcases lowerBound_eq m height with heq | ⟨old, heq⟩
  · exact heq ▸ hlower
  · rw [heq, ← List.singleton_append] at hlower
    exact hlower.right

theorem chain_larger {d : TValue} (hm : StepFunction.Canonical d m.entries) :
    (m.larger height).IsChain fun a b => a.2 ≠ b.2 := by
  rw [entries_eq m height] at hm
  exact hm.left

theorem smaller_zero (m : HeightIndexedHistoryMap TValue) : m.smaller 0 = [] := by
  refine List.eq_nil_iff_forall_not_mem.2 fun e he => ?_
  exact (HistoryHeight.isMin_iff.2 rfl).not_lt (smaller_lt e he)

theorem erase_entries (m : HeightIndexedHistoryMap TValue) (height : HistoryHeight) :
    (m.erase height).entries = m.entries.filter fun e => decide (e.1 ≠ height) := rfl

theorem getAt_of_lt [Inhabited TValue] (m : HeightIndexedHistoryMap TValue) (hlt : q < height) :
    m.getAt q = StepFunction.valueAt default (m.smaller height) q := by
  rw [getAt_eq, entries_eq m height, StepFunction.valueAt_append_of_lt fun e he => hlt.trans (larger_gt e he)]
  rcases lowerBound_eq m height with heq | ⟨old, heq⟩
  · rw [heq]
  · rw [heq, ← List.singleton_append,
      StepFunction.valueAt_append_of_lt fun e he => by rw [List.mem_singleton.1 he]; exact hlt]

theorem getAt_of_le [Inhabited TValue] (m : HeightIndexedHistoryMap TValue) (hle : height ≤ q) :
    m.getAt q = StepFunction.valueAt (m.getAt height) (m.larger height) q := by
  have hlower := StepFunction.valueAt_of_le (d := (default : TValue)) fun e he =>
    (@lowerBound_le _ m height e he).trans hle
  rw [getAt_eq, entries_eq m height, StepFunction.valueAt_append, hlower]
  rfl

end Smaller

section Add
variable [DecidableEq TValue] {m : HeightIndexedHistoryMap TValue} {height q : HistoryHeight} {value : TValue}

theorem eraseLarger_entries (m : HeightIndexedHistoryMap TValue) (height : HistoryHeight) (value : TValue) :
    ((m.insertOrAssign height value).eraseLarger (m.larger height).length value).entries =
      merged (m.larger height) value ++ (height, value) :: m.smaller height := by
  have hentries : (m.insertOrAssign height value).entries =
      m.larger height ++ (height, value) :: m.smaller height := rfl
  rw [eraseLarger, merged]
  rcases List.eq_nil_or_concat' (m.larger height) with hnil | ⟨init, last, hlarger⟩
  · rw [hnil, if_neg fun h => h.1 rfl, hentries, hnil]
    rfl
  · have hget : (m.insertOrAssign height value).entries[(m.larger height).length - 1]? = some last := by
      rw [hentries, hlarger]
      simp
    rw [hget, hlarger, List.getLast?_concat, List.dropLast_concat, Option.map_some]
    by_cases hvalue : last.2 = value
    · rw [if_pos ⟨by simp, congrArg some hvalue⟩, if_pos (congrArg some hvalue), eraseAt]
      simp only [hentries, hlarger]
      rw [List.length_append, List.length_singleton, Nat.add_sub_cancel, List.append_assoc,
        List.eraseIdx_append_of_length_le le_rfl, Nat.sub_self]
      rfl
    · rw [if_neg fun h => hvalue (Option.some.inj h.2), if_neg fun h => hvalue (Option.some.inj h), hentries, hlarger]

theorem merged_head {e : HistoryHeight × TValue} (he : e ∈ m.entries.head?) (hlt : height < e.1) (hne : e.2 ≠ value) :
    e ∈ (merged (m.larger height) value).head? := by
  have hlarger : e ∈ (m.larger height).head? := by
    obtain ⟨l, hl⟩ := List.head?_eq_some_iff.1 he
    rw [larger, hl, List.takeWhile_cons_of_pos (by simpa using hlt)]
    rfl
  rcases merged_spec (m.larger height) value with ⟨heq, -⟩ | ⟨last, heq, hvalue⟩
  · rwa [← heq]
  · rw [heq] at hlarger
    cases hmerged : merged (m.larger height) value with
    | nil =>
      rw [hmerged] at hlarger
      cases hlarger
      exact absurd hvalue hne
    | cons a l =>
      rw [hmerged] at hlarger
      exact hlarger

theorem head_of_merged {e : HistoryHeight × TValue} (he : e ∈ (merged (m.larger height) value).head?) :
    e ∈ m.entries.head? := by
  obtain ⟨l, hl⟩ := List.head?_eq_some_iff.1 he
  obtain ⟨rest, hrest⟩ : ∃ rest, m.larger height = e :: rest := by
    rcases merged_spec (m.larger height) value with ⟨heq, -⟩ | ⟨last, heq, -⟩
    · exact ⟨l, heq.trans hl⟩
    · exact ⟨l ++ [last], by rw [heq, hl]; rfl⟩
  rw [entries_eq m height, hrest]
  rfl

variable [Inhabited TValue]

theorem add_entries (m : HeightIndexedHistoryMap TValue) (height : HistoryHeight) (value : TValue) :
    (m.add height value).entries = merged (m.larger height) value ++
      if StepFunction.valueAt default (merged (m.larger height) value ++ (height, value) :: m.smaller height)
        (height - 1) = value then m.smaller height
      else (height, value) :: m.smaller height := by
  have hentries := eraseLarger_entries m height value
  simp only [add, getAt_eq, hentries]
  split
  · have habove : (merged (m.larger height) value).filter (fun e => decide (e.1 ≠ height)) =
        merged (m.larger height) value :=
      List.filter_eq_self.2 fun e he => by simpa using (larger_gt e (merged_sublist.subset he)).ne'
    have hsmaller : (m.smaller height).filter (fun e => decide (e.1 ≠ height)) = m.smaller height :=
      List.filter_eq_self.2 fun e he => by simpa using (smaller_lt e he).ne
    rw [erase_entries, hentries, List.filter_append, habove, List.filter_cons_of_neg (by simp), hsmaller]
  · exact hentries

/-- At height zero the new entry is kept when the latest value, which is compared with it, is at another height and is
another value. -/
def Keeps (m : HeightIndexedHistoryMap TValue) (value : TValue) : Prop :=
  value = default ∨ ∃ e ∈ m.entries.head?, e.1 ≠ 0 ∧ e.2 ≠ value

theorem valueAt_before_zero (m : HeightIndexedHistoryMap TValue) (value : TValue) :
    StepFunction.valueAt default (merged (m.larger 0) value ++ [(0, value)]) (0 - 1) =
      StepFunction.top value (merged (m.larger 0) value) := by
  rw [StepFunction.valueAt_of_le fun e _ => HistoryHeight.le_zero_sub_one e.1]
  cases merged (m.larger 0) value <;> rfl

theorem valueAt_before (hne : height ≠ 0) (m : HeightIndexedHistoryMap TValue) (value : TValue) :
    StepFunction.valueAt default (merged (m.larger height) value ++ (height, value) :: m.smaller height) (height - 1) =
      StepFunction.top default (m.smaller height) := by
  have hlt : height - 1 < height := (HistoryHeight.lt_iff_le_sub_one hne).2 le_rfl
  rw [StepFunction.valueAt_append_of_lt fun e he => hlt.trans (larger_gt e (merged_sublist.subset he)),
    ← List.singleton_append, StepFunction.valueAt_append_of_lt fun e he => by rw [List.mem_singleton.1 he]; exact hlt]
  exact StepFunction.valueAt_of_le fun e he => (HistoryHeight.lt_iff_le_sub_one hne).1 (smaller_lt e he)

theorem add_rest (hsmaller : StepFunction.Canonical default (m.smaller height)) (hkeeps : height ≠ 0 ∨ m.Keeps value) :
    ∃ rest, (m.add height value).entries = merged (m.larger height) value ++ rest ∧
      (rest = m.smaller height ∨ rest = (height, value) :: m.smaller height) ∧
      StepFunction.top default rest = value ∧ StepFunction.Canonical default rest := by
  rw [add_entries]
  split
  · rename_i hvalue
    refine ⟨m.smaller height, rfl, .inl rfl, ?_, hsmaller⟩
    by_cases hzero : height = 0
    · subst hzero
      rw [smaller_zero] at hvalue ⊢
      rw [valueAt_before_zero] at hvalue
      rcases hkeeps.resolve_left (fun hne => hne rfl) with hdefault | ⟨e, he, hne, hother⟩
      · exact hdefault.symm
      · have hpos : 0 < e.1 := HistoryHeight.ne_zero_iff.1 hne
        have hhead := merged_head he hpos hother
        rw [StepFunction.top, Option.mem_def.1 hhead] at hvalue
        exact absurd hvalue hother
    · rwa [valueAt_before hzero] at hvalue
  · rename_i hvalue
    refine ⟨(height, value) :: m.smaller height, rfl, .inr rfl, rfl, ?_⟩
    by_cases hzero : height = 0
    · subst hzero
      rw [smaller_zero]
      refine ⟨List.isChain_singleton _, fun e he hmin => ?_⟩
      cases he
      exact absurd (HistoryHeight.isMin_iff.2 rfl) hmin
    · rw [valueAt_before hzero] at hvalue
      refine StepFunction.Canonical.append (List.isChain_singleton (height, value)) hsmaller fun e he => ?_
      cases he
      exact Ne.symm hvalue

theorem getAt_add (hsmaller : StepFunction.Canonical default (m.smaller height)) (hkeeps : height ≠ 0 ∨ m.Keeps value)
    (q : HistoryHeight) :
    (m.add height value).getAt q =
      if q < height then m.getAt q else StepFunction.valueAt value (m.larger height) q := by
  obtain ⟨rest, hentries, hrest, htop, -⟩ := add_rest hsmaller hkeeps
  rw [getAt_eq, hentries]
  split
  · rename_i hlt
    rw [StepFunction.valueAt_append_of_lt fun e he => hlt.trans (larger_gt e (merged_sublist.subset he)),
      getAt_of_lt m hlt]
    rcases hrest with rfl | rfl
    · rfl
    · rw [← List.singleton_append,
        StepFunction.valueAt_append_of_lt fun e he => by rw [List.mem_singleton.1 he]; exact hlt]
  · rename_i hnot
    have hle : ∀ e ∈ rest, e.1 ≤ q := by
      intro e he
      refine le_trans ?_ (not_lt.1 hnot)
      rcases hrest with rfl | rfl
      · exact (smaller_lt e he).le
      · rcases List.mem_cons.1 he with rfl | he
        · exact le_rfl
        · exact (smaller_lt e he).le
    rw [StepFunction.valueAt_append, StepFunction.valueAt_of_le hle, htop, valueAt_merged]

theorem canonical_add (hsmaller : StepFunction.Canonical default (m.smaller height))
    (hlarger : (m.larger height).IsChain fun a b => a.2 ≠ b.2) (hkeeps : height ≠ 0 ∨ m.Keeps value) :
    StepFunction.Canonical default (m.add height value).entries := by
  obtain ⟨rest, hentries, -, htop, hrest⟩ := add_rest hsmaller hkeeps
  have hmerged : (merged (m.larger height) value).IsChain fun a b => a.2 ≠ b.2 := by
    rcases merged_spec (m.larger height) value with ⟨heq, -⟩ | ⟨last, heq, -⟩
    · rwa [← heq]
    · rw [heq] at hlarger
      exact (List.isChain_append.1 hlarger).1
  rw [hentries]
  refine StepFunction.Canonical.append hmerged hrest ?_
  rw [htop]
  exact merged_last_ne hlarger

theorem getAt_add_zero (hnot : ¬m.Keeps value) : (m.add 0 value).getAt 0 ≠ value := by
  rw [Keeps, not_or] at hnot
  obtain ⟨hdefault, hnone⟩ := hnot
  have htop : StepFunction.top value (merged (m.larger 0) value) = value := by
    cases hmerged : merged (m.larger 0) value with
    | nil => rfl
    | cons e l =>
      by_contra hne
      have hlt := larger_gt e (merged_sublist.subset (hmerged ▸ List.mem_cons_self))
      have hhead := head_of_merged (Option.mem_def.2 (congrArg List.head? hmerged))
      exact hnone ⟨e, hhead, HistoryHeight.ne_zero_iff.2 hlt, hne⟩
  rw [getAt_eq, add_entries, smaller_zero, valueAt_before_zero, if_pos htop, List.append_nil,
    StepFunction.valueAt_of_lt fun e he => larger_gt e (merged_sublist.subset he)]
  exact Ne.symm hdefault

end Add

end HeightIndexedHistoryMap
end Catapult.State
