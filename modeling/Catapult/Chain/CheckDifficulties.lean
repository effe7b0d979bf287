import Catapult.Chain.BlockDifficulty
import Mathlib.Data.List.DropRight

/-!
# Checking the difficulties of many blocks (`ChainUtils.cpp`, `BlockStatisticCacheMixins.h`)

The difficulties of the blocks of a peer are checked with a window that slides over the statistics of the cache and of
the blocks. It is the window that the cache would return at the parent of each block, if it had the statistics of the
blocks before it.
-/

namespace Catapult.Chain
open Arithmetic

def findIterator (view : List BlockStatistic) (height : Nat) : Option Nat :=
  view.findIdx? fun statistic => statistic.height = height

/-- `count` statistics up to `height`. It is an error when the set is empty, or the arguments are out of range. -/
def statistics (view : List BlockStatistic) (height count : Nat) : Option (List BlockStatistic) := do
  let firstSetElement ← view.head?
  if height = 0 ∨ count = 0 then none
  else
    let lastIter ← findIterator view height
    let first := if height - firstSetElement.height < count - 1 then firstSetElement.height else height - (count - 1)
    let firstIter ← findIterator view first
    return (view.take (lastIter + 1)).drop firstIter

/-- `CalculateDifficulty` of a view on the cache. -/
def calculateDifficultyAt (view : List BlockStatistic) (height : Nat) (config : BlockchainConfiguration) :
    Option Difficulty := do
  let statistics ← statistics view height config.maxDifficultyBlocks.toNat
  calculateDifficulty wrapping statistics config

structure BlockHeader where
  height : Nat
  timestamp : UInt64
  difficulty : Difficulty

def BlockHeader.statistic (block : BlockHeader) : BlockStatistic := ⟨block.height, block.timestamp, block.difficulty⟩

/-- A set that is ordered by height, with at most one statistic for each height. -/
def insertStatistic (statistic : BlockStatistic) : List BlockStatistic → List BlockStatistic
  | [] => [statistic]
  | s :: l =>
    if statistic.height < s.height then statistic :: s :: l
    else if statistic.height = s.height then s :: l
    else s :: insertStatistic statistic l

/-- The statistic of a block is inserted, and the first one is erased when there are too many. -/
def slide (config : BlockchainConfiguration) (difficulties : List BlockStatistic) (block : BlockHeader) :
    List BlockStatistic :=
  let difficulties := insertStatistic block.statistic difficulties
  if config.maxDifficultyBlocks.toNat < difficulties.length then difficulties.tail else difficulties

def checkLoop (config : BlockchainConfiguration) :
    List BlockStatistic → Difficulty → List BlockHeader → Option Nat
  | _, _, [] => some 0
  | difficulties, difficulty, block :: blocks =>
    if difficulty ≠ block.difficulty then some 0
    else do
      let difficulty ← calculateDifficulty wrapping (slide config difficulties block) config
      let i ← checkLoop config (slide config difficulties block) difficulty blocks
      return i + 1

def loadDifficulties (cache : List BlockStatistic) (height : Nat) (config : BlockchainConfiguration) :
    Option (List BlockStatistic) := do
  let range ← statistics cache height config.maxDifficultyBlocks.toNat
  return range.foldl (fun set statistic => insertStatistic statistic set) []

def checkDifficulties (cache : List BlockStatistic) (blocks : List BlockHeader) (config : BlockchainConfiguration) :
    Option Nat :=
  match blocks with
  | [] => some 0
  | block :: _ => do
    let difficulties ← loadDifficulties cache (block.height - 1) config
    let difficulty ← calculateDifficulty wrapping difficulties config
    checkLoop config difficulties difficulty blocks

def Consecutive (first : Nat) (l : List BlockStatistic) : Prop :=
  l.map BlockStatistic.height = List.range' first l.length

section Window
variable {first : Nat} {l rest : List BlockStatistic}

theorem Consecutive.getElem (h : Consecutive first l) {i : Nat} (hi : i < l.length) : l[i].height = first + i := by
  have hget := List.getElem_of_eq h (by rwa [List.length_map])
  rw [List.getElem_map, List.getElem_range'] at hget
  omega

theorem Consecutive.left (h : Consecutive first (l ++ rest)) : Consecutive first l := by
  rw [Consecutive, List.map_append, List.length_append, ← List.range'_append_1] at h
  exact (List.append_inj h (by rw [List.length_map, List.length_range'])).1

theorem findIterator_eq (h : Consecutive first l) {i : Nat} (hi : i < l.length) :
    findIterator l (first + i) = some i := by
  rw [findIterator, List.findIdx?_eq_some_iff_getElem]
  refine ⟨hi, decide_eq_true (h.getElem hi), fun j hj => ?_⟩
  rw [h.getElem (hj.trans hi)]
  simp only [Bool.not_eq_true, decide_eq_false_iff_not]
  omega

theorem statistics_eq (h : Consecutive first (l ++ rest)) (hl : l ≠ []) {height count : Nat}
    (hheight : height + 1 = first + l.length) (hpos : height ≠ 0) (hcount : count ≠ 0) :
    statistics (l ++ rest) height count = some (l.rtake count) := by
  have hlen : 0 < l.length := List.length_pos_iff.2 hl
  have hlen' : l.length ≤ (l ++ rest).length := by rw [List.length_append]; exact Nat.le_add_right _ _
  have hlen'' : 0 < (l ++ rest).length := hlen.trans_le hlen'
  have hhead : (l ++ rest).head? = some (l ++ rest)[0] := by
    rw [List.head?_eq_getElem?, List.getElem?_eq_getElem]
  have hlast : height = first + (l.length - 1) := by omega
  have hfirst := h.getElem hlen''
  have htake : (l ++ rest).take (l.length - 1 + 1) = l := by
    rw [Nat.sub_add_cancel hlen, List.take_left]
  have hiter : findIterator (l ++ rest) (if height - (first + 0) < count - 1 then first + 0 else height - (count - 1)) =
      some (l.length - count) := by
    split
    · have hzero : l.length - count = 0 := by omega
      rw [hzero]
      exact findIterator_eq h (by omega)
    · have hindex : height - (count - 1) = first + (l.length - count) := by omega
      rw [hindex]
      exact findIterator_eq h (by omega)
  rw [statistics, hhead]
  simp only [Option.bind_eq_bind, Option.bind_some, hfirst, hiter]
  rw [if_neg (by simp [hpos, hcount]), hlast, findIterator_eq h (by omega)]
  simp only [Option.bind_some, htake]
  rfl

theorem insertStatistic_of_lt {statistic : BlockStatistic} (h : ∀ s ∈ l, s.height < statistic.height) :
    insertStatistic statistic l = l ++ [statistic] := by
  induction l with
  | nil => rfl
  | cons s l ih =>
    obtain ⟨hs, hl⟩ := List.forall_mem_cons.1 h
    rw [insertStatistic, if_neg (Nat.lt_asymm hs), if_neg hs.ne', ih hl]
    rfl

theorem foldl_insertStatistic {done : List BlockStatistic}
    (h : (done ++ l).Pairwise fun a b => a.height < b.height) :
    l.foldl (fun set statistic => insertStatistic statistic set) done = done ++ l := by
  induction l generalizing done with
  | nil => simp
  | cons s l ih =>
    have hlt : ∀ t ∈ done, t.height < s.height := fun t ht => (List.pairwise_append.1 h).2.2 t ht s List.mem_cons_self
    rw [List.foldl_cons, insertStatistic_of_lt hlt, ih (by rwa [List.append_assoc]), List.append_assoc]
    rfl

theorem Consecutive.pairwise (h : Consecutive first l) : l.Pairwise fun a b => a.height < b.height := by
  refine List.Pairwise.of_map (S := (· < ·)) BlockStatistic.height (fun a b hab => hab) ?_
  rw [show l.map BlockStatistic.height = List.range' first l.length from h]
  exact List.pairwise_lt_range'

theorem rtake_append_singleton {α : Type} {count : Nat} (hcount : count ≠ 0) (l : List α) (x : α) :
    (l ++ [x]).rtake count =
      if count < (l.rtake count ++ [x]).length then (l.rtake count ++ [x]).tail else l.rtake count ++ [x] := by
  obtain ⟨n, rfl⟩ := Nat.exists_eq_succ_of_ne_zero hcount
  rw [List.rtake_concat_succ]
  rcases Nat.lt_or_ge n l.length with hlong | hshort
  · have hlength : (l.rtake (n + 1)).length = n + 1 := by
      rw [List.rtake, List.length_drop]
      omega
    have hindex : l.length - n = l.length - (n + 1) + 1 := by omega
    have hne : l.rtake (n + 1) ≠ [] := by
      intro hnil
      rw [hnil] at hlength
      cases hlength
    rw [if_pos (by rw [List.length_append, hlength]; exact Nat.lt_succ_self _), List.tail_append_of_ne_nil hne,
      List.rtake, List.rtake, List.tail_drop, hindex]
  · have hall : ∀ m, l.length ≤ m → l.rtake m = l := by
      intro m hm
      rw [List.rtake, Nat.sub_eq_zero_of_le hm, List.drop_zero]
    rw [hall n hshort, hall (n + 1) (by omega), if_neg]
    rw [List.length_append, List.length_singleton]
    omega

theorem slide_eq {config : BlockchainConfiguration} {block : BlockHeader}
    (hcount : config.maxDifficultyBlocks.toNat ≠ 0) (h : Consecutive first (l ++ [block.statistic])) :
    slide config (l.rtake config.maxDifficultyBlocks.toNat) block =
      (l ++ [block.statistic]).rtake config.maxDifficultyBlocks.toNat := by
  have hlt : ∀ s ∈ l.rtake config.maxDifficultyBlocks.toNat, s.height < block.statistic.height := by
    intro s hs
    exact (List.pairwise_append.1 h.pairwise).2.2 s (List.mem_of_mem_drop hs) _ (List.mem_singleton_self _)
  rw [slide, insertStatistic_of_lt hlt, rtake_append_singleton hcount]

theorem loadDifficulties_eq {config : BlockchainConfiguration} (h : Consecutive first (l ++ rest)) (hl : l ≠ [])
    {height : Nat} (hheight : height + 1 = first + l.length) (hpos : height ≠ 0)
    (hcount : config.maxDifficultyBlocks.toNat ≠ 0) :
    loadDifficulties (l ++ rest) height config = some (l.rtake config.maxDifficultyBlocks.toNat) := by
  have hpairwise : ([] ++ l.rtake config.maxDifficultyBlocks.toNat).Pairwise
      fun a b : BlockStatistic => a.height < b.height :=
    h.left.pairwise.sublist (List.drop_sublist _ _)
  rw [loadDifficulties, statistics_eq h hl hheight hpos hcount]
  exact congrArg some (foldl_insertStatistic hpairwise)

end Window

/-- The positions up to `n` are valid, and the next one is not. -/
structure LongestPrefix (valid : Nat → Prop) (length n : Nat) : Prop where
  le : n ≤ length
  all : ∀ k < n, valid k
  stop : n < length → ¬ valid n

section LongestPrefix
variable {valid : Nat → Prop} {length n : Nat}

theorem LongestPrefix.exists (valid : Nat → Prop) (length : Nat) : ∃ n, LongestPrefix valid length n := by
  classical
  have hend : ∃ n, n = length ∨ ¬ valid n := ⟨length, Or.inl rfl⟩
  refine ⟨Nat.find hend, Nat.find_min' hend (Or.inl rfl), fun k hk => ?_, fun hlt => ?_⟩
  · exact not_not.1 (not_or.1 (Nat.find_min hend hk)).2
  · exact (Nat.find_spec hend).resolve_left hlt.ne

theorem longestPrefix_zero : LongestPrefix valid 0 n ↔ n = 0 := by
  constructor
  · intro h
    exact Nat.le_zero.1 h.le
  · rintro rfl
    exact ⟨le_rfl, fun k hk => absurd hk (Nat.not_lt_zero k), fun hlt => absurd hlt (lt_irrefl 0)⟩

theorem longestPrefix_of_not (h : ¬ valid 0) : LongestPrefix valid (length + 1) n ↔ n = 0 := by
  constructor
  · intro hlongest
    by_contra hne
    exact h (hlongest.all 0 (Nat.pos_of_ne_zero hne))
  · rintro rfl
    exact ⟨Nat.zero_le _, fun k hk => absurd hk (Nat.not_lt_zero k), fun _ => h⟩

theorem longestPrefix_succ (h : valid 0) :
    LongestPrefix valid (length + 1) n ↔ ∃ m, n = m + 1 ∧ LongestPrefix (fun k => valid (k + 1)) length m := by
  constructor
  · rintro ⟨hle, hvalid, hstop⟩
    cases n with
    | zero => exact absurd h (hstop (Nat.succ_pos _))
    | succ m =>
      exact ⟨m, rfl, Nat.le_of_succ_le_succ hle, fun k hk => hvalid (k + 1) (Nat.succ_lt_succ hk),
        fun hlt => hstop (Nat.succ_lt_succ hlt)⟩
  · rintro ⟨m, rfl, hle, hvalid, hstop⟩
    refine ⟨Nat.succ_le_succ hle, fun k hk => ?_, fun hlt => hstop (Nat.lt_of_succ_lt_succ hlt)⟩
    cases k with
    | zero => exact h
    | succ k => exact hvalid k (Nat.lt_of_succ_lt_succ hk)

end LongestPrefix

def HasDifficulty (expected : Nat → Option Difficulty) (blocks : List BlockHeader) (k : Nat) : Prop :=
  ∃ block, blocks[k]? = some block ∧ expected k = some block.difficulty

theorem checkLoop_eq_some_iff {config : BlockchainConfiguration} {window : Nat → List BlockStatistic}
    {expected : Nat → Option Difficulty} {difficulty : Difficulty} {blocks : List BlockHeader} {n : Nat}
    (hwindow : ∀ k, ∀ block, blocks[k]? = some block → slide config (window k) block = window (k + 1))
    (hexpected : ∀ k ≤ blocks.length, expected k = calculateDifficulty wrapping (window k) config)
    (hdifficulty : expected 0 = some difficulty) :
    checkLoop config (window 0) difficulty blocks = some n ↔
      LongestPrefix (HasDifficulty expected blocks) blocks.length n ∧ ∀ k ≤ n, (expected k).isSome := by
  induction blocks generalizing window expected difficulty n with
  | nil =>
    rw [checkLoop, List.length_nil, longestPrefix_zero, Option.some_inj, eq_comm]
    refine (and_iff_left_of_imp ?_).symm
    rintro rfl k hk
    rw [Nat.le_zero.1 hk, hdifficulty]
    rfl
  | cons block blocks ih =>
    have hvalid : HasDifficulty expected (block :: blocks) 0 ↔ difficulty = block.difficulty := by
      rw [HasDifficulty, hdifficulty]
      simp
    rw [checkLoop, List.length_cons]
    split
    · case isTrue hne =>
      rw [longestPrefix_of_not (mt hvalid.1 hne), Option.some_inj, eq_comm]
      refine (and_iff_left_of_imp ?_).symm
      rintro rfl k hk
      rw [Nat.le_zero.1 hk, hdifficulty]
      rfl
    · case isFalse heq =>
      have hnext : slide config (window 0) block = window 1 := hwindow 0 block rfl
      have hcalculated : expected 1 = calculateDifficulty wrapping (window 1) config := hexpected 1 (by simp)
      have hrest : ∀ {next : Difficulty} {m : Nat}, expected 1 = some next →
          (checkLoop config (window 1) next blocks = some m ↔
            LongestPrefix (fun k => HasDifficulty expected (block :: blocks) (k + 1)) blocks.length m ∧
              ∀ k ≤ m, (expected (k + 1)).isSome) := fun hsome =>
        @ih (fun k => window (k + 1)) (fun k => expected (k + 1)) _ _
          (fun k b hb => hwindow (k + 1) b hb) (fun k hk => hexpected (k + 1) (Nat.succ_le_succ hk)) hsome
      rw [longestPrefix_succ (hvalid.2 (not_not.1 heq)), hnext, ← hcalculated, Option.bind_eq_bind,
        Option.bind_eq_some_iff]
      constructor
      · rintro ⟨next, hsome, hloop⟩
        rw [Option.bind_eq_bind, Option.bind_eq_some_iff] at hloop
        obtain ⟨m, hm, hn⟩ := hloop
        cases hn
        obtain ⟨hlongest, hall⟩ := (hrest hsome).1 hm
        refine ⟨⟨m, rfl, hlongest⟩, fun k hk => ?_⟩
        cases k with
        | zero => rw [hdifficulty]; rfl
        | succ k => exact hall k (Nat.le_of_succ_le_succ hk)
      · rintro ⟨⟨m, rfl, hlongest⟩, hall⟩
        obtain ⟨next, hsome⟩ := Option.isSome_iff_exists.1 (hall 1 (Nat.succ_le_succ (Nat.zero_le m)))
        have hm := (hrest hsome).2 ⟨hlongest, fun k hk => hall (k + 1) (Nat.succ_le_succ hk)⟩
        exact ⟨next, hsome, by rw [hm]; rfl⟩

/-- The difficulty of the block after the first `k` ones, from the cache with their statistics at the height of the
parent. -/
def expectedDifficulty (cache : List BlockStatistic) (blocks : List BlockHeader) (parentHeight : Nat)
    (config : BlockchainConfiguration) (k : Nat) : Option Difficulty :=
  calculateDifficultyAt (cache ++ (blocks.take k).map BlockHeader.statistic) (parentHeight + k) config

theorem statistics_eq_none {view : List BlockStatistic} {height count : Nat} (h : height = 0 ∨ count = 0) :
    statistics view height count = none := by
  cases view with
  | nil => rfl
  | cons s view => exact if_pos h

section Extended
variable {cache rest : List BlockStatistic} {blocks : List BlockHeader} {config : BlockchainConfiguration}
  {first parentHeight n : Nat}

theorem consecutive_take (hnew : Consecutive first (cache ++ blocks.map BlockHeader.statistic)) (k : Nat) :
    Consecutive first (cache ++ (blocks.take k).map BlockHeader.statistic) := by
  apply @Consecutive.left _ _ ((blocks.drop k).map BlockHeader.statistic)
  rwa [List.append_assoc, ← List.map_append, List.take_append_drop]

def windowAt (cache : List BlockStatistic) (blocks : List BlockHeader) (config : BlockchainConfiguration) (k : Nat) :
    List BlockStatistic :=
  (cache ++ (blocks.take k).map BlockHeader.statistic).rtake config.maxDifficultyBlocks.toNat

theorem slide_windowAt (hcount : config.maxDifficultyBlocks.toNat ≠ 0)
    (hnew : Consecutive first (cache ++ blocks.map BlockHeader.statistic)) {k : Nat} {block : BlockHeader}
    (hblock : blocks[k]? = some block) :
    slide config (windowAt cache blocks config k) block = windowAt cache blocks config (k + 1) := by
  have htake : cache ++ (blocks.take (k + 1)).map BlockHeader.statistic =
      cache ++ (blocks.take k).map BlockHeader.statistic ++ [block.statistic] := by
    rw [List.take_add_one, hblock, Option.toList_some, List.map_append, List.append_assoc]
    rfl
  rw [windowAt, windowAt, htake]
  exact slide_eq hcount (htake ▸ consecutive_take hnew (k + 1))

theorem expectedDifficulty_eq (hcache : cache ≠ []) (hparent : parentHeight + 1 = first + cache.length)
    (hnew : Consecutive first (cache ++ blocks.map BlockHeader.statistic)) (hpos : parentHeight ≠ 0)
    (hcount : config.maxDifficultyBlocks.toNat ≠ 0) {k : Nat} (hk : k ≤ blocks.length) :
    expectedDifficulty cache blocks parentHeight config k =
      calculateDifficulty wrapping (windowAt cache blocks config k) config := by
  have hextended : Consecutive first (cache ++ (blocks.take k).map BlockHeader.statistic ++ []) := by
    rw [List.append_nil]
    exact consecutive_take hnew k
  have hstatistics := @statistics_eq _ _ _ hextended
    (fun hnil => hcache (List.append_eq_nil_iff.1 hnil).1) (parentHeight + k) _ (by simp [hk]; omega) (by omega) hcount
  rw [List.append_nil] at hstatistics
  rw [expectedDifficulty, calculateDifficultyAt, hstatistics]
  rfl

/-- The sliding window finds the same difficulties as the extended cache. `rest` are statistics from the height of the
first block on, which the blocks are going to replace. -/
theorem checkDifficulties_eq_some_iff (hcache : cache ≠ []) (hparent : parentHeight + 1 = first + cache.length)
    (hold : Consecutive first (cache ++ rest)) (hnew : Consecutive first (cache ++ blocks.map BlockHeader.statistic)) :
    checkDifficulties (cache ++ rest) blocks config = some n ↔
      LongestPrefix (HasDifficulty (expectedDifficulty cache blocks parentHeight config) blocks) blocks.length n ∧
        (blocks ≠ [] → ∀ k ≤ n, (expectedDifficulty cache blocks parentHeight config k).isSome) := by
  cases hblocks : blocks with
  | nil =>
    rw [checkDifficulties, List.length_nil, longestPrefix_zero, Option.some_inj, eq_comm]
    exact (and_iff_left fun hne => absurd rfl hne).symm
  | cons block tail =>
    have hheight : block.height - 1 = parentHeight := by
      have hget := hnew.getElem (i := cache.length) (by simp [hblocks])
      simp only [hblocks, List.map_cons, List.getElem_append_right le_rfl, Nat.sub_self, List.getElem_cons_zero,
        BlockHeader.statistic] at hget
      omega
    rw [checkDifficulties, hheight, ← hblocks, and_congr_right fun _ => forall_prop_of_true (by simp [hblocks])]
    by_cases hnone : parentHeight = 0 ∨ config.maxDifficultyBlocks.toNat = 0
    · -- the first window cannot be loaded, and there is no expected difficulty either
      have hexpected : expectedDifficulty cache blocks parentHeight config 0 = none := by
        rw [expectedDifficulty, calculateDifficultyAt, Nat.add_zero, statistics_eq_none hnone]
        rfl
      rw [loadDifficulties, statistics_eq_none hnone]
      refine iff_of_false (by simp) fun hall => ?_
      have hsome := hall.2 0 (Nat.zero_le n)
      rw [hexpected] at hsome
      cases hsome
    · obtain ⟨hpos, hcount⟩ := not_or.1 hnone
      have hzero : cache.rtake config.maxDifficultyBlocks.toNat = windowAt cache blocks config 0 := by
        rw [windowAt, List.take_zero, List.map_nil, List.append_nil]
      have hexpected := fun k hk => expectedDifficulty_eq (k := k) hcache hparent hnew hpos hcount hk
      rw [loadDifficulties_eq hold hcache hparent hpos hcount, hzero]
      simp only [Option.bind_eq_bind, Option.bind_some]
      rw [← hexpected 0 (Nat.zero_le _)]
      cases hdifficulty : expectedDifficulty cache blocks parentHeight config 0 with
      | none =>
        refine iff_of_false (by simp) fun hall => ?_
        have hsome := hall.2 0 (Nat.zero_le n)
        rw [hdifficulty] at hsome
        cases hsome
      | some difficulty =>
        exact checkLoop_eq_some_iff (fun k block hblock => slide_windowAt hcount hnew hblock) hexpected hdifficulty

theorem calculateDifficulty_isSome {statistics : List BlockStatistic}
    (hsorted : statistics.Pairwise fun a b => a.timestamp < b.timestamp) :
    (calculateDifficulty wrapping statistics config).isSome := by
  rw [calculateDifficulty]
  split
  · case h_1 first last hfirst hlast =>
    split
    · rfl
    · case isFalse hlen =>
      have hlt := rawTimestamp_lt hsorted (Nat.le_of_not_lt hlen) hfirst hlast
      exact scaleDifficulty_isSome (Nat.le_of_not_lt hlen) hlt
  · rfl

theorem expectedDifficulty_isSome (hcache : cache ≠ []) (hparent : parentHeight + 1 = first + cache.length)
    (hnew : Consecutive first (cache ++ blocks.map BlockHeader.statistic)) (hpos : parentHeight ≠ 0)
    (hcount : config.maxDifficultyBlocks.toNat ≠ 0)
    (hsorted : (cache ++ blocks.map BlockHeader.statistic).Pairwise fun a b => a.timestamp < b.timestamp) {k : Nat}
    (hk : k ≤ blocks.length) : (expectedDifficulty cache blocks parentHeight config k).isSome := by
  rw [expectedDifficulty_eq hcache hparent hnew hpos hcount hk]
  refine calculateDifficulty_isSome (hsorted.sublist ((List.drop_sublist _ _).trans ?_))
  exact (List.Sublist.refl _).append ((List.take_sublist k blocks).map BlockHeader.statistic)

/-- The check returns the length of the longest prefix when the difficulties up to it can be calculated, and it always
returns for increasing timestamps. -/
theorem checkDifficulties_spec (hcache : cache ≠ []) (hparent : parentHeight + 1 = first + cache.length)
    (hold : Consecutive first (cache ++ rest)) (hnew : Consecutive first (cache ++ blocks.map BlockHeader.statistic)) :
    (∀ n, checkDifficulties (cache ++ rest) blocks config = some n ↔
      LongestPrefix (HasDifficulty (expectedDifficulty cache blocks parentHeight config) blocks) blocks.length n ∧
        (blocks ≠ [] → ∀ k ≤ n, (expectedDifficulty cache blocks parentHeight config k).isSome)) ∧
    (parentHeight ≠ 0 → config.maxDifficultyBlocks.toNat ≠ 0 →
      ((cache ++ blocks.map BlockHeader.statistic).Pairwise fun a b => a.timestamp < b.timestamp) →
      ∃ n, checkDifficulties (cache ++ rest) blocks config = some n) := by
  have hspec := fun n => @checkDifficulties_eq_some_iff _ _ _ config _ _ n hcache hparent hold hnew
  refine ⟨hspec, fun hpos hcount hsorted => ?_⟩
  obtain ⟨n, hn⟩ := LongestPrefix.exists
    (HasDifficulty (expectedDifficulty cache blocks parentHeight config) blocks) blocks.length
  refine ⟨n, (hspec n).2 ⟨hn, fun _ k hk => ?_⟩⟩
  exact expectedDifficulty_isSome hcache hparent hnew hpos hcount hsorted (hk.trans hn.le)

end Extended

def sampleHeader (height : Nat) (timestamp : UInt64) : BlockHeader := ⟨height, timestamp, Difficulty.default⟩

theorem checkDifficulties_sample :
    ∃ n, checkDifficulties ([(sampleHeader 1 1000).statistic] ++ []) [sampleHeader 2 31000, sampleHeader 3 32000]
      difficultyConfiguration = some n :=
  (@checkDifficulties_spec [(sampleHeader 1 1000).statistic] [] [sampleHeader 2 31000, sampleHeader 3 32000]
    difficultyConfiguration 1 1 (by decide) rfl rfl rfl).2 (by decide) (by decide) (by decide)

/-- The difficulty of the only block is the expected one. But the next difficulty is calculated, too, and divides by
zero, because the block has the timestamp of its parent. -/
theorem not_checkDifficulties_sample :
    expectedDifficulty [(sampleHeader 1 1000).statistic] [sampleHeader 2 1000] 1 difficultyConfiguration 0 =
        some (sampleHeader 2 1000).difficulty ∧
      checkDifficulties [(sampleHeader 1 1000).statistic] [sampleHeader 2 1000] difficultyConfiguration = none := by
  decide +kernel

end Catapult.Chain
