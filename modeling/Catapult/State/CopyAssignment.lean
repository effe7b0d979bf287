import Catapult.State.AccountState

/-!
# Copies of account states (`operator=`)

Balances are copied mosaic by mosaic into what the target has already, and the array of a stack is copied when the
source has one. So what a target has stays there when it is not overwritten.
-/

namespace Catapult.State

/-- `AccountBalances::operator=`. -/
def AccountBalances.assign (target source : AccountBalances) : Except BalanceError AccountBalances := do
  let balances ← target.balances.optimize source.optimizedMosaicId
  let balances ← source.mosaics.foldlM CompactMosaicMap.insert balances
  return ⟨balances, source.optimizedMosaicId⟩

namespace CompactMosaicMap
variable {m m' : CompactMosaicMap} {pair : Mosaic} {pairs : List Mosaic}

theorem perm_of_insert_eq_ok (hm : m.Valid) (hok : m.insert pair = .ok m') :
    m'.Valid ∧ m'.mosaics.Perm (pair :: m.mosaics) := by
  by_cases hid : pair.1 = 0
  · rw [insert, if_pos hid] at hok
    cases hok
  · cases hfind : m.find? pair.1 with
    | none =>
      obtain ⟨m'', hok', hvalid, -, hperm⟩ := insert_spec hm hid (hm.find?_eq_none_iff.1 hfind)
      cases hok'.symm.trans hok
      exact ⟨hvalid, hperm⟩
    | some amount =>
      have hsome : (m.find pair.1).isSome = true := by
        rw [find?] at hfind
        cases hlocation : m.find pair.1 with
        | none =>
          rw [hlocation] at hfind
          cases hfind
        | some location => rfl
      rw [insert, if_neg hid, if_pos hsome] at hok
      cases hok

theorem perm_of_foldlM_insert_eq_ok (hm : m.Valid) (hok : pairs.foldlM insert m = .ok m') :
    m'.Valid ∧ m'.mosaics.Perm (pairs ++ m.mosaics) := by
  induction pairs generalizing m with
  | nil =>
    cases hok
    exact ⟨hm, .refl _⟩
  | cons pair pairs ih =>
    rw [List.foldlM_cons] at hok
    cases hinsert : m.insert pair with
    | error e =>
      rw [hinsert] at hok
      cases hok
    | ok next =>
      rw [hinsert] at hok
      obtain ⟨hvalid, hperm⟩ := perm_of_insert_eq_ok hm hinsert
      obtain ⟨hvalid', hperm'⟩ := ih hvalid hok
      exact ⟨hvalid', hperm'.trans ((hperm.append_left pairs).trans List.perm_middle)⟩

theorem exists_foldlM_insert (hm : m.Valid) (hids : ∀ e ∈ pairs, e.1 ≠ 0)
    (hnodup : ((pairs ++ m.mosaics).map Prod.fst).Nodup) : ∃ m', pairs.foldlM insert m = .ok m' := by
  induction pairs generalizing m with
  | nil => exact ⟨m, rfl⟩
  | cons pair pairs ih =>
    obtain ⟨hid, hids⟩ := List.forall_mem_cons.1 hids
    rw [List.cons_append, List.map_cons, List.nodup_cons] at hnodup
    obtain ⟨next, hnext, hvalid, -, hperm⟩ := insert_spec hm hid fun e he heq =>
      hnodup.1 (heq ▸ List.mem_map_of_mem (List.mem_append_right _ he))
    have hmiddle : ((pairs ++ next.mosaics).map Prod.fst).Perm ((pair :: (pairs ++ m.mosaics)).map Prod.fst) :=
      ((hperm.append_left pairs).trans List.perm_middle).map Prod.fst
    obtain ⟨m', hm'⟩ := ih hvalid hids (hmiddle.nodup_iff.2 (List.nodup_cons.2 hnodup))
    exact ⟨m', by rw [List.foldlM_cons, hnext]; exact hm'⟩

theorem find?_eq_of_perm (hm : m.Valid) (hm' : m'.Valid) (hperm : m'.mosaics.Perm m.mosaics) (id : MosaicId) :
    m'.find? id = m.find? id :=
  hm'.find?_eq fun amount => by rw [hperm.mem_iff, hm.find?_eq_some_iff]

end CompactMosaicMap

/-- A `CompactArrayStack` that has an array only when it needs one. -/
structure AllocatedStack (α : Type) [Inhabited α] (n : Nat) where
  array : Option (List α) := none
  size : UInt64 := 0
  length_eq : ∀ values ∈ array, values.length = n := by simp

namespace AllocatedStack
variable {α : Type} [Inhabited α] {n : Nat}

/-- The iteration from `begin` to `end`. Without an array it goes over default values. -/
def values (stack : AllocatedStack α n) : List α := stack.array.getD (List.replicate n default)

/-- `operator=`. -/
def assign (target source : AllocatedStack α n) : AllocatedStack α n where
  array := source.array.or target.array
  size := source.size
  length_eq values hvalues := by
    rcases Option.or_eq_some_iff.1 hvalues with h | ⟨-, h⟩
    · exact source.length_eq values h
    · exact target.length_eq values h

def push (value : α) (stack : AllocatedStack α n) : AllocatedStack α n where
  array := some ((value :: stack.values).take n)
  size := if stack.size.toNat < n then stack.size + 1 else stack.size
  length_eq values hvalues := by
    cases hvalues
    rw [List.length_take, List.length_cons, AllocatedStack.values]
    cases harray : stack.array with
    | none => simp
    | some array => simp [stack.length_eq array harray]

theorem values_of_none {stack : AllocatedStack α n} (h : stack.array = none) :
    stack.values = List.replicate n default := by
  rw [values, h, Option.getD_none]

theorem values_of_some {stack : AllocatedStack α n} {array : List α} (h : stack.array = some array) :
    stack.values = array := by
  rw [values, h, Option.getD_some]

theorem values_assign (target source : AllocatedStack α n) :
    (target.assign source).values = if source.array = none then target.values else source.values := by
  cases hsource : source.array with
  | none =>
    rw [if_pos rfl]
    show (source.array.or target.array).getD (List.replicate n default) = target.values
    rw [hsource, Option.none_or, values]
  | some array =>
    rw [if_neg (Option.some_ne_none array), values_of_some hsource]
    exact values_of_some (show source.array.or target.array = some array by rw [hsource, Option.some_or])

structure Alike (stack stack' : AllocatedStack α n) : Prop where
  values_eq : stack'.values = stack.values
  size_eq : stack'.size = stack.size

/-- The array of a source replaces the one of the target. Without an array of its own, the values of the target are
to be default values. -/
def Replaced (target source : AllocatedStack α n) : Prop :=
  source.array ≠ none ∨ target.values = List.replicate n default

theorem alike_iff_replaced (target source : AllocatedStack α n) :
    Alike source (target.assign source) ↔ target.Replaced source := by
  have hvalues := values_assign target source
  constructor
  · intro h
    by_cases hsource : source.array = none
    · rw [if_pos hsource, h.values_eq, values_of_none hsource] at hvalues
      exact .inr hvalues.symm
    · exact .inl hsource
  · rintro (hsource | htarget)
    · exact ⟨hvalues.trans (if_neg hsource), rfl⟩
    · refine ⟨?_, rfl⟩
      rw [hvalues]
      split
      · case isTrue hsource => rw [htarget, values_of_none hsource]
      · rfl

end AllocatedStack

/-- What is copied by hand in an `AccountState`. -/
structure AccountStateValue where
  importanceSnapshots : AllocatedStack ImportanceSnapshot importanceHistorySize := {}
  activityBuckets : AllocatedStack ActivityBucket activityBucketHistorySize := {}
  balances : AccountBalances := {}
  valid : balances.balances.Valid

namespace AccountStateValue

/-- The members after `operator=`. -/
def assign (target source : AccountStateValue) : Except BalanceError (AllocatedStack ImportanceSnapshot
    importanceHistorySize × AllocatedStack ActivityBucket activityBucketHistorySize × AccountBalances) := do
  let importanceSnapshots := target.importanceSnapshots.assign source.importanceSnapshots
  let activityBuckets := target.activityBuckets.assign source.activityBuckets
  let balances ← target.balances.assign source.balances
  return ⟨importanceSnapshots, activityBuckets, balances⟩

end AccountStateValue

namespace AccountBalances

structure SeenAs (b b' : AccountBalances) : Prop where
  get_eq : ∀ id, b'.get id = b.get id
  size_eq : b'.size = b.size

variable {target source b : AccountBalances}

theorem perm_of_assign_eq_ok (htarget : target.balances.Valid) (hok : target.assign source = .ok b) :
    b.mosaics.Perm (source.mosaics ++ target.mosaics) := by
  obtain ⟨optimized, hoptimize, hvalid, -, hperm⟩ :=
    CompactMosaicMap.optimize_spec htarget source.optimizedMosaicId
  rw [assign, hoptimize] at hok
  change ((source.mosaics.foldlM CompactMosaicMap.insert optimized).bind _) = _ at hok
  cases hinsert : source.mosaics.foldlM CompactMosaicMap.insert optimized with
  | error e =>
    rw [hinsert] at hok
    cases hok
  | ok balances =>
    rw [hinsert] at hok
    cases hok
    exact (CompactMosaicMap.perm_of_foldlM_insert_eq_ok hvalid hinsert).2.trans (hperm.append_left source.mosaics)

theorem assign_of_empty (htarget : target.balances.Valid) (hempty : target.mosaics = [])
    (hsource : source.balances.Valid) : ∃ b, target.assign source = .ok b ∧ SeenAs source b := by
  obtain ⟨optimized, hoptimize, hvalid, -, hperm⟩ :=
    CompactMosaicMap.optimize_spec htarget source.optimizedMosaicId
  have hnil : optimized.mosaics = [] := List.perm_nil.1 (hempty ▸ hperm)
  obtain ⟨balances, hinsert⟩ := CompactMosaicMap.exists_foldlM_insert hvalid hsource.ids
    (by rw [hnil, List.append_nil]; exact nodup_of_optimized hsource.sorted)
  obtain ⟨hbalances, hsame⟩ := CompactMosaicMap.perm_of_foldlM_insert_eq_ok hvalid hinsert
  rw [hnil, List.append_nil] at hsame
  refine ⟨⟨balances, source.optimizedMosaicId⟩, ?_, fun id => ?_, ?_⟩
  · rw [assign, hoptimize]
    change ((source.mosaics.foldlM CompactMosaicMap.insert optimized).bind _) = _
    rw [mosaics, hinsert]
    rfl
  · rw [get, get, CompactMosaicMap.find?_eq_of_perm hsource hbalances hsame]
  · rw [size, size, CompactMosaicMap.size_eq, CompactMosaicMap.size_eq, hsame.length_eq]

end AccountBalances

namespace AccountStateValue

/-- Balances are added to what the target has, so it needs to have none, and a stack without an array leaves the
values of the target. -/
theorem alike_assign_iff (target source : AccountStateValue) :
    (∃ result, target.assign source = .ok result ∧ source.importanceSnapshots.Alike result.1 ∧
      source.activityBuckets.Alike result.2.1 ∧ source.balances.SeenAs result.2.2) ↔
    target.importanceSnapshots.Replaced source.importanceSnapshots ∧
      target.activityBuckets.Replaced source.activityBuckets ∧ target.balances.mosaics = [] := by
  constructor
  · rintro ⟨⟨importanceSnapshots, activityBuckets, balances⟩, hok, hsnapshots, hbuckets, hbalances⟩
    cases hassign : target.balances.assign source.balances with
    | error e =>
      rw [assign, hassign] at hok
      cases hok
    | ok b =>
      rw [assign, hassign] at hok
      cases hok
      refine ⟨(AllocatedStack.alike_iff_replaced _ _).1 hsnapshots,
        (AllocatedStack.alike_iff_replaced _ _).1 hbuckets, ?_⟩
      have hlength := (AccountBalances.perm_of_assign_eq_ok target.valid hassign).length_eq
      have hsize := hbalances.size_eq
      simp only [AccountBalances.size, CompactMosaicMap.size_eq] at hsize
      rw [List.length_append, AccountBalances.mosaics, AccountBalances.mosaics, hsize] at hlength
      exact List.eq_nil_of_length_eq_zero (by omega)
  · rintro ⟨hsnapshots, hbuckets, hempty⟩
    obtain ⟨b, hassign, halike⟩ := AccountBalances.assign_of_empty target.valid hempty source.valid
    refine ⟨⟨_, _, b⟩, ?_, (AllocatedStack.alike_iff_replaced _ _).2 hsnapshots,
      (AllocatedStack.alike_iff_replaced _ _).2 hbuckets, halike⟩
    rw [assign, hassign]
    rfl

def used : AccountStateValue where
  importanceSnapshots := AllocatedStack.push ⟨7, 100⟩ {}
  balances := ⟨{ value := (⟨1⟩, 5) }, 0⟩
  valid := by
    obtain ⟨m, hok, hvalid, -⟩ := @CompactMosaicMap.insert_spec {} (⟨1⟩, 5) AccountBalances.valid_empty.balances
      (by decide) fun _ he => nomatch he
    cases hok
    exact hvalid

def unused : AccountStateValue := ⟨{}, {}, {}, AccountBalances.valid_empty.balances⟩

/-- An account that was in use has its mosaic still when an unused one is assigned to it. -/
theorem not_alike_assign_sample : ¬∀ target source : AccountStateValue, ∃ result,
    target.assign source = .ok result ∧ source.importanceSnapshots.Alike result.1 ∧
      source.activityBuckets.Alike result.2.1 ∧ source.balances.SeenAs result.2.2 := by
  intro h
  obtain ⟨result, hok, -, -, hbalances⟩ := h used unused
  cases hok
  exact absurd (hbalances.get_eq ⟨1⟩) (by decide)

end AccountStateValue

end Catapult.State
