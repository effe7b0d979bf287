import Catapult.State.AccountStateSerializer

/-!
# The ledger of an account (`AccountBalances`)

Credits and debits are counted when they do not throw. As long as no credit is out of the range of an amount, a
balance is what was credited less what was debited (`Counts`), and balances are determined by their amounts: with the
same amounts and the same optimized mosaic they are written with the same bytes. So what a credit and a debit of the
same amount change, in any order, is restored.
-/

namespace Catapult.State

inductive BalanceOperation where
  | credit (id : MosaicId) (amount : Amount)
  | debit (id : MosaicId) (amount : Amount)
  | optimize (id : MosaicId)
  deriving DecidableEq

namespace BalanceOperation

def credited (id : MosaicId) : BalanceOperation → Nat
  | credit mosaicId amount => if id = mosaicId then amount.toNat else 0
  | debit _ _ | optimize _ => 0

def debited (id : MosaicId) : BalanceOperation → Nat
  | debit mosaicId amount => if id = mosaicId then amount.toNat else 0
  | credit _ _ | optimize _ => 0

def Concerns (id : MosaicId) : BalanceOperation → Prop
  | credit mosaicId _ | debit mosaicId _ => id = mosaicId
  | optimize _ => False

end BalanceOperation

def credits (id : MosaicId) (ops : List BalanceOperation) : Nat := (ops.map (·.credited id)).sum

def debits (id : MosaicId) (ops : List BalanceOperation) : Nat := (ops.map (·.debited id)).sum

namespace AccountBalances

def step (b : AccountBalances) : BalanceOperation → Except BalanceError AccountBalances
  | .credit id amount => b.credit id amount
  | .debit id amount => b.debit id amount
  | .optimize id => b.optimize id

/-- What throws has not changed anything. -/
def apply (b : AccountBalances) (op : BalanceOperation) : AccountBalances := (b.step op).toOption.getD b

def run (b : AccountBalances) (ops : List BalanceOperation) : AccountBalances := ops.foldl apply b

def done (b : AccountBalances) : List BalanceOperation → List BalanceOperation
  | [] => []
  | op :: ops => (if (b.step op).toOption.isSome then [op] else []) ++ done (b.apply op) ops

/-- The balance after a credit is in the range of an amount. -/
def Fits (b : AccountBalances) : BalanceOperation → Prop
  | .credit id amount => (b.get id).toNat + amount.toNat < 2 ^ 64
  | _ => True

def InRange (b : AccountBalances) : List BalanceOperation → Prop
  | [] => True
  | op :: ops => b.Fits op ∧ InRange (b.apply op) ops

structure Alike (b b' : AccountBalances) : Prop where
  mosaics : b'.mosaics = b.mosaics
  optimizedMosaicId : b'.optimizedMosaicId = b.optimizedMosaicId
  bytes : writeMosaics b' = writeMosaics b

section Amounts
variable {b b' : AccountBalances} {id : MosaicId} {amount : Amount}

theorem get_of_find? {o : Option Amount} (h : b.balances.find? id = o) : b.get id = o.getD 0 := by rw [get, h]

theorem Valid.find?_eq (hb : b.Valid) (id : MosaicId) :
    b.balances.find? id = if b.get id = 0 then none else some (b.get id) := by
  rw [get]
  cases hfind : b.balances.find? id with
  | none => rfl
  | some amount =>
    have hne : amount ≠ 0 := hb.amounts (id, amount) (CompactMosaicMap.mem_of_find? hfind)
    rw [Option.getD_some, if_neg hne]

theorem Valid.get_zero (hb : b.Valid) : b.get 0 = 0 := by
  cases hfind : b.balances.find? 0 with
  | none => rw [get_of_find? hfind]; rfl
  | some amount => exact absurd rfl (hb.balances.ids (0, amount) (CompactMosaicMap.mem_of_find? hfind))

theorem alike_of_get (hb : b.Valid) (hb' : b'.Valid) (hopt : b'.optimizedMosaicId = b.optimizedMosaicId)
    (hget : ∀ k, b'.get k = b.get k) : Alike b b' := by
  have hmosaics : b'.mosaics = b.mosaics := by
    refine hb'.balances.mosaics_eq ?_ fun e => ?_
    · rw [← hb'.optimized, hopt, hb.optimized]
      exact hb.balances.sorted
    · rw [hb'.find?_eq, hget, ← hb.find?_eq]
      exact hb.balances.find?_eq_some_iff.symm
  refine ⟨hmosaics, hopt, ?_⟩
  rw [writeMosaics, writeMosaics, hmosaics, size, size, CompactMosaicMap.size_eq, CompactMosaicMap.size_eq]
  exact congrArg (fun l : List Mosaic => leBytes 2 l.length ++ b.mosaics.flatMap mosaicBytes) hmosaics

theorem get_setAmount (hb : b.Valid) {balance : Amount} (hfind : b.balances.find? id = some balance) (k : MosaicId) :
    ({ b with balances := b.balances.setAmount id amount } : AccountBalances).get k =
      if k = id then amount else b.get k := by
  rw [get, get, CompactMosaicMap.find?_setAmount hb.balances, hfind]
  split <;> rfl

theorem credit_error_iff (hb : b.Valid) : (∃ error, b.credit id amount = .error error) ↔ id = 0 ∧ amount ≠ 0 := by
  rw [credit]
  split
  · rename_i hzero
    exact iff_of_false (by rintro ⟨_, ⟨⟩⟩) fun h => h.2 hzero
  rename_i hamount
  rw [and_iff_left hamount]
  cases hfind : b.balances.find? id with
  | some balance =>
    refine iff_of_false (by rintro ⟨_, ⟨⟩⟩) fun hid => ?_
    exact hb.balances.ids (id, balance) (CompactMosaicMap.mem_of_find? hfind) hid
  | none =>
    by_cases hid : id = 0
    · refine iff_of_true ⟨.reservedMosaic id, ?_⟩ hid
      simp only [CompactMosaicMap.insert, if_pos hid]
      rfl
    · refine iff_of_false ?_ hid
      obtain ⟨m, hok, -⟩ := @CompactMosaicMap.find?_insert _ (id, amount) hb.balances hid hfind
      simp [hok]

theorem credit_spec (hb : b.Valid) (hfits : b.Fits (.credit id amount)) (hok : b.credit id amount = .ok b') :
    b'.Valid ∧ b'.optimizedMosaicId = b.optimizedMosaicId ∧
    ∀ k, b'.get k = if k = id then b.get id + amount else b.get k := by
  have hwrap : ∀ balance, b.balances.find? id = some balance → balance + amount ≠ 0 := by
    intro balance hfind hzero
    have hne : balance ≠ 0 := hb.amounts (id, balance) (CompactMosaicMap.mem_of_find? hfind)
    rw [Fits, get_of_find? hfind, Option.getD_some] at hfits
    have hsum := congrArg UInt64.toNat hzero
    rw [UInt64.toNat_add, Nat.mod_eq_of_lt hfits, UInt64.toNat_zero] at hsum
    exact hne (UInt64.toNat_inj.1 (by rw [UInt64.toNat_zero]; omega))
  have hid : amount ≠ 0 → id ≠ 0 := by
    intro hne hzero
    obtain ⟨error, herror⟩ := (credit_error_iff hb).2 ⟨hzero, hne⟩
    rw [herror] at hok
    cases hok
  refine ⟨credit_valid hb hwrap hok, ?_⟩
  rw [credit] at hok
  split at hok
  · rename_i hzero
    cases hok
    refine ⟨rfl, fun k => ?_⟩
    rw [hzero, UInt64.add_zero]
    split
    · rename_i heq
      rw [heq]
    · rfl
  rename_i hamount
  cases hfind : b.balances.find? id with
  | some balance =>
    rw [hfind] at hok
    cases hok
    refine ⟨rfl, fun k => ?_⟩
    rw [get_setAmount hb hfind, get_of_find? hfind, Option.getD_some]
  | none =>
    obtain ⟨m, hinsert, -, -, hfinds⟩ :=
      @CompactMosaicMap.find?_insert _ (id, amount) hb.balances (hid hamount) hfind
    rw [hfind] at hok
    simp only [hinsert] at hok
    cases hok
    refine ⟨rfl, fun k => ?_⟩
    rw [get, hfinds, get_of_find? hfind, Option.getD_none, UInt64.zero_add]
    split <;> rfl

theorem debit_error_iff : (∃ error, b.debit id amount = .error error) ↔ b.get id < amount := by
  rw [debit]
  split
  · rename_i hzero
    rw [hzero]
    exact iff_of_false (by rintro ⟨_, ⟨⟩⟩) UInt64.not_lt_zero
  rename_i hamount
  cases hfind : b.balances.find? id with
  | none =>
    refine iff_of_true ⟨_, rfl⟩ ?_
    rw [get_of_find? hfind]
    exact UInt64.pos_iff_ne_zero.2 hamount
  | some balance =>
    rw [get_of_find? hfind, Option.getD_some]
    by_cases hlt : balance < amount
    · exact iff_of_true ⟨_, if_pos hlt⟩ hlt
    · refine iff_of_false ?_ hlt
      simp only [if_neg hlt]
      split <;> rintro ⟨_, ⟨⟩⟩

theorem debit_spec (hb : b.Valid) (hok : b.debit id amount = .ok b') :
    b'.Valid ∧ b'.optimizedMosaicId = b.optimizedMosaicId ∧
    ∀ k, b'.get k = if k = id then b.get id - amount else b.get k := by
  refine ⟨debit_valid hb hok, ?_⟩
  rw [debit] at hok
  split at hok
  · rename_i hzero
    cases hok
    refine ⟨rfl, fun k => ?_⟩
    rw [hzero, UInt64.sub_zero]
    split
    · rename_i heq
      rw [heq]
    · rfl
  cases hfind : b.balances.find? id with
  | none =>
    rw [hfind] at hok
    cases hok
  | some balance =>
    rw [hfind] at hok
    simp only at hok
    split at hok
    · cases hok
    rw [get_of_find? hfind, Option.getD_some]
    split at hok
    · rename_i hzero
      cases hok
      refine ⟨rfl, fun k => ?_⟩
      rw [get, get, (CompactMosaicMap.find?_erase hb.balances id).2.2, hzero]
      split <;> rfl
    · cases hok
      exact ⟨rfl, get_setAmount hb hfind⟩

theorem optimize_get (hb : b.Valid) (id : MosaicId) :
    ∃ b', b.optimize id = .ok b' ∧ b'.Valid ∧ ∀ k, b'.get k = b.get k := by
  obtain ⟨b', hok, hvalid, -, hperm⟩ := optimize_spec hb id
  refine ⟨b', hok, hvalid, fun k => ?_⟩
  rw [get, get]
  refine congrArg (Option.getD · 0) (hvalid.balances.find?_eq fun amount => ?_)
  rw [hb.balances.find?_eq_some_iff]
  exact hperm.mem_iff

theorem debit_of_credit (hb : b.Valid) (hfits : b.Fits (.credit id amount)) (hok : b.credit id amount = .ok b') :
    ∃ b'', b'.debit id amount = .ok b'' ∧ Alike b b'' := by
  obtain ⟨hvalid', hopt', hget'⟩ := credit_spec hb hfits hok
  have hle : ¬b'.get id < amount := by
    rw [hget', if_pos rfl, UInt64.not_lt, UInt64.le_iff_toNat_le, UInt64.toNat_add, Nat.mod_eq_of_lt hfits]
    exact Nat.le_add_left _ _
  cases hdebit : b'.debit id amount with
  | error error => exact absurd (debit_error_iff.1 ⟨error, hdebit⟩) hle
  | ok b'' =>
    obtain ⟨hvalid'', hopt'', hget''⟩ := debit_spec hvalid' hdebit
    refine ⟨b'', rfl, alike_of_get hb hvalid'' (hopt''.trans hopt') fun k => ?_⟩
    rw [hget'', hget', hget', if_pos rfl]
    split
    · rename_i heq
      rw [heq, UInt64.add_sub_cancel]
    · rfl

theorem credit_of_debit (hb : b.Valid) (hok : b.debit id amount = .ok b') :
    ∃ b'', b'.credit id amount = .ok b'' ∧ Alike b b'' := by
  obtain ⟨hvalid', hopt', hget'⟩ := debit_spec hb hok
  have hle : amount ≤ b.get id := by
    rw [← UInt64.not_lt, ← debit_error_iff]
    rintro ⟨error, herror⟩
    rw [herror] at hok
    cases hok
  have hfits : b'.Fits (.credit id amount) := by
    rw [Fits, hget', if_pos rfl, UInt64.toNat_sub_of_le _ _ hle, Nat.sub_add_cancel (UInt64.le_iff_toNat_le.1 hle)]
    exact UInt64.toNat_lt _
  cases hcredit : b'.credit id amount with
  | error error =>
    obtain ⟨rfl, hne⟩ := (credit_error_iff hvalid').1 ⟨error, hcredit⟩
    rw [hb.get_zero] at hle
    exact absurd (UInt64.le_zero_iff.1 hle) hne
  | ok b'' =>
    obtain ⟨hvalid'', hopt'', hget''⟩ := credit_spec hvalid' hfits hcredit
    refine ⟨b'', rfl, alike_of_get hb hvalid'' (hopt''.trans hopt') fun k => ?_⟩
    rw [hget'', hget', hget', if_pos rfl]
    split
    · rename_i heq
      rw [heq, UInt64.sub_add_cancel]
    · rfl

end Amounts

/-- Every balance is what was credited less what was debited. -/
structure Counts (b : AccountBalances) (ops : List BalanceOperation) : Prop where
  valid : b.Valid
  get : ∀ id, (b.get id).toNat + debits id ops = credits id ops

section Runs
variable {b b' : AccountBalances} {op : BalanceOperation} {ops : List BalanceOperation}

theorem credits_append (id : MosaicId) (ops ops' : List BalanceOperation) :
    credits id (ops ++ ops') = credits id ops + credits id ops' := by
  simp [credits]

theorem debits_append (id : MosaicId) (ops ops' : List BalanceOperation) :
    debits id (ops ++ ops') = debits id ops + debits id ops' := by
  simp [debits]

theorem counts_empty : Counts {} [] := ⟨valid_empty, fun _ => rfl⟩

theorem step_spec (hb : b.Valid) (hfits : b.Fits op) (hok : b.step op = .ok b') :
    b'.Valid ∧ ∀ id, (b'.get id).toNat + op.debited id = (b.get id).toNat + op.credited id := by
  cases op with
  | credit id amount =>
    obtain ⟨hvalid, -, hget⟩ := credit_spec hb hfits hok
    refine ⟨hvalid, fun k => ?_⟩
    rw [hget, BalanceOperation.credited, BalanceOperation.debited]
    by_cases hk : k = id
    · rw [if_pos hk, if_pos hk, UInt64.toNat_add, Nat.mod_eq_of_lt hfits, hk, Nat.add_zero]
    · rw [if_neg hk, if_neg hk]
  | debit id amount =>
    obtain ⟨hvalid, -, hget⟩ := debit_spec hb hok
    have hle : amount ≤ b.get id := by
      rw [← UInt64.not_lt, ← debit_error_iff]
      rintro ⟨error, herror⟩
      cases herror.symm.trans hok
    refine ⟨hvalid, fun k => ?_⟩
    rw [hget, BalanceOperation.credited, BalanceOperation.debited]
    by_cases hk : k = id
    · rw [if_pos hk, if_pos hk, UInt64.toNat_sub_of_le _ _ hle, hk, Nat.add_zero]
      exact Nat.sub_add_cancel (UInt64.le_iff_toNat_le.1 hle)
    · rw [if_neg hk, if_neg hk]
  | optimize id =>
    obtain ⟨b'', hok', hvalid, hget⟩ := optimize_get hb id
    cases hok'.symm.trans hok
    exact ⟨hvalid, fun k => by rw [hget]; rfl⟩

theorem Counts.apply (hcounts : Counts b ops) (hfits : b.Fits op) :
    Counts (b.apply op) (ops ++ if (b.step op).toOption.isSome then [op] else []) := by
  rw [AccountBalances.apply]
  cases hstep : b.step op with
  | error error =>
    rw [show (Except.error error : Except BalanceError AccountBalances).toOption = none from rfl, Option.getD_none,
      Option.isSome_none, if_neg Bool.false_ne_true, List.append_nil]
    exact hcounts
  | ok b' =>
    obtain ⟨hvalid, hget⟩ := step_spec hcounts.valid hfits hstep
    refine ⟨hvalid, fun id => ?_⟩
    have hold := hcounts.get id
    have hnew := hget id
    rw [credits_append, debits_append]
    simp only [Except.toOption, Option.getD_some, Option.isSome_some, if_true, credits, debits, List.map_cons,
      List.map_nil, List.sum_cons, List.sum_nil, Nat.add_zero] at hold hnew ⊢
    omega

theorem Counts.run (hcounts : Counts b ops) {next : List BalanceOperation} (hrange : b.InRange next) :
    Counts (b.run next) (ops ++ b.done next) := by
  induction next generalizing b ops with
  | nil => rwa [done, List.append_nil]
  | cons op next ih =>
    rw [done, ← List.append_assoc]
    exact ih (hcounts.apply hrange.1) hrange.2

/-- What holds of balances when some operations were done. -/
structure Ledger (b : AccountBalances) (ops : List BalanceOperation) : Prop where
  get : ∀ id, ((b.get id).toNat : Int) = credits id ops - debits id ops
  amounts : ∀ e ∈ b.mosaics, e.2 ≠ 0
  debit_throws : ∀ id amount, (∃ error, b.step (.debit id amount) = .error error) ↔ b.get id < amount
  credit_throws : ∀ id amount, (∃ error, b.step (.credit id amount) = .error error) ↔ id = 0 ∧ amount ≠ 0
  optimize_throws : ∀ id error, b.step (.optimize id) ≠ .error error
  unchanged : ∀ op, (∃ error, b.step op = .error error) → b.apply op = b
  debit_of_credit : ∀ id amount b', b.Fits (.credit id amount) → b.step (.credit id amount) = .ok b' →
    ∃ b'', b'.step (.debit id amount) = .ok b'' ∧ Alike b b''
  credit_of_debit : ∀ id amount b', b.step (.debit id amount) = .ok b' →
    ∃ b'', b'.step (.credit id amount) = .ok b'' ∧ Alike b b''
  others : ∀ op id, b.Fits op → ¬op.Concerns id → (b.apply op).get id = b.get id

theorem Counts.ledger (hcounts : Counts b ops) : Ledger b ops := by
  obtain ⟨hb, hget⟩ := hcounts
  refine ⟨fun id => ?_, hb.amounts, fun id amount => debit_error_iff, fun id amount => credit_error_iff hb,
    fun id error herror => ?_, ?_, fun id amount b' hfits hok => AccountBalances.debit_of_credit hb hfits hok,
    fun id amount b' hok => AccountBalances.credit_of_debit hb hok, fun op id hfits hnot => ?_⟩
  · have hid := hget id
    omega
  · obtain ⟨b', hok, -⟩ := optimize_get hb id
    cases hok.symm.trans herror
  · rintro op ⟨error, herror⟩
    rw [AccountBalances.apply, herror]
    rfl
  · rw [AccountBalances.apply]
    cases hstep : b.step op with
    | error error => rfl
    | ok b' =>
      have hnew := (step_spec hb hfits hstep).2 id
      have hcredited : op.credited id = 0 := by
        cases op with
        | credit mosaicId amount => exact if_neg hnot
        | debit mosaicId amount => rfl
        | optimize mosaicId => rfl
      have hdebited : op.debited id = 0 := by
        cases op with
        | credit mosaicId amount => rfl
        | debit mosaicId amount => exact if_neg hnot
        | optimize mosaicId => rfl
      rw [hcredited, hdebited] at hnew
      exact UInt64.toNat_inj.1 hnew

/-- Balances are a ledger after every run in the range of an amount. -/
theorem run_ledger (ops : List BalanceOperation) (hrange : InRange {} ops) : Ledger (run {} ops) (done {} ops) := by
  have hcounts := counts_empty.run hrange
  rw [List.nil_append] at hcounts
  exact hcounts.ledger

def sampleOperations : List BalanceOperation :=
  [.credit ⟨7⟩ 10, .credit ⟨0⟩ 4, .credit ⟨5⟩ 3, .optimize ⟨7⟩, .debit ⟨5⟩ 4, .debit ⟨7⟩ 6, .debit ⟨5⟩ 3]

theorem run_ledger_sample : Ledger (run {} sampleOperations) (done {} sampleOperations) ∧
    (run {} sampleOperations).mosaics = [(⟨7⟩, 4)] ∧
    done {} sampleOperations = [.credit ⟨7⟩ 10, .credit ⟨5⟩ 3, .optimize ⟨7⟩, .debit ⟨7⟩ 6, .debit ⟨5⟩ 3] := by
  refine ⟨run_ledger sampleOperations ?_, by decide +kernel, by decide +kernel⟩
  simp only [InRange, Fits, sampleOperations, and_true]
  decide +kernel

end Runs

end AccountBalances
end Catapult.State
