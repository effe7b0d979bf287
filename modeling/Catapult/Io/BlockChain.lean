import Catapult.Io.FileBlockStorage
import Catapult.Lib.Stateful

/-!
# Block storage refines a chain

A storage holds the blocks of a chain when the databases show their bytes and their statements at the heights of the
blocks, and each of them can be read (`Holds`). The blocks are at successive heights, so that saving the next one
keeps this for the blocks (`Closed`). Statements are not at successive heights, and those of the blocks that were
dropped can be in the way (`StatementFits`).
-/

namespace Catapult.Io

open Stateful (get_apply set_apply modify_apply)

namespace FixedSizeValueStorage
variable {α : Type} {storage : FixedSizeValueStorage α} {key : Nat} {value : α}

def get? (storage : FixedSizeValueStorage α) (key : Nat) : Option α :=
  (storage.files (key / filesPerStorageDirectory)).bind fun values => values[key % filesPerStorageDirectory]?

def Seeded (storage : FixedSizeValueStorage α) : Prop := ∃ values, storage.files 0 = some values ∧ 2 ≤ values.length

theorem checkSize_eq (hseeded : storage.Seeded) {values : List α}
    (hfile : storage.files (key / filesPerStorageDirectory) = some values) :
    ¬(key < filesPerStorageDirectory ∧ values.length < 2) := by
  rintro ⟨hkey, hlength⟩
  obtain ⟨values', hfirst, hle⟩ := hseeded
  rw [Nat.div_eq_of_lt hkey, hfirst] at hfile
  cases hfile
  omega

theorem same_file {i : Nat} (hlt : key % filesPerStorageDirectory + i < filesPerStorageDirectory) :
    (key + i) / filesPerStorageDirectory = key / filesPerStorageDirectory ∧
      (key + i) % filesPerStorageDirectory = key % filesPerStorageDirectory + i := by
  have hpos : 0 < filesPerStorageDirectory := by decide
  have hmod := Nat.mod_lt key hpos
  have hsplit := Nat.div_add_mod key filesPerStorageDirectory
  rw [← hsplit, Nat.add_assoc, Nat.mul_add_div hpos, Nat.mul_add_mod, Nat.div_eq_of_lt hlt, Nat.mod_eq_of_lt hlt,
    Nat.mul_add_mod, Nat.mod_mod, Nat.mul_add_div hpos, Nat.div_eq_of_lt hmod]
  omega

theorem loadRangeFrom_eq (hseeded : storage.Seeded) {values : List α}
    (hget : ∀ i value, values[i]? = some value → storage.get? (key + i) = some value) :
    storage.loadRangeFrom key values.length = .ok values := by
  induction hn : values.length using Nat.strong_induction_on generalizing key values with
  | _ n ih =>
    rw [loadRangeFrom]
    by_cases hzero : n = 0
    · rw [if_pos hzero, List.length_eq_zero_iff.1 (hn.trans hzero)]
      rfl
    have hmod : key % filesPerStorageDirectory < filesPerStorageDirectory := Nat.mod_lt _ (by decide)
    obtain ⟨count, hcount⟩ : ∃ count, count = min n (filesPerStorageDirectory - key % filesPerStorageDirectory) :=
      ⟨_, rfl⟩
    obtain ⟨file, hfile, -⟩ : ∃ file, storage.files (key / filesPerStorageDirectory) = some file ∧
        file[key % filesPerStorageDirectory]? = some (values.get ⟨0, by omega⟩) := by
      have hfirst := hget 0 (values.get ⟨0, by omega⟩) (List.getElem?_eq_getElem (by omega))
      exact Option.bind_eq_some_iff.1 hfirst
    have hvalues : ∀ i, i < count → file[key % filesPerStorageDirectory + i]? = values[i]? := by
      intro i hi
      have hlt : i < values.length := by omega
      have hi' := hget i (values.get ⟨i, hlt⟩) (List.getElem?_eq_getElem hlt)
      obtain ⟨hdiv, hmod'⟩ := @same_file key i (by omega)
      rw [get?, hdiv, hmod', hfile, Option.bind_some] at hi'
      rw [hi', List.getElem?_eq_getElem hlt]
      rfl
    have hlength : key % filesPerStorageDirectory + count ≤ file.length := by
      have hlast := hvalues (count - 1) (by omega)
      rw [List.getElem?_eq_getElem (by omega : count - 1 < values.length)] at hlast
      have hlt := (List.getElem?_eq_some_iff.1 hlast).1
      omega
    have hread : readValues file (key % filesPerStorageDirectory) count = .ok (values.take count) := by
      rw [readValues, if_neg (by omega), if_neg (by omega)]
      refine congrArg Except.ok (List.ext_getElem? fun i => ?_)
      by_cases hi : i < count
      · rw [List.getElem?_take_of_lt hi, List.getElem?_take_of_lt hi, List.getElem?_drop, hvalues i hi]
      · rw [List.getElem?_eq_none (by simp; omega), List.getElem?_eq_none (by simp; omega)]
    have hrest : storage.loadRangeFrom (key + count) (n - count) = .ok (values.drop count) := by
      refine ih (n - count) (by omega) (fun i value hi => ?_) (by rw [List.length_drop, hn])
      rw [List.getElem?_drop] at hi
      rw [Nat.add_assoc]
      exact hget (count + i) value hi
    rw [if_neg hzero, openStorageFile, hfile]
    simp only [checkSize, if_neg (checkSize_eq hseeded hfile), ← hcount]
    change (readValues file (key % filesPerStorageDirectory) count >>= fun values => _) = _
    rw [hread]
    change (storage.loadRangeFrom (key + count) (n - count) >>= fun rest => _) = _
    rw [hrest]
    exact congrArg Except.ok (List.take_append_drop count values)

theorem getElem?_overwrite {values : List α} {index : Nat} (hle : index ≤ values.length) (value : α) (j : Nat) :
    (values.take index ++ value :: values.drop (index + 1))[j]? = if j = index then some value else values[j]? := by
  have hlength : (values.take index).length = index := by rw [List.length_take, Nat.min_eq_left hle]
  rcases Nat.lt_trichotomy j index with hlt | heq | hgt
  · rw [if_neg (by omega), List.getElem?_append_left (by omega), List.getElem?_take_of_lt hlt]
  · rw [if_pos heq, List.getElem?_append_right (by omega), hlength, heq, Nat.sub_self]
    rfl
  · rw [if_neg (by omega), List.getElem?_append_right (by omega), hlength]
    obtain ⟨k, rfl⟩ : ∃ k, j = index + 1 + k := ⟨j - index - 1, by omega⟩
    have hk : index + 1 + k - index = k + 1 := by omega
    rw [hk, List.getElem?_cons_succ, List.getElem?_drop]

theorem save_eq (hseeded : storage.Seeded) {values : List α}
    (hvalues : values = (storage.files (key / filesPerStorageDirectory)).getD [])
    (hseek : key % filesPerStorageDirectory ≤ values.length) (value : α) :
    ∃ storage', save key value storage = .ok () storage' ∧
      storage'.files = Function.update storage.files (key / filesPerStorageDirectory)
        (some (values.take (key % filesPerStorageDirectory) ++
          value :: values.drop (key % filesPerStorageDirectory + 1))) := by
  have hsize : ¬(key < filesPerStorageDirectory ∧ values.length < 2) := by
    rintro ⟨hkey, hlength⟩
    obtain ⟨values', hfirst, hle⟩ := hseeded
    rw [Nat.div_eq_of_lt hkey, hfirst, Option.getD_some] at hvalues
    rw [hvalues] at hlength
    omega
  have hseek' : ¬values.length < key % filesPerStorageDirectory := by omega
  by_cases hcached : storage.cachedDirectoryId = some (key / filesPerStorageDirectory)
  · simp only [save, bind, EStateM.bind, get_apply, ← hvalues, hcached, ne_eq,
      not_true_eq_false, if_false, hseek', modify_apply]
    exact ⟨_, rfl, rfl⟩
  · simp only [save, bind, EStateM.bind, get_apply, ← hvalues, hcached, ne_eq,
      not_false_eq_true, if_true, if_neg hsize, if_neg hseek', modify_apply, set_apply]
    exact ⟨_, rfl, Function.update_idem ..⟩

theorem save_spec (hseeded : storage.Seeded)
    (hseek : key % filesPerStorageDirectory ≤ ((storage.files (key / filesPerStorageDirectory)).getD []).length)
    (value : α) : ∃ storage', save key value storage = .ok () storage' ∧ storage'.Seeded ∧
      storage'.get? key = some value ∧ ∀ j, j ≠ key → storage'.get? j = storage.get? j := by
  obtain ⟨values, hvalues⟩ : ∃ values, values = (storage.files (key / filesPerStorageDirectory)).getD [] := ⟨_, rfl⟩
  rw [← hvalues] at hseek
  obtain ⟨storage', hok, hfiles⟩ := save_eq hseeded hvalues hseek value
  refine ⟨storage', hok, ?_, ?_, fun j hj => ?_⟩
  · obtain ⟨first, hfirst, hle⟩ := hseeded
    rw [Seeded, hfiles]
    by_cases hzero : key / filesPerStorageDirectory = 0
    · rw [hzero, hfirst, Option.getD_some] at hvalues
      subst hvalues
      refine ⟨_, by rw [hzero, Function.update_self], ?_⟩
      simp only [List.length_append, List.length_take, List.length_cons, List.length_drop]
      omega
    · exact ⟨first, by rw [Function.update_of_ne (Ne.symm hzero), hfirst], hle⟩
  · rw [get?, hfiles, Function.update_self, Option.bind_some, getElem?_overwrite hseek, if_pos rfl]
  · rw [get?, get?, hfiles]
    by_cases hdiv : j / filesPerStorageDirectory = key / filesPerStorageDirectory
    · have hmod : j % filesPerStorageDirectory ≠ key % filesPerStorageDirectory := by
        intro hmod
        rw [← Nat.div_add_mod j filesPerStorageDirectory, ← Nat.div_add_mod key filesPerStorageDirectory, hdiv,
          hmod] at hj
        exact hj rfl
      rw [hdiv, Function.update_self, Option.bind_some, getElem?_overwrite hseek, if_neg hmod, hvalues]
      cases storage.files (key / filesPerStorageDirectory) <;> rfl
    · rw [Function.update_of_ne hdiv]

end FixedSizeValueStorage

namespace Contents
variable {batchSize : Nat} {c : Contents} {id : Nat} {payload : List UInt8}

theorem readable_write {i : Nat} (hlt : i < id) (hreadable : Readable batchSize c i)
    (hgap : i / batchSize = id / batchSize → c id ≠ none ∨ c (id - 1) ≠ none) :
    Readable batchSize (c.write batchSize id payload) i := by
  by_cases hnext : i + 1 = id
  · refine readable_of_next ?_
    rw [hnext, write_self]
    exact Option.some_ne_none _
  rcases hreadable with ⟨-, hne⟩ | hlast
  · refine readable_of_next ?_
    rwa [write_of_lt (by omega)]
  · refine .inr fun j hj hsame => ?_
    by_cases hfile : i / batchSize = id / batchSize
    · have hbetween : (id - 1) / batchSize = i / batchSize := by
        have hle : i / batchSize ≤ (id - 1) / batchSize := Nat.div_le_div_right (by omega)
        have hge : (id - 1) / batchSize ≤ id / batchSize := Nat.div_le_div_right (by omega)
        omega
      rcases hgap hfile with hne | hne
      · exact absurd (hlast id hlt hfile.symm) hne
      · exact absurd (hlast (id - 1) (by omega) hbetween) hne
    · rw [write_of_ne (by omega)]
      exact hlast j hj hsame

end Contents

namespace FileBlockStorage
open Contents FixedSizeValueStorage
variable {batchSize : Nat} {mode : FileBlockStorageMode} {storage : FileBlockStorage batchSize} {base : Nat}
  {blocks : List BlockElement} {c c' : Contents} {element : BlockElement}

structure Stored (mode : FileBlockStorageMode) (hashFile : FixedSizeValueStorage Hash256) (c c' : Contents)
    (height : Nat) (element : BlockElement) : Prop where
  height_eq : element.height = height
  block : c height = some (blockElementBytes element.toBlockElementData)
  statement : c' height = element.optionalStatement
  hash : mode = .hashIndex → hashFile.get? height = some element.entityHash

/-- The storage has the blocks from the height `base + 1` on. -/
structure Holds (mode : FileBlockStorageMode) (storage : FileBlockStorage batchSize) (base : Nat)
    (blocks : List BlockElement) (c c' : Contents) : Prop where
  chainHeight_eq : storage.chainHeight = base + blocks.length
  chainHeight_lt : storage.chainHeight < 2 ^ 64
  blockDatabase : storage.blockDatabase.Shows c
  statementDatabase : storage.statementDatabase.Shows c'
  stored : ∀ i element, blocks[i]? = some element → Stored mode storage.hashFile c c' (base + 1 + i) element
  blockReadable : ∀ height, base < height → height ≤ storage.chainHeight → Readable batchSize c height
  statementReadable : ∀ height, base < height → height ≤ storage.chainHeight → c' height ≠ none →
    Readable batchSize c' height
  hashFile : mode = .hashIndex → storage.hashFile.Seeded ∧ base = 0

theorem Holds.drop (h : Holds mode storage base blocks c c') {height : Nat} (hbase : base ≤ height)
    (hle : height ≤ storage.chainHeight) :
    Holds mode (storage.dropBlocksAfter height) base (blocks.take (height - base)) c c' := by
  have hheight : (storage.dropBlocksAfter height).chainHeight = height := rfl
  have hlength := h.chainHeight_eq
  refine ⟨?_, ?_, h.blockDatabase, h.statementDatabase, fun i element hi => ?_, fun j hlt hj => ?_, fun j hlt hj => ?_,
    h.hashFile⟩
  · rw [hheight, List.length_take]
    omega
  · exact Nat.lt_of_le_of_lt hle h.chainHeight_lt
  · rw [List.getElem?_take] at hi
    split at hi
    · exact h.stored i element hi
    · cases hi
  · exact h.blockReadable j hlt (Nat.le_trans hj hle)
  · exact h.statementReadable j hlt (Nat.le_trans hj hle)

theorem height_lt (element : BlockElementData) : element.height < 2 ^ 64 := by
  have hlt := ofLeBytes_lt ((element.block.drop 112).take 8)
  have hpow : 256 ^ ((element.block.drop 112).take 8).length ≤ 256 ^ 8 :=
    Nat.pow_le_pow_right (by omega) (List.length_take_le 8 _)
  exact Nat.lt_of_lt_of_le hlt hpow

theorem saveBlock_refused {element : BlockElementData} (hne : element.height ≠ (storage.chainHeight + 1) % 2 ^ 64) :
    saveBlock mode element storage = .error (.saveHeight element.height storage.chainHeight) storage := by
  simp only [saveBlock, bind, EStateM.bind, get_apply, if_pos hne]
  rfl

theorem saveStatement_eq {height : Nat} {statement : Option (List UInt8)} {statementDatabase : FileDatabase batchSize}
    (hsome : ∀ payload, statement = some payload →
      storage.statementDatabase.write height payload = .ok statementDatabase)
    (hnone : statement = none → statementDatabase = storage.statementDatabase) :
    saveStatement height statement storage = .ok () { storage with statementDatabase := statementDatabase } := by
  cases statement with
  | none =>
    rw [hnone rfl]
    rfl
  | some payload =>
    simp only [saveStatement, bind, EStateM.bind, get_apply, writePayload, hsome payload rfl]
    rfl

theorem saveHash_eq {height : Nat} {hash : Hash256} {hashFile : FixedSizeValueStorage Hash256}
    (hhash : mode = .hashIndex → FixedSizeValueStorage.save height hash storage.hashFile = .ok () hashFile)
    (hnoHash : mode ≠ .hashIndex → hashFile = storage.hashFile) :
    saveHash mode height hash storage = .ok () { storage with hashFile := hashFile } := by
  rw [saveHash]
  by_cases hmode : mode = .hashIndex
  · rw [if_pos hmode]
    simp only [bind, EStateM.bind, get_apply, hhash hmode]
    rfl
  · rw [if_neg hmode, hnoHash hmode]
    rfl

theorem saveBlock_eq {element : BlockElementData} {blockDatabase statementDatabase : FileDatabase batchSize}
    {hashFile : FixedSizeValueStorage Hash256} (hheight : element.height = storage.chainHeight + 1)
    (hblock : storage.blockDatabase.write element.height (blockElementBytes element) = .ok blockDatabase)
    (hsome : ∀ statement, element.optionalStatement = some statement →
      storage.statementDatabase.write element.height statement = .ok statementDatabase)
    (hnone : element.optionalStatement = none → statementDatabase = storage.statementDatabase)
    (hhash : mode = .hashIndex → FixedSizeValueStorage.save element.height element.entityHash storage.hashFile =
      .ok () hashFile)
    (hnoHash : mode ≠ .hashIndex → hashFile = storage.hashFile) :
    saveBlock mode element storage = .ok () ⟨blockDatabase, statementDatabase, hashFile, some element.height⟩ := by
  have hmod : ¬element.height ≠ (storage.chainHeight + 1) % 2 ^ 64 := by
    rw [← hheight, Nat.mod_eq_of_lt (height_lt element)]
    exact fun hne => hne rfl
  have hlt : storage.chainHeight < element.height := by omega
  have hstatement := @saveStatement_eq _ { storage with blockDatabase := blockDatabase } element.height
    element.optionalStatement statementDatabase hsome hnone
  have hsaved := @saveHash_eq _ mode
    { storage with blockDatabase := blockDatabase, statementDatabase := statementDatabase }
    element.height element.entityHash hashFile hhash hnoHash
  simp only [saveBlock, bind, EStateM.bind, get_apply, if_neg hmod, writePayload, hblock,
    pure, EStateM.pure, set_apply, hstatement, hsaved, if_pos hlt]
  rfl

/-- No statement of a block that was dropped is in the way of the statement of a block: the statement database has none
at the height of a block without a statement, and it has none after the height of a block with one, nor before it with
a gap between them, unless it has one at the height. -/
def StatementFits (storage : FileBlockStorage batchSize) (base : Nat) (element : BlockElementData) : Prop :=
  match element.optionalStatement with
  | none => storage.statementDatabase.contains element.height = false
  | some _ => storage.statementDatabase.contains element.height = true ∨
    (∀ j, element.height < j → j / batchSize = element.height / batchSize →
      storage.statementDatabase.contains j = false) ∧
    ∀ j, base < j → j < element.height → j / batchSize = element.height / batchSize →
      storage.statementDatabase.contains j = true → storage.statementDatabase.contains (element.height - 1) = true

def statementsAfter (batchSize : Nat) (c' : Contents) (element : BlockElementData) : Contents :=
  match element.optionalStatement with
  | none => c'
  | some statement => c'.write batchSize element.height statement

theorem statementReadable_after (h : Holds mode storage base blocks c c')
    (hheight : element.height = storage.chainHeight + 1) (hfits : StatementFits storage base element.toBlockElementData)
    {height : Nat} (hlt : base < height) (hle : height ≤ element.height)
    (hne : statementsAfter batchSize c' element.toBlockElementData height ≠ none) :
    Readable batchSize (statementsAfter batchSize c' element.toBlockElementData) height := by
  have hcontains := FileDatabase.contains_spec h.statementDatabase
  rw [statementsAfter] at hne ⊢
  rw [StatementFits] at hfits
  cases hstatement : element.optionalStatement with
  | none =>
    simp only [hstatement, hcontains] at hne hfits ⊢
    have hother : height ≠ element.height := fun heq => hne (by simpa [heq] using hfits)
    exact h.statementReadable height hlt (by omega) hne
  | some statement =>
    simp only [hstatement, hcontains, Option.isSome_iff_ne_none, Option.isSome_eq_false_iff,
      Option.isNone_iff_eq_none] at hne hfits ⊢
    by_cases heq : height = element.height
    · rw [heq]
      exact .inr write_last
    · have hbefore : height < element.height := by omega
      rw [write_of_lt hbefore] at hne
      refine readable_write hbefore (h.statementReadable height hlt (by omega) hne) fun hsame => ?_
      exact hfits.imp_right fun hfits => hfits.2 height hlt hbefore hsame hne

theorem statementDatabase_after (h : Holds mode storage base blocks c c')
    (hfits : StatementFits storage base element.toBlockElementData) : ∃ statementDatabase : FileDatabase batchSize,
      (∀ statement, element.optionalStatement = some statement →
        storage.statementDatabase.write element.height statement = .ok statementDatabase) ∧
      (element.optionalStatement = none → statementDatabase = storage.statementDatabase) ∧
      statementDatabase.Shows (statementsAfter batchSize c' element.toBlockElementData) ∧
      statementsAfter batchSize c' element.toBlockElementData element.height = element.optionalStatement := by
  have hcontains := FileDatabase.contains_spec h.statementDatabase
  rw [StatementFits] at hfits
  rw [statementsAfter]
  cases hstatement : element.optionalStatement with
  | none =>
    simp only [hstatement, hcontains, Option.isSome_eq_false_iff, Option.isNone_iff_eq_none] at hfits
    exact ⟨storage.statementDatabase, (fun _ hsome => nomatch hsome), fun _ => rfl, h.statementDatabase, hfits⟩
  | some statement =>
    simp only [hstatement, hcontains, Option.isSome_iff_ne_none, Option.isSome_eq_false_iff,
      Option.isNone_iff_eq_none] at hfits
    have hwritable : Writable batchSize c' element.height := hfits.imp_right fun hfits => hfits.1
    obtain ⟨statementDatabase, hok, hshows⟩ := FileDatabase.write_spec h.statementDatabase hwritable statement
    refine ⟨statementDatabase, fun _ hsome => ?_, (fun hnone => nomatch hnone), hshows, write_self⟩
    cases hsome
    exact hok

theorem seek_next {hashFile : FixedSizeValueStorage Hash256} {key : Nat} {hash : Hash256}
    (hget : hashFile.get? key = some hash) : (key + 1) % filesPerStorageDirectory ≤
      ((hashFile.files ((key + 1) / filesPerStorageDirectory)).getD []).length := by
  have hmod : key % filesPerStorageDirectory < filesPerStorageDirectory := Nat.mod_lt _ (by decide)
  by_cases hlast : key % filesPerStorageDirectory + 1 = filesPerStorageDirectory
  · have hzero : (key + 1) % filesPerStorageDirectory = 0 := by
      simp only [filesPerStorageDirectory] at hlast ⊢
      omega
    omega
  · obtain ⟨hdiv, hmod'⟩ := @same_file key 1 (by omega)
    rw [get?] at hget
    obtain ⟨values, hfile, hvalue⟩ := Option.bind_eq_some_iff.1 hget
    have hlt := (List.getElem?_eq_some_iff.1 hvalue).1
    rw [hdiv, hmod', hfile, Option.getD_some]
    exact hlt

theorem hashFile_after (h : Holds mode storage base blocks c c')
    (hheight : element.height = storage.chainHeight + 1) : ∃ hashFile : FixedSizeValueStorage Hash256,
      (mode = .hashIndex → FixedSizeValueStorage.save element.height element.entityHash storage.hashFile =
        .ok () hashFile) ∧
      (mode ≠ .hashIndex → hashFile = storage.hashFile) ∧
      (mode = .hashIndex → hashFile.Seeded ∧ hashFile.get? element.height = some element.entityHash ∧
        ∀ j, j ≠ element.height → hashFile.get? j = storage.hashFile.get? j) := by
  by_cases hmode : mode = .hashIndex
  · obtain ⟨hseeded, hbase⟩ := h.hashFile hmode
    have hlength := h.chainHeight_eq
    have hseek : element.height % filesPerStorageDirectory ≤
        ((storage.hashFile.files (element.height / filesPerStorageDirectory)).getD []).length := by
      rw [hheight]
      cases hblocks : blocks.getLast? with
      | none =>
        rw [List.getLast?_eq_none_iff] at hblocks
        obtain ⟨values, hfirst, hle⟩ := hseeded
        have hzero : storage.chainHeight = 0 := by
          rw [hlength, hbase, hblocks]
          rfl
        have hdiv : (0 + 1) / filesPerStorageDirectory = 0 := by decide
        have hone : (0 + 1) % filesPerStorageDirectory = 1 := by decide
        rw [hzero, hdiv, hone, hfirst, Option.getD_some]
        omega
      | some last =>
        have hlast : blocks[blocks.length - 1]? = some last := by rwa [← List.getLast?_eq_getElem?]
        have hpos := (List.getElem?_eq_some_iff.1 hlast).1
        have hget := (h.stored _ _ hlast).hash hmode
        have hkey : base + 1 + (blocks.length - 1) = storage.chainHeight := by omega
        rw [hkey] at hget
        exact seek_next hget
    obtain ⟨hashFile, hok, hseeded', hget, hother⟩ := FixedSizeValueStorage.save_spec hseeded hseek element.entityHash
    exact ⟨hashFile, fun _ => hok, fun hnot => absurd hmode hnot, fun _ => ⟨hseeded', hget, hother⟩⟩
  · exact ⟨storage.hashFile, fun hyes => absurd hyes hmode, fun _ => rfl, fun hyes => absurd hyes hmode⟩

theorem statementsAfter_of_lt {element : BlockElementData} {height : Nat} (hlt : height < element.height) :
    statementsAfter batchSize c' element height = c' height := by
  rw [statementsAfter]
  cases element.optionalStatement with
  | none => rfl
  | some statement => exact write_of_lt hlt

theorem Holds.stored_at (h : Holds mode storage base blocks c c') {height : Nat} (hlt : base < height)
    (hle : height ≤ storage.chainHeight) : ∃ element, Stored mode storage.hashFile c c' height element := by
  have hlength := h.chainHeight_eq
  have hi : height - base - 1 < blocks.length := by omega
  have hheight : base + 1 + (height - base - 1) = height := by omega
  exact ⟨blocks[height - base - 1], hheight ▸ h.stored _ _ (List.getElem?_eq_getElem hi)⟩

theorem Holds.save (h : Holds mode storage base blocks c c') (hheight : element.height = storage.chainHeight + 1)
    (hwritable : Writable batchSize c element.height) (hfits : StatementFits storage base element.toBlockElementData) :
    ∃ storage', saveBlock mode element.toBlockElementData storage = .ok () storage' ∧
      Holds mode storage' base (blocks ++ [element])
        (c.write batchSize element.height (blockElementBytes element.toBlockElementData))
        (statementsAfter batchSize c' element.toBlockElementData) := by
  obtain ⟨blockDatabase, hblock, hblocks⟩ := FileDatabase.write_spec h.blockDatabase hwritable
    (blockElementBytes element.toBlockElementData)
  obtain ⟨statementDatabase, hsome, hnone, hstatements, hstatement⟩ := statementDatabase_after h hfits
  obtain ⟨hashFile, hhash, hnoHash, hhashes⟩ := hashFile_after h hheight
  have hlength := h.chainHeight_eq
  refine ⟨_, saveBlock_eq hheight hblock hsome hnone hhash hnoHash, ?_, height_lt _, hblocks, hstatements,
    fun i e hi => ?_, fun height hlt hle => ?_, fun height hlt hle => statementReadable_after h hheight hfits hlt hle,
    fun hmode => ⟨(hhashes hmode).1, (h.hashFile hmode).2⟩⟩
  · change element.height = _
    rw [List.length_append, List.length_singleton]
    omega
  · rcases Nat.lt_or_ge i blocks.length with hlt | hge
    · rw [List.getElem?_append_left hlt] at hi
      obtain ⟨heq, hb, hs, hh⟩ := h.stored i e hi
      have hbefore : base + 1 + i < element.height := by omega
      refine ⟨heq, (write_of_lt hbefore).trans hb, (statementsAfter_of_lt hbefore).trans hs, fun hmode => ?_⟩
      rw [(hhashes hmode).2.2 _ (Nat.ne_of_lt hbefore)]
      exact hh hmode
    · rw [List.getElem?_append_right hge] at hi
      have hlast : i - blocks.length < 1 := (List.getElem?_eq_some_iff.1 hi).1
      have hzero : i - blocks.length = 0 := by omega
      rw [hzero] at hi
      cases hi
      have hthis : base + 1 + i = element.height := by omega
      rw [hthis]
      exact ⟨rfl, write_self, hstatement, fun hmode => (hhashes hmode).2.1⟩
  · change height ≤ element.height at hle
    by_cases heq : height = element.height
    · rw [heq]
      exact .inr write_last
    · refine readable_of_next ?_
      by_cases hnext : height + 1 = element.height
      · rw [hnext, write_self]
        exact Option.some_ne_none _
      · obtain ⟨e, he⟩ : ∃ e, Stored mode storage.hashFile c c' (height + 1) e := h.stored_at (by omega) (by omega)
        rw [write_of_lt (by omega), he.block]
        exact Option.some_ne_none _

/-! ## Loading -/

theorem Holds.loadBlockElement (h : Holds mode storage base blocks c c') {i : Nat} (hi : blocks[i]? = some element) :
    storage.loadBlockElement (base + 1 + i) = .ok element.withoutStatement := by
  have hlength := h.chainHeight_eq
  have hlt := (List.getElem?_eq_some_iff.1 hi).1
  have hle : base + 1 + i ≤ storage.chainHeight := by omega
  have hstream := FileDatabase.inputStream_spec h.blockDatabase (h.stored i element hi).block
    (h.blockReadable _ (by omega) hle)
  simp only [FileBlockStorage.loadBlockElement, requireHeight, if_pos hle, hstream, Except.mapError]
  simp only [bind, Except.bind, (reads_blockElement element).run]
  rfl

theorem Holds.loadBlockStatementData (h : Holds mode storage base blocks c c') {i : Nat}
    (hi : blocks[i]? = some element) :
    storage.loadBlockStatementData (base + 1 + i) = .ok element.optionalStatement := by
  have hlength := h.chainHeight_eq
  have hlt := (List.getElem?_eq_some_iff.1 hi).1
  have hle : base + 1 + i ≤ storage.chainHeight := by omega
  have hstatement := (h.stored i element hi).statement
  simp only [FileBlockStorage.loadBlockStatementData, requireHeight, if_pos hle,
    FileDatabase.contains_spec h.statementDatabase, hstatement]
  cases hsome : element.optionalStatement with
  | none => rfl
  | some statement =>
    rw [hsome] at hstatement
    have hstream := FileDatabase.inputStream_spec h.statementDatabase hstatement
      (h.statementReadable _ (by omega) hle (by rw [hstatement]; exact Option.some_ne_none _))
    simp only [hstream]
    rfl

theorem Holds.loadHashesFrom (h : Holds .hashIndex storage base blocks c c') {i : Nat} (hi : i < blocks.length)
    (maxHashes : Nat) : FileBlockStorage.loadHashesFrom .hashIndex storage (base + 1 + i) maxHashes =
      .ok (((blocks.drop i).take maxHashes).map fun element => element.entityHash) := by
  have hlength := h.chainHeight_eq
  have hnot : ¬(base + 1 + i = 0 ∨ storage.chainHeight < base + 1 + i) := by omega
  have hcount : storage.chainHeight - (base + 1 + i) + 1 = blocks.length - i := by omega
  obtain ⟨hseeded, -⟩ := h.hashFile rfl
  have hload := @loadRangeFrom_eq _ storage.hashFile (base + 1 + i) hseeded
    (((blocks.drop i).take maxHashes).map fun element => element.entityHash) (fun j hash hj => by
      rw [List.getElem?_map, Option.map_eq_some_iff] at hj
      obtain ⟨element, helement, rfl⟩ := hj
      rw [List.getElem?_take] at helement
      split at helement
      · rw [List.getElem?_drop] at helement
        rw [Nat.add_assoc]
        exact (h.stored (i + j) element helement).hash rfl
      · cases helement)
  rw [List.length_map, List.length_take, List.length_drop] at hload
  rw [FileBlockStorage.loadHashesFrom, if_neg (fun hne => hne rfl), if_neg hnot, hcount]
  simp only [hload]
  rfl

/-! ## Runs -/

inductive Call where
  | saveBlock (element : BlockElement)
  | dropBlocksAfter (height : Nat)

/-- A storage and the chain of the blocks that were saved in it and not dropped. -/
structure Recorded (batchSize : Nat) where
  storage : FileBlockStorage batchSize
  chain : List BlockElement := []

def Recorded.call (mode : FileBlockStorageMode) (state : Recorded batchSize) : Call → Recorded batchSize
  | .saveBlock element =>
    match saveBlock mode element.toBlockElementData state.storage with
    | .ok _ storage => ⟨storage, state.chain ++ [element]⟩
    | .error _ storage => ⟨storage, state.chain⟩
  | .dropBlocksAfter height => ⟨state.storage.dropBlocksAfter height, state.chain.take height⟩

/-- Calls one after another, each of which meets a condition. -/
inductive Run (ok : FileBlockStorage batchSize → Call → Prop) (mode : FileBlockStorageMode)
    (initial : FileBlockStorage batchSize) : Recorded batchSize → Prop
  | start : Run ok mode initial ⟨initial, []⟩
  | call {state : Recorded batchSize} (hrun : Run ok mode initial state) (call : Call) (hok : ok state.storage call) :
    Run ok mode initial (state.call mode call)

structure Prepared (mode : FileBlockStorageMode) (storage : FileBlockStorage batchSize) : Prop where
  blocks : ∀ id, storage.blockDatabase.files id = none
  statements : ∀ id, storage.statementDatabase.files id = none
  indexFile : storage.indexFile = none
  hashFile : mode = .hashIndex → storage.hashFile.Seeded

/-- Blocks are dropped from the chain only, and no statement of a block that was dropped is in the way of the statement
of a block that is saved. -/
def Allowed (storage : FileBlockStorage batchSize) : Call → Prop
  | .saveBlock element => element.height = (storage.chainHeight + 1) % 2 ^ 64 →
      element.height ≠ 0 ∧ StatementFits storage 0 element.toBlockElementData
  | .dropBlocksAfter height => height ≤ storage.chainHeight

def Closed (batchSize : Nat) (c : Contents) : Prop :=
  ∀ i j, 0 < i → i ≤ j → i / batchSize = j / batchSize → c j ≠ none → c i ≠ none

theorem Closed.writable (hclosed : Closed batchSize c) {height : Nat} (hpos : 0 < height) :
    Writable batchSize c height := by
  refine or_iff_not_imp_left.2 fun hnone j hlt hsame => ?_
  by_contra hne
  exact hnone (hclosed height j hpos (Nat.le_of_lt hlt) hsame.symm hne)

theorem Closed.write (hclosed : Closed batchSize c) {height : Nat} {payload : List UInt8}
    (hbefore : ∀ i, 0 < i → i < height → c i ≠ none) : Closed batchSize (c.write batchSize height payload) := by
  intro i j hpos hle hsame hne
  by_cases hi : i = height
  · rw [hi, write_self]
    exact Option.some_ne_none _
  by_cases hlt : i < height
  · rw [write_of_lt hlt]
    exact hbefore i hpos hlt
  · -- both ids are after the height, and so in another file
    have hfile : j / batchSize ≠ height / batchSize := fun heq => hne (write_last j (by omega) heq)
    rw [write_of_ne hfile] at hne
    rw [write_of_ne (hsame ▸ hfile)]
    exact hclosed i j hpos hle hsame hne

theorem saveBlock_cases (h : Holds mode storage 0 blocks c c') (hclosed : Closed batchSize c)
    (hallowed : Allowed storage (.saveBlock element)) :
    (∃ error, saveBlock mode element.toBlockElementData storage = .error error storage) ∨
    ∃ storage' c₁ c₁', saveBlock mode element.toBlockElementData storage = .ok () storage' ∧
      Holds mode storage' 0 (blocks ++ [element]) c₁ c₁' ∧ Closed batchSize c₁ := by
  by_cases hnext : element.height = (storage.chainHeight + 1) % 2 ^ 64
  · obtain ⟨hne, hfits⟩ := hallowed hnext
    have hheight : element.height = storage.chainHeight + 1 := by
      have hlt := h.chainHeight_lt
      omega
    obtain ⟨storage', hok, hholds⟩ := h.save hheight (hclosed.writable (by omega)) hfits
    refine .inr ⟨storage', _, _, hok, hholds, hclosed.write fun i hpos hlt => ?_⟩
    obtain ⟨e, he⟩ := h.stored_at hpos (by omega)
    rw [he.block]
    exact Option.some_ne_none _
  · exact .inl ⟨_, saveBlock_refused hnext⟩

theorem holds_prepared (hprepared : Prepared mode storage) :
    Holds mode storage 0 [] (fun _ => none) (fun _ => none) := by
  have hheight : storage.chainHeight = 0 := by
    rw [chainHeight, hprepared.indexFile]
    rfl
  refine ⟨hheight, by rw [hheight]; decide, FileDatabase.shows_empty hprepared.blocks,
    FileDatabase.shows_empty hprepared.statements, (fun _ _ hi => nomatch hi), fun height hlt hle => ?_,
    fun _ _ _ hne => absurd rfl hne, fun hmode => ⟨hprepared.hashFile hmode, rfl⟩⟩
  omega

theorem call_holds {state : Recorded batchSize} (h : Holds mode state.storage 0 state.chain c c')
    (hclosed : Closed batchSize c) {call : Call} (hallowed : Allowed state.storage call) :
    ∃ c₁ c₁', Holds mode (state.call mode call).storage 0 (state.call mode call).chain c₁ c₁' ∧
      Closed batchSize c₁ := by
  cases call with
  | saveBlock element =>
    rw [Recorded.call]
    rcases saveBlock_cases h hclosed hallowed with ⟨error, hthrow⟩ | ⟨storage', c₁, c₁', hok, h', hclosed'⟩
    · rw [hthrow]
      exact ⟨c, c', h, hclosed⟩
    · rw [hok]
      exact ⟨c₁, c₁', h', hclosed'⟩
  | dropBlocksAfter height => exact ⟨c, c', h.drop (Nat.zero_le _) hallowed, hclosed⟩

theorem Run.holds {initial : FileBlockStorage batchSize} {state : Recorded batchSize}
    (hprepared : Prepared mode initial)
    (hrun : Run Allowed mode initial state) :
    ∃ c c', Holds mode state.storage 0 state.chain c c' ∧ Closed batchSize c := by
  induction hrun with
  | start => exact ⟨_, _, holds_prepared hprepared, fun _ _ _ _ _ hne => absurd rfl hne⟩
  | call _ call hok ih =>
    obtain ⟨c, c', h, hclosed⟩ := ih
    exact call_holds h hclosed hok

def emptyBlock (height : Nat) : List UInt8 :=
  leBytes 4 376 ++ List.replicate 106 0 ++ ([0x43, 0x81] ++ (leBytes 8 height ++ List.replicate 256 0))

theorem length_emptyBlock (height : Nat) : (emptyBlock height).length = 376 := by
  simp only [emptyBlock, List.length_append, length_leBytes, List.length_replicate]
  rfl

theorem headerSize_emptyBlock (height : Nat) : Block.headerSize (emptyBlock height) = 376 := by
  have htype : ((emptyBlock height).drop 110).take 2 = [0x43, 0x81] := by
    rw [emptyBlock, List.drop_left' (by simp)]
    rfl
  rw [Block.headerSize, Block.isImportanceBlock, htype]
  rfl

def emptyElement (height : Nat) (statement : Option (List UInt8)) : BlockElement where
  block := emptyBlock height
  entityHash := ⟨List.replicate 32 (UInt8.ofNat height), by simp⟩
  generationHash := ⟨List.replicate 32 0, rfl⟩
  optionalStatement := statement
  size_eq := by
    rw [length_emptyBlock, emptyBlock, List.append_assoc, List.take_left' (length_leBytes 4 376)]
    exact ofLeBytes_leBytes (by decide)
  headerSize_le := by rw [headerSize_emptyBlock, length_emptyBlock]
  transactions_eq := by
    rw [Block.numTransactions, headerSize_emptyBlock, List.drop_of_length_le (length_emptyBlock height).le]
    cases (emptyBlock height).length <;> rfl
  subCacheMerkleRoots_lt := by decide

def emptyStorage (batchSize : Nat) (hpos : 0 < batchSize) : FileBlockStorage batchSize where
  blockDatabase := { batchSize_pos := hpos }
  statementDatabase := { batchSize_pos := hpos }
  hashFile := { files := fun id => if id = 0 then some (List.replicate 2 ⟨List.replicate 32 0, rfl⟩) else none }

theorem prepared_emptyStorage (mode : FileBlockStorageMode) (hpos : 0 < batchSize) :
    Prepared mode (emptyStorage batchSize hpos) :=
  ⟨fun _ => rfl, fun _ => rfl, rfl, fun _ => ⟨_, rfl, Nat.le_refl 2⟩⟩

def twoBlocks : Recorded 10 :=
  (Recorded.call .hashIndex ⟨emptyStorage 10 (by decide), []⟩ (.saveBlock (emptyElement 1 (some [1])))).call .hashIndex
    (.saveBlock (emptyElement 2 none))

def threeBlocks : Recorded 10 := twoBlocks.call .hashIndex (.saveBlock (emptyElement 3 (some [3])))

def replacedBlock : Recorded 10 :=
  (twoBlocks.call .hashIndex (.dropBlocksAfter 0)).call .hashIndex (.saveBlock (emptyElement 1 none))

end FileBlockStorage
end Catapult.Io
