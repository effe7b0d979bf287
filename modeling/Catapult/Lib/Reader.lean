import Catapult.Lib.Bytes

/-!
# Readers of byte streams

A reader takes bytes from the front of a stream and can throw. What is written for a value can be read back when the
reader of the value takes exactly these bytes, whatever comes after them (`Reads`); readers compose as the bytes are
appended (`Reads.bind`).

A loop over a counter of 32 bits that runs to a count of 64 bits does not end by itself when the counter cannot reach
the count.
-/

def ofLeBytes : List UInt8 → Nat
  | [] => 0
  | b :: bytes => b.toNat + 256 * ofLeBytes bytes

theorem ofLeBytes_leBytes {k n : Nat} (h : n < 256 ^ k) : ofLeBytes (leBytes k n) = n := by
  induction k generalizing n with
  | zero =>
    rw [Nat.pow_zero] at h
    rw [leBytes, ofLeBytes]
    omega
  | succ k ih =>
    rw [leBytes, ofLeBytes, ih (Nat.div_lt_of_lt_mul (by rwa [Nat.pow_succ'] at h)), UInt8.toNat_ofNat']
    omega

theorem leBytes_ofLeBytes (bytes : List UInt8) : leBytes bytes.length (ofLeBytes bytes) = bytes := by
  induction bytes with
  | nil => rfl
  | cons b bytes ih =>
    have hb := b.toNat_lt
    have hlow : UInt8.ofNat (b.toNat + 256 * ofLeBytes bytes) = b := by
      apply UInt8.toNat_inj.1
      rw [UInt8.toNat_ofNat']
      omega
    have hhigh : (b.toNat + 256 * ofLeBytes bytes) / 256 = ofLeBytes bytes := by omega
    rw [List.length_cons, leBytes, ofLeBytes, hlow, hhigh, ih]

theorem ofLeBytes_lt (bytes : List UInt8) : ofLeBytes bytes < 256 ^ bytes.length := by
  induction bytes with
  | nil => exact Nat.one_pos
  | cons b bytes ih =>
    have hb := b.toNat_lt
    rw [ofLeBytes, List.length_cons, Nat.pow_succ]
    omega

abbrev FixedBytes (n : Nat) := { bytes : List UInt8 // bytes.length = n }

abbrev Reader (ε : Type) := EStateM ε (List UInt8)

namespace Reader
variable {ε α β σ : Type}

/-- The first bytes of the stream; `eof` is thrown when there are fewer. -/
def bytes (eof : ε) (n : Nat) : Reader ε (FixedBytes n) := fun input =>
  if h : n ≤ input.length then .ok ⟨input.take n, by simpa using h⟩ (input.drop n) else .error eof input

/-- An unsigned number of `n` bytes, lowest first. -/
def nat (eof : ε) (n : Nat) : Reader ε Nat := do
  let raw ← bytes eof n
  return ofLeBytes raw.1

def uint32 (eof : ε) : Reader ε UInt32 := do
  let value ← nat eof 4
  return UInt32.ofNat value

def uint64 (eof : ε) : Reader ε UInt64 := do
  let value ← nat eof 8
  return UInt64.ofNat value

/-- An entity that starts with its size in four bytes. A read of fewer bytes than the size has is a read of more bytes
than there are. -/
def sizePrefixed (eof : ε) : Reader ε (List UInt8) := do
  let size ← bytes eof 4
  if ofLeBytes size.1 < 4 then throw eof
  else
    let body ← bytes eof (ofLeBytes size.1 - 4)
    return size.1 ++ body.1

def lift {δ : Type} (error : δ → ε) : Except δ α → Reader ε α
  | .ok a => pure a
  | .error e => throw (error e)

/-- `count` values one after another. -/
def times (p : Reader ε α) : Nat → Reader ε (List α)
  | 0 => pure []
  | count + 1 => do
    let a ← p
    let as ← times p count
    return a :: as

/-- The iterations of a loop that are left at `i`, at most `fuel` of them. -/
def loop32From (eof : ε) (body : σ → Reader ε σ) (count : Nat) : Nat → UInt32 → σ → Reader ε σ
  | 0, _, _ => throw eof
  | fuel + 1, i, s =>
    if i.toNat < count then do
      let s' ← body s
      loop32From eof body count fuel (i + 1) s'
    else pure s

/-- `for (auto i = 0u; i < count; ++i)`. An iteration takes bytes from the stream or throws, so that there are no
more iterations than there are bytes. -/
def loop32 (eof : ε) (body : σ → Reader ε σ) (count : Nat) (s : σ) : Reader ε σ := fun input =>
  loop32From eof body count (input.length + 1) 0 s input

def Reads (p : Reader ε α) (bs : List UInt8) (a : α) : Prop := ∀ rest, p (bs ++ rest) = .ok a rest

def Fails (p : Reader ε α) (input : List UInt8) : Prop := ∀ a rest, p input ≠ .ok a rest

theorem bind_apply (p : Reader ε α) (f : α → Reader ε β) (input : List UInt8) :
    (p >>= f) input = match p input with
      | .ok a rest => f a rest
      | .error e rest => .error e rest := by
  change EStateM.bind p f input = _
  rw [EStateM.bind]
  split <;> simp_all

/-! ### What a reader has taken -/

section Taken
variable {p : Reader ε α} {f : α → Reader ε β} {input rest : List UInt8} {a : α} {b : β} {eof : ε}

theorem exists_of_bind_eq_ok (h : (p >>= f) input = .ok b rest) :
    ∃ a middle, p input = .ok a middle ∧ f a middle = .ok b rest := by
  rw [bind_apply] at h
  cases hp : p input with
  | ok a middle =>
    rw [hp] at h
    exact ⟨a, middle, rfl, h⟩
  | error e middle =>
    rw [hp] at h
    cases h

theorem eq_of_pure_eq_ok {a' : α} (h : (pure a : Reader ε α) input = .ok a' rest) : a = a' ∧ input = rest := by
  cases h
  exact ⟨rfl, rfl⟩

theorem eq_of_bytes_eq_ok {n : Nat} {raw : FixedBytes n} (h : bytes eof n input = .ok raw rest) :
    input = raw.1 ++ rest := by
  rw [bytes] at h
  split at h
  · cases h
    exact (List.take_append_drop n input).symm
  · cases h

theorem eq_of_nat_eq_ok {k n : Nat} (h : nat eof k input = .ok n rest) : n < 256 ^ k ∧ input = leBytes k n ++ rest := by
  obtain ⟨raw, middle, hraw, hn⟩ := exists_of_bind_eq_ok h
  obtain ⟨rfl, rfl⟩ := eq_of_pure_eq_ok hn
  have hlt := ofLeBytes_lt raw.1
  have hbytes := leBytes_ofLeBytes raw.1
  rw [raw.2] at hlt hbytes
  exact ⟨hlt, by rw [hbytes]; exact eq_of_bytes_eq_ok hraw⟩

end Taken

namespace Reads
variable {p : Reader ε α} {f : α → Reader ε β} {bs bs' input : List UInt8} {a : α} {b : β} {eof : ε}

theorem run (h : Reads p bs a) : p bs = .ok a [] := by simpa using h []

protected theorem pure (a : α) : Reads (pure a : Reader ε α) [] a := fun _ => rfl

protected theorem bind (h : Reads p bs a) (h' : Reads (f a) bs' b) : Reads (p >>= f) (bs ++ bs') b := by
  intro rest
  rw [bind_apply, List.append_assoc, h]
  exact h' rest

theorem bind_pure {b : α → β} (h : Reads p bs a) : Reads (p >>= fun a => pure (b a)) bs (b a) := by
  intro rest
  rw [bind_apply, h]
  rfl

theorem bind_map {γ : Type} {g : β → γ} (h : Reads (p >>= f) bs b) :
    Reads (p >>= fun a => f a >>= fun b => pure (g b)) bs (g b) := by
  rw [← bind_assoc]
  exact h.bind_pure

theorem cons {x : UInt8} (h : Reads p [x] a) (h' : Reads (f a) bs' b) : Reads (p >>= f) (x :: bs') b := h.bind h'

theorem bind_nil (h : Reads p [] a) (h' : Reads (f a) bs' b) : Reads (p >>= f) bs' b := h.bind h'

theorem fails_bind (h : Reads p bs a) (h' : Fails (f a) input) : Fails (p >>= f) (bs ++ input) := by
  intro b rest
  rw [bind_apply, h]
  exact h' b rest

theorem bytes {n : Nat} (raw : FixedBytes n) : Reads (Reader.bytes eof n) raw.1 raw := by
  intro rest
  obtain ⟨raw, rfl⟩ := raw
  simp [Reader.bytes]

theorem nat {k n : Nat} (h : n < 256 ^ k) : Reads (Reader.nat eof k) (leBytes k n) n := by
  have hread : Reads (Reader.nat eof k) (leBytes k n) (ofLeBytes (leBytes k n)) :=
    bind_pure (Reads.bytes ⟨leBytes k n, length_leBytes k n⟩)
  rwa [ofLeBytes_leBytes h] at hread

theorem byte (x : UInt8) : Reads (Reader.nat eof 1) [x] x.toNat := by
  have hread : Reads (Reader.nat eof 1) (leBytes 1 x.toNat) x.toNat := Reads.nat x.toNat_lt
  rwa [leBytes, leBytes, UInt8.ofNat_toNat] at hread

theorem uint32 (x : UInt32) : Reads (Reader.uint32 eof) (leBytes 4 x.toNat) x := by
  have hread : Reads (Reader.uint32 eof) (leBytes 4 x.toNat) (UInt32.ofNat x.toNat) := bind_pure (Reads.nat x.toNat_lt)
  rwa [UInt32.ofNat_toNat] at hread

theorem uint64 (x : UInt64) : Reads (Reader.uint64 eof) (leBytes 8 x.toNat) x := by
  have hread : Reads (Reader.uint64 eof) (leBytes 8 x.toNat) (UInt64.ofNat x.toNat) := bind_pure (Reads.nat x.toNat_lt)
  rwa [UInt64.ofNat_toNat] at hread

theorem sizePrefixed {entity : List UInt8} (hsize : ofLeBytes (entity.take 4) = entity.length)
    (hle : 4 ≤ entity.length) : Reads (Reader.sizePrefixed eof) entity entity := by
  have htake : (entity.take 4).length = 4 := by
    rw [List.length_take]
    omega
  have hdrop : (entity.drop 4).length = ofLeBytes (entity.take 4) - 4 := by
    rw [List.length_drop, hsize]
  have hread : Reads (Reader.sizePrefixed eof) (entity.take 4 ++ entity.drop 4) (entity.take 4 ++ entity.drop 4) := by
    refine (Reads.bytes ⟨entity.take 4, htake⟩).bind ?_
    simp only
    rw [if_neg (by rw [hsize]; omega)]
    exact (Reads.bytes ⟨entity.drop 4, hdrop⟩).bind_pure
  rwa [List.take_append_drop] at hread

theorem lift {δ : Type} {error : δ → ε} {x : Except δ α} (h : x = .ok a) : Reads (Reader.lift error x) [] a := by
  rw [h]
  exact Reads.pure a

theorem times {g : α → List UInt8} {l : List α} (h : ∀ a ∈ l, Reads p (g a) a) :
    Reads (Reader.times p l.length) (l.flatMap g) l := by
  induction l with
  | nil => exact Reads.pure []
  | cons a l ih =>
    rw [List.flatMap_cons]
    exact (h a List.mem_cons_self).bind (bind_pure (ih fun b hb => h b (List.mem_cons_of_mem _ hb)))

end Reads

theorem Fails.bind {p : Reader ε α} {f : α → Reader ε β} {input : List UInt8} (h : Fails p input) :
    Fails (p >>= f) input := by
  intro b rest hok
  rw [bind_apply] at hok
  cases hp : p input with
  | ok a rest' => exact h a rest' hp
  | error e rest' => simp [hp] at hok

/-- Iterations of a loop that take the pieces one after another, none of them empty. -/
inductive ReadsFold (body : σ → Reader ε σ) : σ → List (List UInt8) → σ → Prop
  | nil (s : σ) : ReadsFold body s [] s
  | cons {s s' s'' : σ} {piece : List UInt8} {pieces : List (List UInt8)} (hread : Reads (body s) piece s')
    (hne : piece ≠ []) (htail : ReadsFold body s' pieces s'') : ReadsFold body s (piece :: pieces) s''

section Loop
variable {eof : ε} {body : σ → Reader ε σ} {s s' : σ} {pieces : List (List UInt8)} {count fuel : Nat} {i : UInt32}

theorem ReadsFold.append {pieces' : List (List UInt8)} {s'' : σ} (h : ReadsFold body s pieces s')
    (h' : ReadsFold body s' pieces' s'') : ReadsFold body s (pieces ++ pieces') s'' := by
  induction h with
  | nil => exact h'
  | cons hread hne _ ih => exact .cons hread hne (ih h')

theorem ReadsFold.ofList {body : List α → Reader ε (List α)} {g : α → List UInt8} {pre l : List α}
    (hread : ∀ mid a post, l = mid ++ a :: post → Reads (body (pre ++ mid)) (g a) (pre ++ mid ++ [a]))
    (hne : ∀ a ∈ l, g a ≠ []) : ReadsFold body pre (l.map g) (pre ++ l) := by
  induction l generalizing pre with
  | nil =>
    rw [List.append_nil]
    exact .nil pre
  | cons a l ih =>
    have hfirst := hread [] a l rfl
    have htail : ReadsFold body (pre ++ [a]) (l.map g) (pre ++ [a] ++ l) := by
      refine ih (fun mid b post hl => ?_) fun b hb => hne b (List.mem_cons_of_mem a hb)
      have hb := hread (a :: mid) b post (by rw [hl]; rfl)
      simpa using hb
    rw [List.append_nil] at hfirst
    rw [List.append_assoc] at htail
    exact .cons hfirst (hne a List.mem_cons_self) htail

theorem ReadsFold.length_le (h : ReadsFold body s pieces s') : pieces.length ≤ pieces.flatten.length := by
  induction h with
  | nil => exact Nat.le_refl _
  | cons _ hne _ ih =>
    have hpos := List.length_pos_iff.2 hne
    simp only [List.length_cons, List.flatten_cons, List.length_append]
    omega

theorem ReadsFold.loop32From (h : ReadsFold body s pieces s') (hi : i.toNat + pieces.length = count)
    (hlt : count < 2 ^ 32) (hfuel : pieces.length < fuel) :
    Reads (Reader.loop32From eof body count fuel i s) pieces.flatten s' := by
  induction h generalizing i fuel with
  | nil s =>
    obtain ⟨fuel, rfl⟩ : ∃ n, fuel = n + 1 := ⟨fuel - 1, by simp at hfuel; omega⟩
    simp only [List.length_nil, Nat.add_zero] at hi
    rw [Reader.loop32From, if_neg (by omega)]
    exact .pure s
  | cons hread hne htail ih =>
    obtain ⟨fuel, rfl⟩ : ∃ n, fuel = n + 1 := ⟨fuel - 1, by omega⟩
    simp only [List.length_cons] at hi hfuel
    rw [Reader.loop32From, if_pos (by omega), List.flatten_cons]
    refine hread.bind (ih ?_ (by omega))
    rw [UInt32.toNat_add, UInt32.toNat_one]
    omega

theorem ReadsFold.loop32 (h : ReadsFold body s pieces s') (hlt : pieces.length < 2 ^ 32) :
    Reads (Reader.loop32 eof body pieces.length s) pieces.flatten s' := by
  intro rest
  have hle := h.length_le
  refine h.loop32From (by simp) hlt ?_ rest
  simp only [List.length_append]
  omega

theorem loop32From_fails (hle : 2 ^ 32 ≤ count) (input : List UInt8) :
    Fails (loop32From eof body count fuel i s) input := by
  induction fuel generalizing i s input with
  | zero =>
    intro a rest hok
    cases hok
  | succ fuel ih =>
    have hi := i.toNat_lt
    rw [loop32From, if_pos (by omega)]
    intro b rest hok
    rw [bind_apply] at hok
    cases hbody : body s input with
    | ok s' rest' =>
      rw [hbody] at hok
      exact ih rest' b rest hok
    | error e rest' => simp [hbody] at hok

theorem loop32_fails (hle : 2 ^ 32 ≤ count) (input : List UInt8) : Fails (loop32 eof body count s) input :=
  loop32From_fails hle input

theorem ReadsFold.loop32From_fails {input : List UInt8} (h : ReadsFold body s pieces s')
    (hfails : Fails (body s') input) (hi : i.toNat + pieces.length < count) :
    Fails (Reader.loop32From eof body count fuel i s) (pieces.flatten ++ input) := by
  induction h generalizing i fuel with
  | nil s =>
    cases fuel with
    | zero => exact fun a rest hok => nomatch hok
    | succ fuel =>
      rw [Reader.loop32From, if_pos (by omega)]
      exact hfails.bind
  | cons hread hne htail ih =>
    cases fuel with
    | zero => exact fun a rest hok => nomatch hok
    | succ fuel =>
      simp only [List.length_cons] at hi
      rw [Reader.loop32From, if_pos (by omega), List.flatten_cons, List.append_assoc]
      refine hread.fails_bind (ih hfails ?_)
      rw [UInt32.toNat_add, UInt32.toNat_one]
      omega

theorem ReadsFold.loop32_fails {input : List UInt8} (h : ReadsFold body s pieces s') (hfails : Fails (body s') input)
    (hlt : pieces.length < count) :
    Fails (Reader.loop32 eof body count s) (pieces.flatten ++ input) :=
  h.loop32From_fails hfails (by simpa using hlt)

end Loop
end Reader
