import Mathlib.Order.WellFoundedSet

/-!
# Paths of a bounded length

`Path r n a b` is a path of `n` edges. A relation without paths of more than `d` edges has no cycles, and a finite one
without cycles is well-founded. New edges out of one node keep the bound when every one of them is checked by itself
against the paths that end in the node and the paths that start at its end.

`findAll` follows the links of a node as far as they go, and returns the length of the longest path and the nodes on
all of them.
-/

namespace Catapult

variable {α : Type*} {r r' : α → α → Prop} {a b c m : α} {n d : Nat}

inductive Path (r : α → α → Prop) : Nat → α → α → Prop
  | nil (a : α) : Path r 0 a a
  | cons {n : Nat} {a b c : α} (edge : r a b) (path : Path r n b c) : Path r (n + 1) a c

def DepthAtMost (r : α → α → Prop) (d : Nat) : Prop := ∀ n a b, Path r n a b → n ≤ d

namespace Path

theorem mono (h : ∀ a b, r a b → r' a b) (p : Path r n a b) : Path r' n a b := by
  induction p with
  | nil => exact .nil _
  | cons edge _ ih => exact .cons (h _ _ edge) ih

theorem append {k : Nat} (p : Path r n a b) (q : Path r k b c) : Path r (n + k) a c := by
  induction p with
  | nil => rwa [Nat.zero_add]
  | cons edge _ ih =>
    rw [Nat.add_right_comm]
    exact .cons edge (ih q)

theorem single (edge : r a b) : Path r 1 a b := .cons edge (.nil b)

theorem reverse (p : Path r n a b) : Path (fun x y => r y x) n b a := by
  induction p with
  | nil => exact .nil _
  | cons edge _ ih => exact ih.append (.single edge)

theorem reflTransGen (p : Path r n a b) : Relation.ReflTransGen r a b := by
  induction p with
  | nil => exact .refl
  | cons edge _ ih => exact .head edge ih

theorem exists_of_transGen (h : Relation.TransGen r a b) : ∃ n, Path r (n + 1) a b := by
  induction h with
  | single edge => exact ⟨0, .single edge⟩
  | tail _ edge ih =>
    obtain ⟨n, p⟩ := ih
    exact ⟨n + 1, p.append (.single edge)⟩

theorem repeat_cycle (p : Path r (n + 1) a a) : ∀ k, Path r (k * (n + 1)) a a
  | 0 => by simpa using Path.nil a
  | k + 1 => by
    rw [Nat.succ_mul]
    exact (repeat_cycle p k).append p

end Path

namespace DepthAtMost

theorem mono (hd : DepthAtMost r' d) (h : ∀ a b, r a b → r' a b) : DepthAtMost r d :=
  fun n a b p => hd n a b (p.mono h)

theorem not_transGen (hd : DepthAtMost r d) (a : α) : ¬Relation.TransGen r a a := by
  intro hcycle
  obtain ⟨n, p⟩ := Path.exists_of_transGen hcycle
  have hle := hd _ a a (p.repeat_cycle (d + 1))
  have hmul : (d + 1) * 1 ≤ (d + 1) * (n + 1) := Nat.mul_le_mul_left _ (by omega)
  omega

theorem path_add_edges {s : Set α} (hloop : ∀ c ∈ s, ¬Relation.ReflTransGen r c m)
    (p : Path (fun a b => r a b ∨ (a = m ∧ b ∈ s)) n a b) :
    Path r n a b ∨ ∃ c ∈ s, ∃ top bottom, Path r top a m ∧ Path r bottom c b ∧ n = top + bottom + 1 := by
  induction p with
  | nil => exact .inl (.nil _)
  | @cons n a b' b edge _ ih =>
    rcases edge with edge | ⟨rfl, hmem⟩
    · rcases ih with p | ⟨c, hc, top, bottom, ptop, pbottom, hn⟩
      · exact .inl (.cons edge p)
      · exact .inr ⟨c, hc, top + 1, bottom, .cons edge ptop, pbottom, by omega⟩
    · rcases ih with p | ⟨c, hc, top, bottom, ptop, -, -⟩
      · exact .inr ⟨b', hmem, 0, n, .nil _, p, by omega⟩
      · exact absurd ptop.reflTransGen (hloop b' hmem)

theorem add_edges {s : Set α} (hd : DepthAtMost r d) (hloop : ∀ c ∈ s, ¬Relation.ReflTransGen r c m)
    (hlevels : ∀ c ∈ s, ∀ top bottom x y, Path r top x m → Path r bottom c y → top + bottom + 1 ≤ d) :
    DepthAtMost (fun a b => r a b ∨ (a = m ∧ b ∈ s)) d := by
  intro n a b p
  rcases path_add_edges hloop p with p | ⟨c, hc, top, bottom, ptop, pbottom, hn⟩
  · exact hd n a b p
  · have hle := hlevels c hc top bottom a b ptop pbottom
    omega

end DepthAtMost

theorem wellFounded_of_not_transGen (hfinite : {a | ∃ b, r a b}.Finite) (h : ∀ a, ¬Relation.TransGen r a a) :
    WellFounded fun b a => r a b := by
  have : IsStrictOrder α fun b a => Relation.TransGen r a b :=
    { irrefl := h, trans := fun a b c hba hcb => hcb.trans hba }
  have hon := hfinite.wellFoundedOn (r := fun b a => Relation.TransGen r a b)
  refine ⟨fun a => ⟨a, fun b hab => ?_⟩⟩
  by_cases hb : ∃ c, r b c
  · refine hon.induction hb fun b _ ih => ⟨b, fun c hbc => ?_⟩
    by_cases hc : ∃ d, r c d
    · exact ih c hc (.single hbc)
    · exact ⟨c, fun d hcd => absurd ⟨d, hcd⟩ hc⟩
  · exact ⟨b, fun c hbc => absurd ⟨c, hbc⟩ hb⟩

section FindAll
variable [DecidableEq α] (links : α → Finset α)

/-- The number of levels and the nodes below a node; `none` when the fuel is used up. -/
def findAll : Nat → α → Option (Nat × Finset α)
  | 0, _ => none
  | fuel + 1, a =>
    if ∀ b ∈ links a, (findAll fuel b).isSome then
      some ((links a).sup fun b => ((findAll fuel b).getD (0, ∅)).1 + 1,
        (links a).biUnion fun b => insert b ((findAll fuel b).getD (0, ∅)).2)
    else none

variable {links} {levels fuel : Nat} {nodes : Finset α}

theorem findAll_succ_eq_some (h : findAll links (fuel + 1) a = some (levels, nodes)) :
    ∀ b ∈ links a, ∃ levels' nodes', findAll links fuel b = some (levels', nodes') ∧ levels' + 1 ≤ levels ∧
      b ∈ nodes ∧ nodes' ⊆ nodes := by
  rw [findAll] at h
  split at h
  · rename_i hall
    cases h
    intro b hb
    obtain ⟨⟨levels', nodes'⟩, heq⟩ := Option.isSome_iff_exists.1 (hall b hb)
    refine ⟨levels', nodes', heq, ?_, ?_, ?_⟩
    · have hle := Finset.le_sup (f := fun b => ((findAll links fuel b).getD (0, ∅)).1 + 1) hb
      simpa [heq] using hle
    · exact Finset.mem_biUnion.2 ⟨b, hb, Finset.mem_insert_self _ _⟩
    · intro x hx
      exact Finset.mem_biUnion.2 ⟨b, hb, Finset.mem_insert_of_mem (by simpa [heq] using hx)⟩
  · cases h

theorem le_of_findAll (h : findAll links fuel a = some (levels, nodes))
    (p : Path (fun a b => b ∈ links a) n a b) : n ≤ levels := by
  induction fuel generalizing a n levels nodes with
  | zero => cases h
  | succ fuel ih =>
    cases p with
    | nil => exact Nat.zero_le _
    | cons edge p =>
      obtain ⟨levels', nodes', heq, hle, -, -⟩ := findAll_succ_eq_some h _ edge
      have hn := ih heq p
      omega

theorem mem_of_findAll (h : findAll links fuel a = some (levels, nodes))
    (hpath : Relation.TransGen (fun a b => b ∈ links a) a b) : b ∈ nodes := by
  induction fuel generalizing a levels nodes with
  | zero => cases h
  | succ fuel ih =>
    rcases Relation.TransGen.head'_iff.1 hpath with ⟨c, edge, hrest⟩
    obtain ⟨levels', nodes', heq, -, hmem, hsub⟩ := findAll_succ_eq_some h c edge
    rcases Relation.reflTransGen_iff_eq_or_transGen.1 hrest with rfl | hrest
    · exact hmem
    · exact hsub (ih heq hrest)

theorem exists_findAll (h : ∀ n b, Path (fun a b => b ∈ links a) n a b → n ≤ d) :
    ∃ result, findAll links (d + 1) a = some result := by
  induction d generalizing a with
  | zero =>
    have hnone : ∀ b ∈ links a, False := fun b hb => by simpa using h 1 b (.single hb)
    exact ⟨_, by rw [findAll, if_pos fun b hb => (hnone b hb).elim]⟩
  | succ d ih =>
    have hall : ∀ b ∈ links a, (findAll links (d + 1) b).isSome := by
      intro b hb
      rw [Option.isSome_iff_exists]
      apply ih
      intro n c p
      have hle := h (n + 1) c (.cons hb p)
      omega
    exact ⟨_, by rw [findAll, if_pos hall]⟩

end FindAll
end Catapult
