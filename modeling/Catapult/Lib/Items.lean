import Mathlib.Data.List.Basic

/-!
# Sequences of padded items

A format says which lists are items and how much padding follows one. No item is empty, and a list starts with one item
at most. `Items buffer items tail`: the buffer is a sequence of padded items and a tail, and the padding of the last
item is optional when the item ends with the buffer. Of all the ways to read a buffer, a longest one has the shortest
tail.
-/

namespace Catapult

structure ItemFormat (α : Type*) where
  IsItem : List α → Prop
  padding : List α → Nat
  ne_nil : ∀ {item}, IsItem item → item ≠ []
  unique : ∀ {buffer item item'}, IsItem item → IsItem item' → item <+: buffer → item' <+: buffer → item = item'

namespace ItemFormat
variable {α : Type*} (format : ItemFormat α)

inductive Items : List α → List (List α) → List α → Prop
  | nil {buffer : List α} : Items buffer [] buffer
  | last {item : List α} (h : format.IsItem item) : Items item [item] []
  | cons {item padding rest tail : List α} {items : List (List α)} (h : format.IsItem item)
      (hpadding : padding.length = format.padding item) (hrest : Items rest items tail) :
      Items (item ++ padding ++ rest) (item :: items) tail

def Longest (buffer : List α) (items : List (List α)) (tail : List α) : Prop :=
  format.Items buffer items tail ∧ ∀ items' tail', format.Items buffer items' tail' → tail.length ≤ tail'.length

/-- The item at the start of a list is there, and its padding is not. -/
def CutOff (tail item : List α) : Prop :=
  format.IsItem item ∧ ∃ rest, tail = item ++ rest ∧ rest ≠ [] ∧ rest.length < format.padding item

variable {format} {buffer item padding rest tail : List α} {items : List (List α)}

theorem starts (item padding rest : List α) : item <+: item ++ padding ++ rest :=
  ⟨padding ++ rest, (List.append_assoc _ _ _).symm⟩

theorem Items.length_le (h : format.Items buffer items tail) : tail.length ≤ buffer.length := by
  induction h with
  | nil => exact Nat.le_refl _
  | last => exact Nat.zero_le _
  | cons _ _ _ ih =>
    rw [List.length_append]
    exact Nat.le_trans ih (Nat.le_add_left _ _)

theorem Items.length_lt (h : format.Items buffer items tail) (hne : items ≠ []) : tail.length < buffer.length := by
  cases h with
  | nil => exact absurd rfl hne
  | last hitem => exact List.length_pos_iff.2 (format.ne_nil hitem)
  | cons hitem _ hrest =>
    have hpos := List.length_pos_iff.2 (format.ne_nil hitem)
    have hle := hrest.length_le
    rw [List.length_append, List.length_append]
    omega

theorem Items.eq_nil (h : format.Items [] items tail) : items = [] ∧ tail = [] := by
  have htail := List.length_eq_zero_iff.1 (Nat.le_zero.1 h.length_le)
  by_contra hne
  have hlt := h.length_lt fun hitems => hne ⟨hitems, htail⟩
  exact absurd hlt (Nat.not_lt_zero _)

theorem Items.unique {items' : List (List α)} {tail' : List α} (h : format.Items buffer items tail)
    (h' : format.Items buffer items' tail') (hlength : tail.length = tail'.length) : items = items' ∧ tail = tail' := by
  induction h generalizing items' with
  | nil =>
    cases items' with
    | nil =>
      cases h'
      exact ⟨rfl, rfl⟩
    | cons item items =>
      have hlt := h'.length_lt (List.cons_ne_nil _ _)
      omega
  | @last item hitem =>
    have htail : tail' = [] := List.length_eq_zero_iff.1 hlength.symm
    generalize hbuffer : item = buffer at h'
    cases h' with
    | nil => exact absurd (hbuffer.trans htail) (format.ne_nil hitem)
    | last => exact ⟨rfl, rfl⟩
    | @cons item' padding rest _ items hitem' _ hrest =>
      obtain rfl := format.unique hitem hitem' ⟨[], (List.append_nil _).trans hbuffer⟩ (starts _ _ _)
      rw [← hbuffer]
      rw [List.append_assoc] at hbuffer
      have hnil := (List.append_eq_nil_iff.1 (List.append_right_eq_self.1 hbuffer.symm)).2
      rw [hnil] at hrest
      exact ⟨congrArg (item :: ·) hrest.eq_nil.1.symm, htail.symm⟩
  | @cons item padding rest tail items hitem hpadding hrest ih =>
    have hlt := (Items.cons hitem hpadding hrest).length_lt (List.cons_ne_nil _ _)
    have hstarts := starts item padding rest
    generalize hbuffer : item ++ padding ++ rest = buffer at h' hlt hstarts
    cases h' with
    | nil => omega
    | last hitem' =>
      obtain rfl := format.unique hitem hitem' hstarts List.prefix_rfl
      rw [List.append_assoc] at hbuffer
      have hnil := (List.append_eq_nil_iff.1 (List.append_right_eq_self.1 hbuffer)).2
      rw [hnil] at hrest
      exact ⟨congrArg (item :: ·) hrest.eq_nil.1, hrest.eq_nil.2⟩
    | @cons item' padding' rest' _ _ hitem' hpadding' hrest' =>
      obtain rfl := format.unique hitem hitem' hstarts (starts _ _ _)
      rw [List.append_assoc, List.append_assoc] at hbuffer
      obtain ⟨-, rfl⟩ := List.append_inj (List.append_cancel_left hbuffer) (hpadding.trans hpadding'.symm)
      obtain ⟨rfl, rfl⟩ := ih hrest' hlength
      exact ⟨rfl, rfl⟩

theorem Longest.unique {items' : List (List α)} {tail' : List α} (h : format.Longest buffer items tail)
    (h' : format.Longest buffer items' tail') : items = items' ∧ tail = tail' :=
  h.1.unique h'.1 (Nat.le_antisymm (h.2 _ _ h'.1) (h'.2 _ _ h.1))

theorem CutOff.unique {item' : List α} (h : format.CutOff tail item) (h' : format.CutOff tail item') :
    item = item' := by
  obtain ⟨hitem, rest, rfl, -⟩ := h
  obtain ⟨hitem', rest', heq, -⟩ := h'
  exact format.unique hitem hitem' ⟨rest, rfl⟩ ⟨rest', heq.symm⟩

theorem longest_self (h : ∀ item, format.IsItem item → ¬item <+: buffer) : format.Longest buffer [] buffer := by
  refine ⟨.nil, fun items tail hitems => ?_⟩
  cases hitems with
  | nil => exact Nat.le_refl _
  | last hitem => exact absurd List.prefix_rfl (h _ hitem)
  | cons hitem _ _ => exact absurd (starts _ _ _) (h _ hitem)

theorem longest_last (h : format.IsItem item) : format.Longest item [item] [] := ⟨.last h, fun _ _ _ => Nat.zero_le _⟩

theorem CutOff.longest (h : format.CutOff tail item) : format.Longest tail [] tail := by
  obtain ⟨hitem, rest, rfl, hne, hlt⟩ := h
  refine ⟨.nil, fun items tail hitems => ?_⟩
  generalize hbuffer : item ++ rest = buffer at hitems
  cases hitems with
  | nil => exact Nat.le_refl _
  | last hitem' =>
    obtain rfl := format.unique hitem hitem' ⟨rest, hbuffer⟩ List.prefix_rfl
    exact absurd (List.append_right_eq_self.1 hbuffer) hne
  | @cons item' padding rest' _ _ hitem' hpadding _ =>
    obtain rfl := format.unique hitem hitem' ⟨rest, hbuffer⟩ (starts _ _ _)
    rw [List.append_assoc] at hbuffer
    obtain rfl := List.append_cancel_left hbuffer
    rw [List.length_append] at hlt
    omega

theorem Longest.cons (h : format.IsItem item) (hpadding : padding.length = format.padding item)
    (hrest : format.Longest rest items tail) : format.Longest (item ++ padding ++ rest) (item :: items) tail := by
  refine ⟨.cons h hpadding hrest.1, fun items' tail' hitems => ?_⟩
  have hstarts := starts item padding rest
  generalize hbuffer : item ++ padding ++ rest = buffer at hitems hstarts
  cases hitems with
  | nil =>
    rw [← hbuffer, List.length_append]
    exact Nat.le_trans hrest.1.length_le (Nat.le_add_left _ _)
  | last hitem' =>
    obtain rfl := format.unique h hitem' hstarts List.prefix_rfl
    have hnil : rest = [] := by
      rw [List.append_assoc] at hbuffer
      exact (List.append_eq_nil_iff.1 (List.append_right_eq_self.1 hbuffer)).2
    rw [hnil] at hrest
    exact hrest.1.length_le
  | @cons item' padding' rest' _ _ hitem' hpadding' hitems =>
    obtain rfl := format.unique h hitem' hstarts (starts _ _ _)
    rw [List.append_assoc, List.append_assoc] at hbuffer
    obtain ⟨-, rfl⟩ := List.append_inj (List.append_cancel_left hbuffer) (hpadding.trans hpadding'.symm)
    exact hrest.2 _ _ hitems

end ItemFormat
end Catapult
