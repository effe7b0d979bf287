import Catapult.Catparser.ExpansionTermination

/-!
# Recursive flattening of structures

A structure is flat when the structures of its placeholders are inlined flat, in the order of the placeholders. When
no structure is inlined in itself, over any number of structures, this is a definition: there are at most as many
structures behind one another as there are names.
-/

namespace Catapult.Catparser
open Relation

section Lists
variable {α β : Type}

def lastSome : List (Option α) → Option α
  | [] => none
  | a :: l => (lastSome l).or a

theorem lastSome_append (l l' : List (Option α)) : lastSome (l ++ l') = (lastSome l').or (lastSome l) := by
  induction l with
  | nil => exact (Option.or_none (o := lastSome l')).symm
  | cons a l ih => rw [List.cons_append, lastSome, lastSome, ih, Option.or_assoc]

theorem lastSome_eq_none {l : List (Option α)} : lastSome l = none ↔ ∀ a ∈ l, a = none := by
  induction l with
  | nil => simp [lastSome]
  | cons a l ih => simp [lastSome, ih, and_comm]

theorem lastSome_mem {l : List (Option α)} {a : α} (h : lastSome l = some a) : some a ∈ l := by
  induction l with
  | nil => cases h
  | cons b l ih =>
    rw [lastSome, Option.or_eq_some_iff] at h
    rcases h with h | ⟨-, rfl⟩
    · exact List.mem_cons_of_mem _ (ih h)
    · exact List.mem_cons_self

theorem lastSome_flatMap (f : β → List (Option α)) (l : List β) :
    lastSome (l.flatMap f) = lastSome (l.map fun b => lastSome (f b)) := by
  induction l with
  | nil => rfl
  | cons b l ih => rw [List.flatMap_cons, lastSome_append, ih, List.map_cons, lastSome]

end Lists

@[simp] theorem extendAttributes_extendAttributes (attributes : Option (List Attribute))
    (inherited inherited' : List Attribute) :
    extendAttributes (extendAttributes attributes inherited) inherited' =
      extendAttributes attributes (inherited ++ inherited') := by
  by_cases h : inherited = []
  · rw [h, List.nil_append]
    rfl
  · by_cases h' : inherited' = []
    · rw [h', List.append_nil]
      rfl
    · simp [extendAttributes, h, h']

theorem getD_extendAttributes (attributes : Option (List Attribute)) (inherited : List Attribute) :
    (extendAttributes attributes inherited).getD [] = attributes.getD [] ++ inherited := by
  by_cases h : inherited = []
  · simp [extendAttributes, h]
  · simp [extendAttributes, h]

section Inline
variable {expanded expanded' : String → Struct ArrayAttributes} {model : Struct ArrayAttributes}
  {members : List (StructMember ArrayAttributes)} {models : Models}

def memberFields (expanded : String → Struct ArrayAttributes) :
    StructMember ArrayAttributes → List (StructMember ArrayAttributes)
  | .field field => [.field field]
  | .inlinePlaceholder inlinedTypename => (expanded inlinedTypename).fields

def inlineMember (expanded : String → Struct ArrayAttributes) (model : Struct ArrayAttributes) :
    StructMember ArrayAttributes → Struct ArrayAttributes
  | .field field => { model with fields := model.fields ++ [.field field] }
  | .inlinePlaceholder inlinedTypename => inlineStruct model (expanded inlinedTypename)

def inlineFields (expanded : String → Struct ArrayAttributes) (model : Struct ArrayAttributes) :
    Struct ArrayAttributes :=
  model.fields.foldl (inlineMember expanded) { model with fields := [] }

def inheritedAttributes (expanded : String → Struct ArrayAttributes) (typenames : List String) : List Attribute :=
  typenames.flatMap fun typename => (expanded typename).attributes.getD []

def inheritedFactoryType (expanded : String → Struct ArrayAttributes) (typenames : List String) : Option String :=
  lastSome (typenames.map fun typename => factoryContribution (expanded typename))

theorem foldl_inlineMember : members.foldl (inlineMember expanded) model =
    { model with
      fields := model.fields ++ members.flatMap (memberFields expanded)
      attributes := extendAttributes model.attributes (inheritedAttributes expanded (inlinedTypenames members))
      factoryType := (inheritedFactoryType expanded (inlinedTypenames members)).or model.factoryType } := by
  induction members generalizing model with
  | nil => simp [inheritedAttributes, inheritedFactoryType, inlinedTypenames, lastSome, extendAttributes]
  | cons member members ih =>
    rw [List.foldl_cons, ih]
    cases member with
    | field field => simp [inlineMember, memberFields, inlinedTypenames_cons_field]
    | inlinePlaceholder inlinedTypename =>
      simp [inlineMember, inlineStruct, memberFields, inlinedTypenames_cons_placeholder, inheritedAttributes,
        inheritedFactoryType, lastSome, Option.or_assoc]

theorem inlineFields_eq (expanded : String → Struct ArrayAttributes) (model : Struct ArrayAttributes) :
    inlineFields expanded model =
      { model with
        fields := model.fields.flatMap (memberFields expanded)
        attributes := extendAttributes model.attributes (inheritedAttributes expanded (inlinedTypenames model.fields))
        factoryType := (inheritedFactoryType expanded (inlinedTypenames model.fields)).or model.factoryType } := by
  rw [inlineFields, foldl_inlineMember]
  rfl

theorem foldl_inlineMember_congr (h : ∀ t ∈ inlinedTypenames members, expanded t = expanded' t) :
    members.foldl (inlineMember expanded) model = members.foldl (inlineMember expanded') model := by
  induction members generalizing model with
  | nil => rfl
  | cons member members ih =>
    rw [List.foldl_cons, List.foldl_cons]
    cases member with
    | field field => exact ih h
    | inlinePlaceholder inlinedTypename =>
      rw [inlinedTypenames_cons_placeholder, List.forall_mem_cons] at h
      rw [ih h.2, inlineMember, inlineMember, h.1]

theorem foldlM_expandMember_eq
    (h : ∀ t ∈ inlinedTypenames members, t ≠ model.name ∧ models t = some (.struct (expanded t))) :
    members.foldlM (expandMember models) model = .ok (members.foldl (inlineMember expanded) model) := by
  induction members generalizing model with
  | nil => rfl
  | cons member members ih =>
    rw [List.foldlM_cons, List.foldl_cons]
    cases member with
    | field field => exact ih h
    | inlinePlaceholder inlinedTypename =>
      rw [inlinedTypenames_cons_placeholder, List.forall_mem_cons] at h
      obtain ⟨⟨hne, hmodel⟩, hmembers⟩ := h
      rw [expandMember, lookupModel, if_neg hne, hmodel]
      exact ih hmembers

theorem expandRound_eq
    (h : ∀ t ∈ inlinedTypenames model.fields, t ≠ model.name ∧ models t = some (.struct (expanded t))) :
    expandRound models model = .ok (inlineFields expanded model) := foldlM_expandMember_eq h

theorem flatMap_memberFields_of_eq_nil (h : inlinedTypenames members = []) :
    members.flatMap (memberFields expanded) = members := by
  induction members with
  | nil => rfl
  | cons member members ih =>
    cases member with
    | field field =>
      rw [inlinedTypenames_cons_field] at h
      rw [List.flatMap_cons, ih h]
      rfl
    | inlinePlaceholder inlinedTypename => cases h

theorem inlineFields_of_eq_nil (h : inlinedTypenames model.fields = []) : inlineFields expanded model = model := by
  rw [inlineFields_eq, h, flatMap_memberFields_of_eq_nil h]
  simp [inheritedAttributes, inheritedFactoryType, lastSome, extendAttributes]

theorem inlinedTypenames_flatMap : inlinedTypenames (members.flatMap (memberFields expanded)) =
    (inlinedTypenames members).flatMap fun t => inlinedTypenames (expanded t).fields := by
  induction members with
  | nil => rfl
  | cons member members ih =>
    rw [List.flatMap_cons, inlinedTypenames_append, ih]
    cases member with
    | field field => rfl
    | inlinePlaceholder inlinedTypename => rfl

theorem flatMap_memberFields_flatMap (h : ∀ t ∈ inlinedTypenames members,
      (expanded t).fields.flatMap (memberFields expanded') = (expanded' t).fields) :
    (members.flatMap (memberFields expanded)).flatMap (memberFields expanded') =
      members.flatMap (memberFields expanded') := by
  induction members with
  | nil => rfl
  | cons member members ih =>
    rw [List.flatMap_cons, List.flatMap_append, List.flatMap_cons]
    cases member with
    | field field =>
      rw [ih h]
      rfl
    | inlinePlaceholder inlinedTypename =>
      rw [inlinedTypenames_cons_placeholder, List.forall_mem_cons] at h
      rw [ih h.2, memberFields, memberFields, h.1]

end Inline

/-- No structure is inlined in itself, over any number of structures. -/
def Acyclic (models : Models) : Prop := ∀ name, ¬TransGen (Inlines models) name name

def placeholders (models : Models) (name : String) : List String :=
  match models name with
  | some (.struct model) => inlinedTypenames model.fields
  | _ => []

section Depth
variable {models : Models} {a b : String} {typeDescriptors : List (TypeDescriptor ArrayAttributes)}

theorem placeholders_of_eq {model : Struct ArrayAttributes} (h : models a = some (.struct model)) :
    placeholders models a = inlinedTypenames model.fields := by
  rw [placeholders, h]

theorem mem_placeholders : b ∈ placeholders models a ↔ Inlines models a b := by
  rw [placeholders, Inlines]
  split
  · case h_1 model hmodel => simp [hmodel]
  · case h_2 hmodel =>
    constructor
    · exact fun hb => absurd hb List.not_mem_nil
    · rintro ⟨model, hother, -⟩
      exact absurd hother (hmodel model)

theorem depthLe_card {α : Type} [DecidableEq α] {links : α → List α} {left : Finset α} {a : α}
    (hacyclic : ∀ a, ¬TransGen (fun a b => b ∈ links a) a a)
    (hleft : ∀ b, ReflTransGen (fun a b => b ∈ links a) a b → links b ≠ [] → b ∈ left) :
    DepthLe links (left.card + 1) a := by
  induction hcard : left.card generalizing left a with
  | zero =>
    intro b hb
    have ha := hleft a .refl (List.ne_nil_of_mem hb)
    rw [Finset.card_eq_zero.1 hcard] at ha
    cases ha
  | succ n ih =>
    intro b hb
    have ha := hleft a .refl (List.ne_nil_of_mem hb)
    refine ih (fun c hbc hc => ?_) (by rw [Finset.card_erase_of_mem ha, hcard, Nat.add_sub_cancel])
    refine Finset.mem_erase.2 ⟨?_, hleft c (.head hb hbc) hc⟩
    rintro rfl
    exact hacyclic c (.head' hb hbc)

theorem Acyclic.depthLe (h : Acyclic (typeDescriptorMap typeDescriptors)) (name : String) :
    DepthLe (placeholders (typeDescriptorMap typeDescriptors)) (typeDescriptors.length + 1) name := by
  have hlinks : (fun a b => b ∈ placeholders (typeDescriptorMap typeDescriptors) a) =
      Inlines (typeDescriptorMap typeDescriptors) := by
    funext a b
    exact propext mem_placeholders
  have hcard : (modelNames typeDescriptors).toFinset.card ≤ typeDescriptors.length := by
    rw [List.toFinset_card_of_nodup (nodup_modelNames typeDescriptors), modelNames, List.length_reverse]
    refine (List.dedup_sublist _).length_le.trans ?_
    rw [List.length_reverse, List.length_map]
  refine (depthLe_card ?_ fun b _ hb => ?_).mono (Nat.add_le_add_right hcard 1)
  · rw [hlinks]
    exact h
  · obtain ⟨c, hc⟩ := List.exists_mem_of_ne_nil _ hb
    obtain ⟨model, hmodel, -⟩ := mem_placeholders.1 hc
    exact List.mem_toFinset.2 (mem_modelNames_of_typeDescriptorMap hmodel)

end Depth

def flatten (models : Models) : Nat → String → Struct ArrayAttributes
  | 0, name => ⟨name, none, [], none, none⟩
  | depth + 1, name =>
    match models name with
    | some (.struct model) => inlineFields (flatten models depth) model
    | _ => ⟨name, none, [], none, none⟩

def flattened (typeDescriptors : List (TypeDescriptor ArrayAttributes)) (name : String) : Struct ArrayAttributes :=
  flatten (typeDescriptorMap typeDescriptors) (typeDescriptors.length + 1) name

section Flatten
variable {models : Models} {model : Struct ArrayAttributes} {name : String} {n m : Nat}
  {typeDescriptors : List (TypeDescriptor ArrayAttributes)}

theorem flatten_eq (h : models name = some (.struct model)) :
    flatten models (n + 1) name = inlineFields (flatten models n) model := by
  rw [flatten, h]

theorem flatten_of_depthLe (h : DepthLe (placeholders models) n name) (hle : n ≤ m) :
    flatten models m name = flatten models n name := by
  induction n generalizing m name with
  | zero => exact h.elim
  | succ n ih =>
    obtain ⟨m, rfl⟩ : ∃ k, m = k + 1 := ⟨m - 1, by omega⟩
    rw [flatten, flatten]
    split
    · case h_1 model hmodel =>
      refine foldl_inlineMember_congr fun t ht => ih (h t ?_) (Nat.le_of_succ_le_succ hle)
      rwa [placeholders_of_eq hmodel]
    · rfl

theorem flattened_eq (hacyclic : Acyclic (typeDescriptorMap typeDescriptors))
    (hmodel : typeDescriptorMap typeDescriptors name = some (.struct model)) :
    flattened typeDescriptors name = inlineFields (flattened typeDescriptors) model := by
  rw [flattened, flatten_eq hmodel]
  refine foldl_inlineMember_congr fun t ht => (flatten_of_depthLe ?_ (Nat.le_succ _)).symm
  rw [← placeholders_of_eq hmodel] at ht
  exact hacyclic.depthLe name t ht

end Flatten

end Catapult.Catparser
