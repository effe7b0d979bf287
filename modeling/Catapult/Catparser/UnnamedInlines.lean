import Catapult.Catparser.AstValidator
import Catapult.Lib.Fuel

/-!
# Expansion of unnamed inlines

The structures are expanded one after another, in place. A round replaces every placeholder of a structure by the
fields that the inlined structure has at this time, which can be placeholders again; there are rounds until there is
no placeholder.
-/

namespace Catapult.Catparser

abbrev Expansion := ExceptT AstError Option

def inlinedTypenames (members : List (StructMember ArrayAttributes)) : List String :=
  members.filterMap fun
    | .field _ => none
    | .inlinePlaceholder inlinedTypename => some inlinedTypename

def hasUnnamedInlineField (model : Struct ArrayAttributes) : Bool := inlinedTypenames model.fields ≠ []

/-- An abstract structure is a factory; otherwise its own factory type is taken over, if there is one. -/
def factoryContribution (referenced : Struct ArrayAttributes) : Option String :=
  if referenced.disposition = some .abstract then some referenced.name
  else if referenced.factoryType.getD "" ≠ "" then referenced.factoryType
  else none

def extendAttributes (attributes : Option (List Attribute)) (inherited : List Attribute) : Option (List Attribute) :=
  if inherited = [] then attributes else some (attributes.getD [] ++ inherited)

def inlineStruct (model referenced : Struct ArrayAttributes) : Struct ArrayAttributes where
  name := model.name
  disposition := model.disposition
  factoryType := (factoryContribution referenced).or model.factoryType
  fields := model.fields ++ referenced.fields
  attributes := extendAttributes model.attributes (referenced.attributes.getD [])

section Expand
variable (models : Models)

/-- The model that is expanded has the fields that it got so far. -/
def lookupModel (model : Struct ArrayAttributes) (typename : String) : Option (TypeDescriptor ArrayAttributes) :=
  if typename = model.name then some (.struct model) else models typename

def expandMember (model : Struct ArrayAttributes) :
    StructMember ArrayAttributes → Except AstError (Struct ArrayAttributes)
  | .field field => return { model with fields := model.fields ++ [.field field] }
  | .inlinePlaceholder inlinedTypename =>
    match lookupModel models model inlinedTypename with
    | none => throw (.ast s!"struct {model.name} contains unnamed inline of unknown type {inlinedTypename}")
    | some (.struct referenced) => return inlineStruct model referenced
    | some _ => throw (.attribute "disposition")

def expandRound (model : Struct ArrayAttributes) : Except AstError (Struct ArrayAttributes) :=
  model.fields.foldlM (expandMember models) { model with fields := [] }

def expandStruct : Nat → Struct ArrayAttributes → Expansion (Struct ArrayAttributes)
  | 0, _ => ExceptT.mk none
  | fuel + 1, model =>
    if hasUnnamedInlineField model then
      match expandRound models model with
      | .ok model => expandStruct fuel model
      | .error e => throw e
    else return model

end Expand

def structsWithUnnamedInlines (typeDescriptors : List (TypeDescriptor ArrayAttributes)) : List String :=
  (modelNames typeDescriptors).filter fun name =>
    match typeDescriptorMap typeDescriptors name with
    | some (.struct model) => hasUnnamedInlineField model
    | _ => false

def expandStructs (fuel : Nat) : List String → Models → Expansion Models
  | [], models => return models
  | name :: names, models =>
    match models name with
    | some (.struct model) => do
      let model ← expandStruct models fuel model
      expandStructs fuel names (Function.update models name (some (.struct model)))
    | _ => expandStructs fuel names models

def expandUnnamedInlines (fuel : Nat) (typeDescriptors : List (TypeDescriptor ArrayAttributes)) : Expansion Models :=
  expandStructs fuel (structsWithUnnamedInlines typeDescriptors) (typeDescriptorMap typeDescriptors)

/-- The structure `a` has a placeholder of `b`. -/
def Inlines (models : Models) (a b : String) : Prop :=
  ∃ model, models a = some (.struct model) ∧ b ∈ inlinedTypenames model.fields

def IsStruct (models : Models) (name : String) : Prop := ∃ model, models name = some (.struct model)

def InlinesStructs (models : Models) : Prop := ∀ a b, Inlines models a b → IsStruct models b

section Rounds
variable {models : Models} {model model' : Struct ArrayAttributes} {members : List (StructMember ArrayAttributes)}
  {name : String} {fuel : Nat}

@[simp] theorem inlinedTypenames_append (members members' : List (StructMember ArrayAttributes)) :
    inlinedTypenames (members ++ members') = inlinedTypenames members ++ inlinedTypenames members' :=
  List.filterMap_append

theorem inlinedTypenames_cons_field (field : StructField ArrayAttributes) :
    inlinedTypenames (.field field :: members) = inlinedTypenames members := rfl

theorem inlinedTypenames_cons_placeholder (inlinedTypename : String) :
    inlinedTypenames (.inlinePlaceholder inlinedTypename :: members) = inlinedTypename :: inlinedTypenames members :=
  rfl

theorem hasUnnamedInlineField_eq_false : hasUnnamedInlineField model = false ↔ inlinedTypenames model.fields = [] := by
  rw [hasUnnamedInlineField, decide_eq_false_iff_not, not_not]

/-- A placeholder brings in those of the structure that it stands for. -/
structure Extends (models : Models) (model model' : Struct ArrayAttributes) (inlined : List String) : Prop where
  name_eq : model'.name = model.name
  /-- A new placeholder comes from the structure of another one. -/
  of_mem : ∀ t ∈ inlinedTypenames model'.fields,
    t ∈ inlinedTypenames model.fields ∨ ∃ s ∈ inlined, s ≠ model.name ∧ Inlines models s t
  mem_of_mem : ∀ t ∈ inlinedTypenames model.fields, t ∈ inlinedTypenames model'.fields
  mem_of_inlines : ∀ s ∈ inlined, s ≠ model.name → ∀ t, Inlines models s t → t ∈ inlinedTypenames model'.fields
  isStruct : ∀ s ∈ inlined, s ≠ model.name → IsStruct models s

namespace Extends
variable {model'' : Struct ArrayAttributes} {inlined inlined' : List String}

theorem refl (model : Struct ArrayAttributes) : Extends models model model [] :=
  ⟨rfl, fun _ ht => .inl ht, fun _ ht => ht, fun _ hs => (nomatch hs), fun _ hs => (nomatch hs)⟩

theorem trans (h : Extends models model model' inlined) (h' : Extends models model' model'' inlined') :
    Extends models model model'' (inlined ++ inlined') := by
  have hname := h.name_eq
  refine ⟨h'.name_eq.trans hname, fun t ht => ?_, fun t ht => h'.mem_of_mem t (h.mem_of_mem t ht),
    fun s hs hne t ht => ?_, fun s hs hne => ?_⟩
  · rcases h'.of_mem t ht with ht | ⟨s, hs, hne, hst⟩
    · rcases h.of_mem t ht with ht | ⟨s, hs, hne, hst⟩
      · exact .inl ht
      · exact .inr ⟨s, List.mem_append_left _ hs, hne, hst⟩
    · exact .inr ⟨s, List.mem_append_right _ hs, hname ▸ hne, hst⟩
  · rcases List.mem_append.1 hs with hs | hs
    · exact h'.mem_of_mem t (h.mem_of_inlines s hs hne t ht)
    · exact h'.mem_of_inlines s hs (hname ▸ hne) t ht
  · rcases List.mem_append.1 hs with hs | hs
    · exact h.isStruct s hs hne
    · exact h'.isStruct s hs (hname ▸ hne)

end Extends

theorem extends_of_expandMember {member : StructMember ArrayAttributes}
    (h : expandMember models model member = .ok model') :
    Extends models model model' (inlinedTypenames [member]) := by
  cases member with
  | field field =>
    cases h
    refine ⟨rfl, fun t ht => .inl ?_, fun t ht => ?_, fun _ hs => (nomatch hs), fun _ hs => (nomatch hs)⟩
    · simpa [inlinedTypenames] using ht
    · simpa [inlinedTypenames] using ht
  | inlinePlaceholder inlinedTypename =>
    rw [expandMember, lookupModel] at h
    by_cases hself : inlinedTypename = model.name
    · rw [if_pos hself] at h
      cases h
      -- the fields so far come a second time
      have hsingle : ∀ s ∈ inlinedTypenames [.inlinePlaceholder inlinedTypename], s = model.name := by
        intro s hs
        rw [List.mem_singleton.1 hs, hself]
      refine ⟨rfl, fun t ht => .inl ?_, fun t ht => ?_, fun s hs hne => absurd (hsingle s hs) hne,
        fun s hs hne => absurd (hsingle s hs) hne⟩
      · simpa [inlineStruct] using ht
      · simp [inlineStruct, ht]
    · rw [if_neg hself] at h
      split at h
      · cases h
      · case h_2 referenced hreferenced =>
        cases h
        refine ⟨rfl, fun t ht => ?_, fun t ht => ?_, fun s hs _ t ht => ?_, fun s hs _ => ?_⟩
        · rcases List.mem_append.1 (inlinedTypenames_append _ _ ▸ ht) with ht | ht
          · exact .inl ht
          · exact .inr ⟨inlinedTypename, List.mem_singleton_self _, hself, referenced, hreferenced, ht⟩
        · simp [inlineStruct, ht]
        · obtain ⟨other, hother, ht⟩ := ht
          rw [List.mem_singleton.1 hs, hreferenced] at hother
          cases hother
          simp [inlineStruct, ht]
        · rw [List.mem_singleton.1 hs]
          exact ⟨referenced, hreferenced⟩
      · cases h

theorem extends_of_foldlM (h : members.foldlM (expandMember models) model = .ok model') :
    Extends models model model' (inlinedTypenames members) := by
  induction members generalizing model with
  | nil =>
    cases h
    exact .refl _
  | cons member members ih =>
    rw [List.foldlM_cons] at h
    cases hmember : expandMember models model member with
    | error e =>
      rw [hmember] at h
      cases h
    | ok next =>
      rw [hmember] at h
      have hsplit := inlinedTypenames_append [member] members
      rw [List.singleton_append] at hsplit
      rw [hsplit]
      exact (extends_of_expandMember hmember).trans (ih h)

theorem extends_of_expandRound (h : expandRound models model = .ok model') :
    model'.name = model.name ∧
    (∀ t ∈ inlinedTypenames model'.fields, ∃ s ∈ inlinedTypenames model.fields, s ≠ model.name ∧ Inlines models s t) ∧
    (∀ s ∈ inlinedTypenames model.fields, s ≠ model.name → ∀ t, Inlines models s t →
      t ∈ inlinedTypenames model'.fields) ∧
    ∀ s ∈ inlinedTypenames model.fields, s ≠ model.name → IsStruct models s := by
  have hextends := extends_of_foldlM h
  refine ⟨hextends.name_eq, fun t ht => ?_, hextends.mem_of_inlines, hextends.isStruct⟩
  exact (hextends.of_mem t ht).resolve_left fun hmem => nomatch hmem

theorem exists_expandMember {member : StructMember ArrayAttributes}
    (h : ∀ s ∈ inlinedTypenames [member], s ≠ model.name → IsStruct models s) :
    ∃ model', expandMember models model member = .ok model' := by
  cases member with
  | field field => exact ⟨_, rfl⟩
  | inlinePlaceholder inlinedTypename =>
    rw [expandMember, lookupModel]
    by_cases hself : inlinedTypename = model.name
    · rw [if_pos hself]
      exact ⟨_, rfl⟩
    · obtain ⟨referenced, hreferenced⟩ := h inlinedTypename (List.mem_singleton_self _) hself
      rw [if_neg hself, hreferenced]
      exact ⟨_, rfl⟩

theorem exists_foldlM (h : ∀ s ∈ inlinedTypenames members, s ≠ model.name → IsStruct models s) :
    ∃ model', members.foldlM (expandMember models) model = .ok model' := by
  induction members generalizing model with
  | nil => exact ⟨model, rfl⟩
  | cons member members ih =>
    have hsplit := inlinedTypenames_append [member] members
    rw [List.singleton_append] at hsplit
    rw [hsplit] at h
    obtain ⟨next, hnext⟩ := exists_expandMember fun s hs => h s (List.mem_append_left _ hs)
    have hname := (extends_of_expandMember hnext).name_eq
    obtain ⟨model', hmodel'⟩ := @ih next fun s hs hne => h s (List.mem_append_right _ hs) (hname ▸ hne)
    exact ⟨model', by rw [List.foldlM_cons, hnext]; exact hmodel'⟩

theorem exists_expandRound (h : ∀ s ∈ inlinedTypenames model.fields, s ≠ model.name → IsStruct models s) :
    ∃ model', expandRound models model = .ok model' := exists_foldlM h

end Rounds

end Catapult.Catparser
