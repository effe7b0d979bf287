import Catapult.Catparser.Flattening

/-!
# When the order of the declarations makes no difference

The fields of a structure are those of its flattening in every order. Attributes and factory types that a placeholder
brings in a later round, because its structure was not expanded yet, come too late: attributes go behind those of the
other placeholders, and the factory type takes the place of one that is closer.
-/

namespace Catapult.Catparser
open Relation

section Definitions
variable (typeDescriptors : List (TypeDescriptor ArrayAttributes))

/-- There is one declaration of a name, which can be repeated. -/
def Unambiguous : Prop := ∀ a ∈ typeDescriptors, ∀ b ∈ typeDescriptors, a.name = b.name → a = b

structure Unordered : Prop where
  unambiguous : Unambiguous typeDescriptors
  inlinesStructs : InlinesStructs (typeDescriptorMap typeDescriptors)
  /-- Behind a placeholder of a structure that inherits attributes there are none. -/
  attributes : ∀ name, (placeholders (typeDescriptorMap typeDescriptors) name).Pairwise fun s t =>
    inheritedAttributes (flattened typeDescriptors) (placeholders (typeDescriptorMap typeDescriptors) s) = [] ∨
      (flattened typeDescriptors t).attributes.getD [] = []
  /-- An inlined structure does not inherit another factory type than the one that inlines it. -/
  factoryType : ∀ name, ∀ t ∈ placeholders (typeDescriptorMap typeDescriptors) name,
    inheritedFactoryType (flattened typeDescriptors) (placeholders (typeDescriptorMap typeDescriptors) t) = none ∨
      inheritedFactoryType (flattened typeDescriptors) (placeholders (typeDescriptorMap typeDescriptors) t) =
        inheritedFactoryType (flattened typeDescriptors) (placeholders (typeDescriptorMap typeDescriptors) name)

def Flattens (permuted : List (TypeDescriptor ArrayAttributes)) : Prop :=
  ∃ models', Ends (fun fuel => (expandUnnamedInlines fuel permuted).run) (.ok models') ∧
    ∀ name, IsStruct (typeDescriptorMap typeDescriptors) name →
      models' name = some (.struct (flattened typeDescriptors name))

def OrderIndependent : Prop := ∀ permuted, permuted.Perm typeDescriptors → Flattens typeDescriptors permuted

/-- Names are neither empty nor used twice, and no attribute is inherited twice. -/
structure Distinct : Prop where
  nodup : (typeDescriptors.map TypeDescriptor.name).Nodup
  ne_empty : ∀ model ∈ typeDescriptors, model.name ≠ ""
  attributes : ∀ name, ((flattened typeDescriptors name).attributes.getD []).Nodup

end Definitions

section Perm
variable {typeDescriptors permuted : List (TypeDescriptor ArrayAttributes)} {name : String}

theorem unambiguous_of_nodup (hnodup : (typeDescriptors.map TypeDescriptor.name).Nodup) :
    Unambiguous typeDescriptors := fun _ ha _ hb heq => List.inj_on_of_nodup_map hnodup ha hb heq

theorem Unambiguous.of_perm (h : Unambiguous typeDescriptors) (hperm : permuted.Perm typeDescriptors) :
    Unambiguous permuted := fun a ha b hb => h a (hperm.mem_iff.1 ha) b (hperm.mem_iff.1 hb)

theorem typeDescriptorMap_eq_some_iff (h : Unambiguous typeDescriptors)
    {model : TypeDescriptor ArrayAttributes} :
    typeDescriptorMap typeDescriptors name = some model ↔ model ∈ typeDescriptors ∧ model.name = name := by
  constructor
  · intro hfind
    exact ⟨List.mem_reverse.1 (List.mem_of_find?_eq_some hfind), name_of_typeDescriptorMap hfind⟩
  · rintro ⟨hmem, rfl⟩
    cases hfind : typeDescriptorMap typeDescriptors model.name with
    | none =>
      rw [typeDescriptorMap, List.find?_eq_none] at hfind
      exact absurd (decide_eq_true rfl) (hfind model (List.mem_reverse.2 hmem))
    | some other =>
      have hother := List.mem_reverse.1 (List.mem_of_find?_eq_some hfind)
      rw [h other hother model hmem (name_of_typeDescriptorMap hfind)]

theorem typeDescriptorMap_of_perm (hperm : permuted.Perm typeDescriptors)
    (h : Unambiguous typeDescriptors) :
    typeDescriptorMap permuted = typeDescriptorMap typeDescriptors := by
  funext name
  refine Option.ext fun model => ?_
  rw [typeDescriptorMap_eq_some_iff h, typeDescriptorMap_eq_some_iff (h.of_perm hperm), hperm.mem_iff]

theorem flattened_of_perm (hperm : permuted.Perm typeDescriptors)
    (h : Unambiguous typeDescriptors) : flattened permuted = flattened typeDescriptors := by
  funext name
  rw [flattened, flattened, typeDescriptorMap_of_perm hperm h, hperm.length_eq]

theorem Unordered.of_perm (h : Unordered typeDescriptors) (hperm : permuted.Perm typeDescriptors) :
    Unordered permuted := by
  refine ⟨h.unambiguous.of_perm hperm, ?_, ?_, ?_⟩
  · rw [typeDescriptorMap_of_perm hperm h.unambiguous]
    exact h.inlinesStructs
  · rw [typeDescriptorMap_of_perm hperm h.unambiguous, flattened_of_perm hperm h.unambiguous]
    exact h.attributes
  · rw [typeDescriptorMap_of_perm hperm h.unambiguous, flattened_of_perm hperm h.unambiguous]
    exact h.factoryType

theorem exists_perm_of_names (hnodup : (typeDescriptors.map TypeDescriptor.name).Nodup) {names : List String}
    (hnames : names.Perm (typeDescriptors.map TypeDescriptor.name)) :
    ∃ permuted, permuted.Perm typeDescriptors ∧ modelNames permuted = names := by
  have hself : (typeDescriptors.map TypeDescriptor.name).filterMap (typeDescriptorMap typeDescriptors) =
      typeDescriptors := by
    rw [List.filterMap_map]
    refine (List.filterMap_congr fun model hmem => ?_).trans List.filterMap_some
    exact (typeDescriptorMap_eq_some_iff (unambiguous_of_nodup hnodup)).2 ⟨hmem, rfl⟩
  have hmap : ∀ l : List String, (∀ name ∈ l, name ∈ typeDescriptors.map TypeDescriptor.name) →
      (l.filterMap (typeDescriptorMap typeDescriptors)).map TypeDescriptor.name = l := by
    intro l hl
    rw [List.map_filterMap]
    refine (List.filterMap_congr fun name hmem => ?_).trans List.filterMap_some
    obtain ⟨model, hmodel, rfl⟩ := List.mem_map.1 (hl name hmem)
    rw [(typeDescriptorMap_eq_some_iff (unambiguous_of_nodup hnodup)).2 ⟨hmodel, rfl⟩]
    rfl
  have hperm := hnames.filterMap (typeDescriptorMap typeDescriptors)
  rw [hself] at hperm
  refine ⟨_, hperm, ?_⟩
  rw [modelNames, hmap names fun name hmem => hnames.mem_iff.1 hmem,
    (List.nodup_reverse.2 (hnames.nodup_iff.2 hnodup)).dedup, List.reverse_reverse]

end Perm

/-! ## Rounds -/

section Rounds
variable {models : Models} {model model' next : Struct ArrayAttributes} {fuel : Nat}
  {flat current : String → Struct ArrayAttributes} {names : List String}

theorem exists_run_of_expandRound (hok : (expandStruct models fuel model).run = some (.ok model'))
    (hfield : inlinedTypenames model.fields ≠ []) (hround : expandRound models model = .ok next) :
    ∃ fuel', (expandStruct models fuel' next).run = some (.ok model') := by
  cases fuel with
  | zero => cases hok
  | succ fuel =>
    rw [run_expandStruct_ok hround (decide_eq_true hfield)] at hok
    exact ⟨fuel, hok⟩

theorem eq_of_expandStruct_of_eq_nil (hok : (expandStruct models fuel model).run = some (.ok model'))
    (hfield : inlinedTypenames model.fields = []) : model' = model := by
  cases fuel with
  | zero => cases hok
  | succ fuel =>
    rw [run_expandStruct_of_eq_nil (hasUnnamedInlineField_eq_false.2 hfield)] at hok
    cases hok
    rfl

theorem inheritedAttributes_eq_nil :
    inheritedAttributes flat names = [] ↔ ∀ t ∈ names, (flat t).attributes.getD [] = [] := List.flatMap_eq_nil_iff

theorem inheritedFactoryType_flatMap (f : String → List String) :
    inheritedFactoryType flat (names.flatMap f) = lastSome (names.map fun t => inheritedFactoryType flat (f t)) := by
  rw [inheritedFactoryType, List.map_flatMap, lastSome_flatMap]
  rfl

def nextPlaceholders (current : String → Struct ArrayAttributes) (names : List String) : List String :=
  names.flatMap fun t => inlinedTypenames (current t).fields

theorem inlinedTypenames_inlineFields : inlinedTypenames (inlineFields current model).fields =
    nextPlaceholders current (inlinedTypenames model.fields) := by
  rw [inlineFields_eq]
  exact inlinedTypenames_flatMap

theorem attributes_of_inlineFields_eq {t : String} (h : inlineFields flat (current t) = flat t) :
    (flat t).attributes.getD [] = (current t).attributes.getD [] ++
      inheritedAttributes flat (inlinedTypenames (current t).fields) := by
  rw [← h, inlineFields_eq, getD_extendAttributes]

theorem factoryType_of_inlineFields_eq {t : String} (h : inlineFields flat (current t) = flat t) :
    (flat t).factoryType = (inheritedFactoryType flat (inlinedTypenames (current t).fields)).or
      (current t).factoryType := by
  rw [← h, inlineFields_eq]

theorem factoryContribution_of_inlineFields_eq {t : String} (h : inlineFields flat (current t) = flat t)
    (hnone : inheritedFactoryType flat (inlinedTypenames (current t).fields) = none) :
    factoryContribution (flat t) = factoryContribution (current t) := by
  have hfactory := factoryType_of_inlineFields_eq h
  rw [hnone, Option.none_or] at hfactory
  have hname : (flat t).name = (current t).name := by rw [← h, inlineFields_eq]
  have hdisposition : (flat t).disposition = (current t).disposition := by rw [← h, inlineFields_eq]
  rw [factoryContribution, factoryContribution, hname, hdisposition, hfactory]

theorem inheritedAttributes_round (hflat : ∀ t ∈ names, inlineFields flat (current t) = flat t)
    (hattributes : names.Pairwise fun s t => inheritedAttributes flat (inlinedTypenames (current s).fields) = [] ∨
      (flat t).attributes.getD [] = []) :
    inheritedAttributes current names ++ inheritedAttributes flat (nextPlaceholders current names) =
      inheritedAttributes flat names := by
  induction names with
  | nil => rfl
  | cons s names ih =>
    obtain ⟨hs, hnames⟩ := List.forall_mem_cons.1 hflat
    obtain ⟨hpairs, hattributes⟩ := List.pairwise_cons.1 hattributes
    have hrest := ih hnames hattributes
    simp only [inheritedAttributes, nextPlaceholders, List.flatMap_cons, List.flatMap_append] at hrest ⊢
    rw [attributes_of_inlineFields_eq hs, ← hrest]
    by_cases hnil : inheritedAttributes flat (inlinedTypenames (current s).fields) = []
    · simp only [inheritedAttributes] at hnil
      simp [inheritedAttributes, hnil]
    · -- nothing comes behind
      have hcurrent : names.flatMap (fun t => (current t).attributes.getD []) = [] := by
        refine List.flatMap_eq_nil_iff.2 fun t ht => ?_
        have hall := (hpairs t ht).resolve_left hnil
        rw [attributes_of_inlineFields_eq (hnames t ht)] at hall
        exact (List.append_eq_nil_iff.1 hall).1
      simp [inheritedAttributes, hcurrent]

theorem inheritedFactoryType_round {factoryType own : Option String}
    (hflat : ∀ t ∈ names, inlineFields flat (current t) = flat t)
    (hfactory : (inheritedFactoryType flat names).or own = factoryType)
    (hlate : ∀ t ∈ names, inheritedFactoryType flat (inlinedTypenames (current t).fields) = none ∨
      inheritedFactoryType flat (inlinedTypenames (current t).fields) = factoryType) :
    (inheritedFactoryType flat (nextPlaceholders current names)).or
      ((inheritedFactoryType current names).or own) = factoryType := by
  rw [nextPlaceholders, inheritedFactoryType_flatMap]
  cases hlast : lastSome (names.map fun t => inheritedFactoryType flat (inlinedTypenames (current t).fields)) with
  | some late =>
    obtain ⟨t, ht, hsome⟩ := List.mem_map.1 (lastSome_mem hlast)
    rcases hlate t ht with hnone | hsame
    · rw [hnone] at hsome
      cases hsome
    · rw [← hsame, hsome, Option.some_or]
  | none =>
    -- nothing comes late
    have hcongr : inheritedFactoryType current names = inheritedFactoryType flat names := by
      refine congrArg lastSome (List.map_congr_left fun t ht => ?_)
      exact (factoryContribution_of_inlineFields_eq (hflat t ht)
        (lastSome_eq_none.1 hlast _ (List.mem_map_of_mem ht))).symm
    rw [Option.none_or, hcongr, hfactory]

theorem inlineFields_round (hflat : ∀ t ∈ inlinedTypenames model.fields, inlineFields flat (current t) = flat t)
    (hattributes : (inlinedTypenames model.fields).Pairwise fun s t =>
      inheritedAttributes flat (inlinedTypenames (current s).fields) = [] ∨ (flat t).attributes.getD [] = [])
    (hlate : ∀ t ∈ inlinedTypenames model.fields,
      inheritedFactoryType flat (inlinedTypenames (current t).fields) = none ∨
        inheritedFactoryType flat (inlinedTypenames (current t).fields) = (inlineFields flat model).factoryType) :
    inlineFields flat (inlineFields current model) = inlineFields flat model := by
  rw [inlineFields_eq flat (inlineFields current model)]
  rw [inlineFields_eq flat model] at hlate ⊢
  simp only [inlineFields_eq current model, inlinedTypenames_flatMap, extendAttributes_extendAttributes]
  have hfields := flatMap_memberFields_flatMap fun t ht => by
    have ht := congrArg Struct.fields (hflat t ht)
    rwa [inlineFields_eq] at ht
  have hfactory := inheritedFactoryType_round hflat rfl hlate
  have hround := inheritedAttributes_round hflat hattributes
  rw [nextPlaceholders] at hfactory hround
  rw [hfields, hfactory, hround]

end Rounds

/-! ## Runs of lists without differences -/

def currentStruct (models : Models) (name : String) : Struct ArrayAttributes :=
  match models name with
  | some (.struct model) => model
  | _ => ⟨name, none, [], none, none⟩

section Runs
variable {typeDescriptors : List (TypeDescriptor ArrayAttributes)} {models models' : Models}
  {done names : List String} {model model' : Struct ArrayAttributes} {name t : String} {fuel : Nat}

theorem placeholders_flattened : inlinedTypenames (flattened typeDescriptors name).fields = [] := by
  rw [flattened]
  induction typeDescriptors.length + 1 generalizing name with
  | zero => rfl
  | succ depth ih =>
    rw [flatten]
    split
    · case h_1 model hmodel =>
      rw [inlineFields_eq]
      exact inlinedTypenames_flatMap.trans (List.flatMap_eq_nil_iff.2 fun t _ => ih)
    · rfl

theorem currentStruct_of_eq (h : models name = some (.struct model)) : currentStruct models name = model := by
  rw [currentStruct, h]

/-- The structures with the names in `done` are flat, the other models are as they were. -/
structure Flat (typeDescriptors : List (TypeDescriptor ArrayAttributes)) (done : List String) (models : Models) :
    Prop where
  flat : ∀ name ∈ done, models name = some (.struct (flattened typeDescriptors name))
  kept : ∀ name, name ∉ done → models name = typeDescriptorMap typeDescriptors name

namespace Flat
variable (h : Flat typeDescriptors done models)
include h

theorem progress : Progress typeDescriptors done models :=
  ⟨fun name hname => ⟨_, h.flat name hname, hasUnnamedInlineField_eq_false.2 placeholders_flattened⟩, h.kept⟩

theorem eq_currentStruct (ht : IsStruct (typeDescriptorMap typeDescriptors) t) :
    models t = some (.struct (currentStruct models t)) := by
  obtain ⟨model, hmodel⟩ := h.progress.isStruct ht
  rw [currentStruct_of_eq hmodel, hmodel]

theorem inlineFields_currentStruct (hacyclic : Acyclic (typeDescriptorMap typeDescriptors))
    (ht : IsStruct (typeDescriptorMap typeDescriptors) t) :
    inlineFields (flattened typeDescriptors) (currentStruct models t) = flattened typeDescriptors t := by
  by_cases hdone : t ∈ done
  · rw [currentStruct_of_eq (h.flat t hdone), inlineFields_of_eq_nil placeholders_flattened]
  · obtain ⟨model, hmodel⟩ := ht
    rw [currentStruct_of_eq ((h.kept t hdone).trans hmodel), flattened_eq hacyclic hmodel]

theorem placeholders_currentStruct (t : String) : inlinedTypenames (currentStruct models t).fields = [] ∨
    inlinedTypenames (currentStruct models t).fields = placeholders (typeDescriptorMap typeDescriptors) t := by
  by_cases hdone : t ∈ done
  · rw [currentStruct_of_eq (h.flat t hdone)]
    exact .inl placeholders_flattened
  · right
    rw [currentStruct, placeholders, h.kept t hdone]
    cases typeDescriptorMap typeDescriptors t with
    | none => rfl
    | some descriptor => cases descriptor <;> rfl

theorem mem_placeholders_of_mem {u : String} (hu : u ∈ inlinedTypenames (currentStruct models t).fields) :
    u ∈ placeholders (typeDescriptorMap typeDescriptors) t := by
  rcases h.placeholders_currentStruct t with hnil | hsame
  · rw [hnil] at hu
    cases hu
  · rwa [hsame] at hu

theorem update : Flat typeDescriptors (done ++ [name])
    (Function.update models name (some (.struct (flattened typeDescriptors name)))) := by
  constructor
  · intro other hother
    by_cases heq : other = name
    · rw [heq, Function.update_self]
    · rw [Function.update_of_ne heq]
      exact h.flat other ((List.mem_append.1 hother).resolve_right fun hmem => heq (List.mem_singleton.1 hmem))
  · intro other hother
    rw [List.mem_append, List.mem_singleton, not_or] at hother
    rw [Function.update_of_ne hother.2, h.kept other hother.1]

end Flat

/-- A structure between two rounds, which will be flat. -/
structure Expanding (typeDescriptors : List (TypeDescriptor ArrayAttributes)) (name : String)
    (model : Struct ArrayAttributes) : Prop where
  name_eq : model.name = name
  inlineFields_eq : inlineFields (flattened typeDescriptors) model = flattened typeDescriptors name
  transGen : ∀ t ∈ inlinedTypenames model.fields, TransGen (Inlines (typeDescriptorMap typeDescriptors)) name t
  attributes : (inlinedTypenames model.fields).Pairwise fun s t =>
    inheritedAttributes (flattened typeDescriptors) (placeholders (typeDescriptorMap typeDescriptors) s) = [] ∨
      (flattened typeDescriptors t).attributes.getD [] = []
  factoryType : ∀ t ∈ inlinedTypenames model.fields,
    inheritedFactoryType (flattened typeDescriptors) (placeholders (typeDescriptorMap typeDescriptors) t) = none ∨
      inheritedFactoryType (flattened typeDescriptors) (placeholders (typeDescriptorMap typeDescriptors) t) =
        (flattened typeDescriptors name).factoryType

theorem placeholders_of_not_isStruct (h : ¬IsStruct models name) : placeholders models name = [] := by
  rw [List.eq_nil_iff_forall_not_mem]
  intro t ht
  obtain ⟨model, hmodel, -⟩ := mem_placeholders.1 ht
  exact h ⟨model, hmodel⟩

theorem factoryType_of_inheritedFactoryType (hacyclic : Acyclic (typeDescriptorMap typeDescriptors)) {v : String}
    (h : inheritedFactoryType (flattened typeDescriptors) (placeholders (typeDescriptorMap typeDescriptors) name) =
      some v) : (flattened typeDescriptors name).factoryType = some v := by
  by_cases hstruct : IsStruct (typeDescriptorMap typeDescriptors) name
  · obtain ⟨model, hmodel⟩ := hstruct
    rw [placeholders_of_eq hmodel] at h
    rw [flattened_eq hacyclic hmodel, inlineFields_eq, h, Option.some_or]
  · rw [placeholders_of_not_isStruct hstruct] at h
    cases h

theorem inheritedAttributes_eq_nil_of_flattened (hacyclic : Acyclic (typeDescriptorMap typeDescriptors))
    (h : (flattened typeDescriptors name).attributes.getD [] = []) :
    inheritedAttributes (flattened typeDescriptors) (placeholders (typeDescriptorMap typeDescriptors) name) = [] := by
  by_cases hstruct : IsStruct (typeDescriptorMap typeDescriptors) name
  · obtain ⟨model, hmodel⟩ := hstruct
    rw [flattened_eq hacyclic hmodel, inlineFields_eq, getD_extendAttributes] at h
    rw [placeholders_of_eq hmodel]
    exact (List.append_eq_nil_iff.1 h).2
  · rw [placeholders_of_not_isStruct hstruct]
    rfl

theorem Unordered.expanding (h : Unordered typeDescriptors) (hacyclic : Acyclic (typeDescriptorMap typeDescriptors))
    (hmodel : typeDescriptorMap typeDescriptors name = some (.struct model)) :
    Expanding typeDescriptors name model := by
  have hplaceholders := placeholders_of_eq hmodel
  refine ⟨name_of_typeDescriptorMap hmodel, (flattened_eq hacyclic hmodel).symm, fun t ht => ?_, ?_, fun t ht => ?_⟩
  · exact .single ⟨model, hmodel, ht⟩
  · rw [← hplaceholders]
    exact h.attributes name
  · rcases h.factoryType name t (hplaceholders ▸ ht) with hnone | hsame
    · exact .inl hnone
    · cases hinherited : inheritedFactoryType (flattened typeDescriptors)
          (placeholders (typeDescriptorMap typeDescriptors) name) with
      | none => exact .inl (hsame.trans hinherited)
      | some v =>
        rw [factoryType_of_inheritedFactoryType hacyclic hinherited]
        exact .inr (hsame.trans hinherited)

namespace Expanding
variable (h : Expanding typeDescriptors name model) (hunordered : Unordered typeDescriptors)
  (hacyclic : Acyclic (typeDescriptorMap typeDescriptors)) (hflat : Flat typeDescriptors done models)
include h hunordered

theorem isStruct (ht : t ∈ inlinedTypenames model.fields) : IsStruct (typeDescriptorMap typeDescriptors) t := by
  obtain ⟨s, -, hst⟩ := TransGen.tail'_iff.1 (h.transGen t ht)
  exact hunordered.inlinesStructs s t hst

include hacyclic hflat

theorem expandRound_eq :
    expandRound models model = .ok (inlineFields (currentStruct models) model) := by
  refine Catparser.expandRound_eq fun t ht => ⟨?_, hflat.eq_currentStruct (h.isStruct hunordered ht)⟩
  rintro rfl
  exact hacyclic _ (h.name_eq ▸ h.transGen _ ht)

theorem round : Expanding typeDescriptors name (inlineFields (currentStruct models) model) := by
  have hcurrent : ∀ t ∈ inlinedTypenames model.fields,
      inlineFields (flattened typeDescriptors) (currentStruct models t) = flattened typeDescriptors t :=
    fun t ht => hflat.inlineFields_currentStruct hacyclic (h.isStruct hunordered ht)
  have hfields : inlinedTypenames (inlineFields (currentStruct models) model).fields =
      (inlinedTypenames model.fields).flatMap fun t => inlinedTypenames (currentStruct models t).fields := by
    rw [Catparser.inlineFields_eq, inlinedTypenames_flatMap]
  have hmem : ∀ u ∈ inlinedTypenames (inlineFields (currentStruct models) model).fields,
      ∃ t ∈ inlinedTypenames model.fields, u ∈ placeholders (typeDescriptorMap typeDescriptors) t := by
    intro u hu
    rw [hfields] at hu
    obtain ⟨t, ht, hu⟩ := List.mem_flatMap.1 hu
    exact ⟨t, ht, hflat.mem_placeholders_of_mem hu⟩
  refine ⟨?_, ?_, fun u hu => ?_, ?_, fun u hu => ?_⟩
  · rw [Catparser.inlineFields_eq, h.name_eq]
  · rw [← h.inlineFields_eq]
    refine inlineFields_round hcurrent (h.attributes.imp fun {s t} hst => ?_) fun t ht => ?_
    · rcases hflat.placeholders_currentStruct s with hnil | hsame
      · rw [hnil]
        exact .inl rfl
      · rwa [hsame]
    · rw [h.inlineFields_eq]
      rcases hflat.placeholders_currentStruct t with hnil | hsame
      · rw [hnil]
        exact .inl rfl
      · rw [hsame]
        exact h.factoryType t ht
  · obtain ⟨t, ht, htu⟩ := hmem u hu
    exact (h.transGen t ht).tail (mem_placeholders.1 htu)
  · rw [hfields, List.pairwise_flatMap]
    constructor
    · intro t ht
      rcases hflat.placeholders_currentStruct t with hnil | hsame
      · rw [hnil]
        exact .nil
      · rw [hsame]
        exact hunordered.attributes t
    · -- what brings in no attributes inlines only structures that bring in none
      refine h.attributes.imp fun {s t} hst u hu v hv => hst.imp (fun hnil => ?_) fun hnil => ?_
      · exact inheritedAttributes_eq_nil_of_flattened hacyclic
          (inheritedAttributes_eq_nil.1 hnil u (hflat.mem_placeholders_of_mem hu))
      · exact inheritedAttributes_eq_nil.1 (inheritedAttributes_eq_nil_of_flattened hacyclic hnil) v
          (hflat.mem_placeholders_of_mem hv)
  · obtain ⟨t, ht, htu⟩ := hmem u hu
    rcases hunordered.factoryType t u htu with hnone | hsame
    · exact .inl hnone
    · rw [hsame]
      exact h.factoryType t ht

theorem eq_flattened (hok : (expandStruct models fuel model).run = some (.ok model')) :
    model' = flattened typeDescriptors name := by
  induction fuel generalizing model with
  | zero => cases hok
  | succ fuel ih =>
    cases hfield : hasUnnamedInlineField model with
    | false =>
      rw [run_expandStruct_of_eq_nil hfield] at hok
      cases hok
      rw [← h.inlineFields_eq, inlineFields_of_eq_nil (hasUnnamedInlineField_eq_false.1 hfield)]
    | true =>
      rw [run_expandStruct_ok (h.expandRound_eq hunordered hacyclic hflat) hfield] at hok
      exact ih (h.round hunordered hacyclic hflat) hok

end Expanding

theorem Flat.of_expandStructs (hunordered : Unordered typeDescriptors)
    (hacyclic : Acyclic (typeDescriptorMap typeDescriptors))
    (hsplit : structsWithUnnamedInlines typeDescriptors = done ++ names) (h : Flat typeDescriptors done models)
    (hok : (expandStructs fuel names models).run = some (.ok models')) :
    Flat typeDescriptors (structsWithUnnamedInlines typeDescriptors) models' := by
  induction names generalizing done models with
  | nil =>
    cases hok
    rw [hsplit, List.append_nil]
    exact h
  | cons first later ih =>
    have hnext : Next typeDescriptors done first later models := ⟨h.progress, hsplit⟩
    obtain ⟨model, hmodel, horiginal, -⟩ := hnext.exists_model
    obtain ⟨model', hstruct, hrest⟩ := exists_of_expandStructs_cons_eq_ok hmodel hok
    rw [(hunordered.expanding hacyclic horiginal).eq_flattened hunordered hacyclic h hstruct] at hrest
    exact ih (by rw [hsplit, List.append_assoc]; rfl) h.update hrest

theorem Acyclic.grounded (h : Acyclic (typeDescriptorMap typeDescriptors)) : Grounded typeDescriptors :=
  fun _ _ _ _ name _ hcycle => h name (hcycle.lift id fun _ _ hstep => hstep.1)

theorem Unordered.flattens (h : Unordered typeDescriptors) (hacyclic : Acyclic (typeDescriptorMap typeDescriptors)) :
    Flattens typeDescriptors typeDescriptors := by
  obtain ⟨models', hends⟩ :=
    exists_ends_expandStructs hacyclic.grounded h.inlinesStructs (List.nil_append _).symm .nil
  refine ⟨models', hends, fun name hstruct => ?_⟩
  obtain ⟨enough, hends⟩ := hends
  have hstart : Flat typeDescriptors [] (typeDescriptorMap typeDescriptors) :=
    ⟨fun _ hname => (nomatch hname), fun _ _ => rfl⟩
  have hflat := hstart.of_expandStructs h hacyclic (List.nil_append _).symm (hends enough (Nat.le_refl _))
  by_cases hmem : name ∈ structsWithUnnamedInlines typeDescriptors
  · exact hflat.flat name hmem
  · -- without placeholders it is flat as it is
    obtain ⟨model, hmodel⟩ := hstruct
    have hnil : inlinedTypenames model.fields = [] := by
      rw [← placeholders_of_eq hmodel, List.eq_nil_iff_forall_not_mem]
      exact fun t ht => hmem (mem_structsWithUnnamedInlines.2 ⟨t, mem_placeholders.1 ht⟩)
    rw [hflat.kept name hmem, flattened_eq hacyclic hmodel, inlineFields_of_eq_nil hnil, hmodel]

theorem Unordered.orderIndependent (h : Unordered typeDescriptors)
    (hacyclic : Acyclic (typeDescriptorMap typeDescriptors)) : OrderIndependent typeDescriptors := by
  intro permuted hperm
  have hmap := typeDescriptorMap_of_perm hperm h.unambiguous
  obtain ⟨models', hends, hflat⟩ := (h.of_perm hperm).flattens (hmap ▸ hacyclic)
  rw [hmap, flattened_of_perm hperm h.unambiguous] at hflat
  exact ⟨models', hends, hflat⟩

end Runs

/-! ## A structure that is expanded last but one

Only the placeholders of the last structure come late.
-/

section Late
variable {typeDescriptors permuted : List (TypeDescriptor ArrayAttributes)} {models : Models}
  {model referenced : Struct ArrayAttributes} {name t : String} {fuel : Nat}

theorem exists_perm_append_pair {α : Type} [DecidableEq α] {l : List α} {a b : α} (ha : a ∈ l) (hb : b ∈ l)
    (hne : b ≠ a) : ∃ l', (l' ++ [a, b]).Perm l := by
  have herase : b ∈ l.erase a := (List.mem_erase_of_ne hne).2 hb
  refine ⟨(l.erase a).erase b, List.perm_append_comm.trans ?_⟩
  exact ((List.perm_cons_erase herase).symm.cons a).trans (List.perm_cons_erase ha).symm

theorem mem_names_of_inlines (h : Inlines (typeDescriptorMap typeDescriptors) name t) :
    name ∈ typeDescriptors.map TypeDescriptor.name := by
  obtain ⟨model, hmodel, -⟩ := h
  have hmem := mem_modelNames_of_typeDescriptorMap hmodel
  rwa [modelNames, List.mem_reverse, List.mem_dedup, List.mem_reverse] at hmem

theorem exists_perm_split (hnodup : (typeDescriptors.map TypeDescriptor.name).Nodup) (hne : t ≠ name) {b c : String}
    (hname : Inlines (typeDescriptorMap typeDescriptors) name b)
    (ht : Inlines (typeDescriptorMap typeDescriptors) t c) :
    ∃ permuted done, permuted.Perm typeDescriptors ∧ structsWithUnnamedInlines permuted = done ++ [name, t] := by
  obtain ⟨names, hpair⟩ := exists_perm_append_pair (mem_names_of_inlines hname) (mem_names_of_inlines ht) hne
  obtain ⟨permuted, hperm, hnames⟩ := exists_perm_of_names hnodup hpair
  obtain ⟨p, hp⟩ : ∃ p, structsWithUnnamedInlines permuted = (modelNames permuted).filter p := ⟨_, rfl⟩
  have hmem : ∀ s u, Inlines (typeDescriptorMap typeDescriptors) s u → p s = true := by
    intro s u hsu
    rw [← typeDescriptorMap_of_perm hperm (unambiguous_of_nodup hnodup)] at hsu
    have hmem := mem_structsWithUnnamedInlines.2 ⟨u, hsu⟩
    rw [hp] at hmem
    exact (List.mem_filter.1 hmem).2
  refine ⟨permuted, names.filter p, hperm, ?_⟩
  rw [hp, hnames, List.filter_append, List.filter_cons_of_pos (hmem _ _ hname),
    List.filter_cons_of_pos (hmem _ _ ht), List.filter_nil]

theorem nextPlaceholders_update {names : List String} :
    nextPlaceholders (Function.update (flattened typeDescriptors) t referenced) names =
      names.flatMap fun s => if s = t then inlinedTypenames referenced.fields else [] := by
  refine List.flatMap_congr fun s _ => ?_
  by_cases hst : s = t
  · rw [if_pos hst, hst, Function.update_self]
  · rw [if_neg hst, Function.update_of_ne hst, placeholders_flattened]

theorem mem_nextPlaceholders_update {names : List String} {u : String} :
    u ∈ nextPlaceholders (Function.update (flattened typeDescriptors) t referenced) names ↔
      t ∈ names ∧ u ∈ inlinedTypenames referenced.fields := by
  rw [nextPlaceholders_update, List.mem_flatMap]
  constructor
  · rintro ⟨s, hs, hu⟩
    split at hu
    · case isTrue hst => exact ⟨hst ▸ hs, hu⟩
    · cases hu
  · rintro ⟨ht, hu⟩
    exact ⟨t, ht, by rwa [if_pos rfl]⟩

theorem OrderIndependent.inlinesStructs (h : OrderIndependent typeDescriptors) :
    InlinesStructs (typeDescriptorMap typeDescriptors) := by
  obtain ⟨models', ⟨enough, hends⟩, -⟩ := h typeDescriptors (.refl _)
  exact inlinesStructs_of_expandUnnamedInlines (hends enough (Nat.le_refl _))

theorem OrderIndependent.flattened_eq (h : OrderIndependent typeDescriptors)
    (hnodup : (typeDescriptors.map TypeDescriptor.name).Nodup)
    (hacyclic : Acyclic (typeDescriptorMap typeDescriptors))
    (hmodel : typeDescriptorMap typeDescriptors name = some (.struct model))
    (hreferenced : typeDescriptorMap typeDescriptors t = some (.struct referenced))
    (ht : t ∈ inlinedTypenames model.fields) (hnext : inlinedTypenames referenced.fields ≠ []) :
    flattened typeDescriptors name = inlineFields (flattened typeDescriptors)
      (inlineFields (Function.update (flattened typeDescriptors) t referenced) model) := by
  obtain ⟨c, hc⟩ := List.exists_mem_of_ne_nil _ hnext
  have hinlines : Inlines (typeDescriptorMap typeDescriptors) name t := ⟨model, hmodel, ht⟩
  have hself : ∀ {s u}, Inlines (typeDescriptorMap typeDescriptors) s u → u ≠ s := by
    rintro s u hsu rfl
    exact hacyclic u (.single hsu)
  obtain ⟨permuted, done, hperm, hsplit⟩ := exists_perm_split hnodup (hself hinlines) hinlines ⟨_, hreferenced, hc⟩
  have hmap := typeDescriptorMap_of_perm hperm (unambiguous_of_nodup hnodup)
  obtain ⟨models', ⟨enough, hends⟩, hflattens⟩ := h permuted hperm
  obtain ⟨current, model₀, model', hturn, hcurrent, hname, hok, hafter⟩ :=
    exists_expandStruct_of_expandUnnamedInlines (hends enough (Nat.le_refl _)) hsplit
  obtain rfl : model₀ = model := by
    rw [hturn.kept name hturn.first_not_mem_done, hmap, hmodel] at hcurrent
    exact (TypeDescriptor.struct.inj (Option.some_inj.1 hcurrent)).symm
  -- the others are as they are in the end
  have hother : ∀ s, IsStruct (typeDescriptorMap typeDescriptors) s → s ≠ name → s ≠ t →
      current s = some (.struct (flattened typeDescriptors s)) := by
    intro s hs hsname hst
    have hsafter := hafter s (List.mem_singleton.not.2 hst)
    rw [Function.update_of_ne hsname] at hsafter
    rw [← hsafter, hflattens s hs]
  have hlast : current t = some (.struct referenced) := by
    rw [hturn.kept t (hturn.not_mem_done (List.mem_singleton_self t)), hmap, hreferenced]
  have hresult : model' = flattened typeDescriptors name := by
    have hmodel' := hafter name (List.mem_singleton.not.2 (hself hinlines).symm)
    rw [Function.update_self, hflattens name ⟨model₀, hmodel⟩] at hmodel'
    exact (TypeDescriptor.struct.inj (Option.some_inj.1 hmodel')).symm
  have hfirst : expandRound current model₀ =
      .ok (inlineFields (Function.update (flattened typeDescriptors) t referenced) model₀) := by
    refine expandRound_eq fun s hs => ?_
    have hns : Inlines (typeDescriptorMap typeDescriptors) name s := ⟨model₀, hmodel, hs⟩
    refine ⟨hname ▸ hself hns, ?_⟩
    by_cases hst : s = t
    · rw [hst, Function.update_self, hlast]
    · rw [Function.update_of_ne hst]
      exact hother s (h.inlinesStructs name s hns) (hself hns) hst
  have hlate : ∀ u, u ∈ inlinedTypenames
      (inlineFields (Function.update (flattened typeDescriptors) t referenced) model₀).fields ↔
        u ∈ inlinedTypenames referenced.fields := by
    intro u
    rw [inlinedTypenames_inlineFields, mem_nextPlaceholders_update]
    exact and_iff_right ht
  have hsecond : expandRound current (inlineFields (Function.update (flattened typeDescriptors) t referenced) model₀) =
      .ok (inlineFields (flattened typeDescriptors)
        (inlineFields (Function.update (flattened typeDescriptors) t referenced) model₀)) := by
    refine expandRound_eq fun u hu => ?_
    have htu : Inlines (typeDescriptorMap typeDescriptors) t u := ⟨referenced, hreferenced, (hlate u).1 hu⟩
    have hne : u ≠ name := by
      rintro rfl
      exact hacyclic u (.tail (.single hinlines) htu)
    rw [inlineFields_eq (Function.update (flattened typeDescriptors) t referenced) model₀, hname]
    exact ⟨hne, hother u (h.inlinesStructs t u htu) hne (hself htu)⟩
  obtain ⟨fuel, hok⟩ := exists_run_of_expandRound hok (List.ne_nil_of_mem ht) hfirst
  obtain ⟨fuel, hok⟩ := exists_run_of_expandRound hok (List.ne_nil_of_mem ((hlate c).2 hc)) hsecond
  rw [← hresult]
  refine eq_of_expandStruct_of_eq_nil hok ?_
  rw [inlinedTypenames_inlineFields]
  exact List.flatMap_eq_nil_iff.2 fun u _ => placeholders_flattened

/-! ### What comes late is no different -/

theorem not_sublist_swap {α : Type} {l : List α} {a b : α} (hnodup : l.Nodup) (h : [a, b].Sublist l) :
    ¬[b, a].Sublist l := by
  induction l with
  | nil => cases h
  | cons c l ih =>
    obtain ⟨hnot, hnodup⟩ := List.nodup_cons.1 hnodup
    intro h'
    cases h with
    | cons _ h =>
      cases h' with
      | cons _ h' => exact ih hnodup h h'
      | cons_cons _ h' => exact hnot (h.subset (List.mem_cons_of_mem _ List.mem_cons_self))
    | cons_cons _ h =>
      cases h' with
      | cons _ h' => exact hnot (h'.subset (List.mem_cons_of_mem _ List.mem_cons_self))
      | cons_cons _ h' => exact hnot (h'.subset List.mem_cons_self)

theorem lastSome_eq_some {α : Type} {l : List (Option α)} {a : α} (hmem : some a ∈ l)
    (h : ∀ b ∈ l, b = none ∨ b = some a) : lastSome l = some a := by
  cases hlast : lastSome l with
  | none => cases lastSome_eq_none.1 hlast _ hmem
  | some b => exact (h _ (lastSome_mem hlast)).resolve_left (Option.some_ne_none b)

theorem ne_empty_of_factoryContribution {v : String} (hname : model.name ≠ "")
    (h : factoryContribution model = some v) : v ≠ "" := by
  rw [factoryContribution] at h
  split at h
  · cases h
    exact hname
  · split at h
    · case isTrue hne =>
      rw [h] at hne
      exact hne
    · cases h

theorem Distinct.flattened_name_ne_empty (h : Distinct typeDescriptors)
    (hstruct : IsStruct (typeDescriptorMap typeDescriptors) name) : (flattened typeDescriptors name).name ≠ "" := by
  obtain ⟨model, hmodel⟩ := hstruct
  rw [flattened, flatten_eq hmodel, inlineFields_eq]
  exact h.ne_empty _ ((typeDescriptorMap_eq_some_iff (unambiguous_of_nodup h.nodup)).1 hmodel).1

section Necessary
variable (h : OrderIndependent typeDescriptors) (hdistinct : Distinct typeDescriptors)
  (hacyclic : Acyclic (typeDescriptorMap typeDescriptors))
include h hdistinct hacyclic

theorem OrderIndependent.inheritedAttributes_eq (hmodel : typeDescriptorMap typeDescriptors name = some (.struct model))
    (hreferenced : typeDescriptorMap typeDescriptors t = some (.struct referenced))
    (ht : t ∈ inlinedTypenames model.fields) (hnext : inlinedTypenames referenced.fields ≠ []) :
    inheritedAttributes (flattened typeDescriptors) (inlinedTypenames model.fields) =
      inheritedAttributes (Function.update (flattened typeDescriptors) t referenced) (inlinedTypenames model.fields) ++
        inheritedAttributes (flattened typeDescriptors) (nextPlaceholders
          (Function.update (flattened typeDescriptors) t referenced) (inlinedTypenames model.fields)) := by
  have heq := h.flattened_eq hdistinct.nodup hacyclic hmodel hreferenced ht hnext
  have hattributes := congrArg (fun model => model.attributes.getD []) heq
  rw [Catparser.flattened_eq hacyclic hmodel] at hattributes
  simp only [inlineFields_eq, inlinedTypenames_flatMap, extendAttributes_extendAttributes,
    getD_extendAttributes] at hattributes
  exact List.append_cancel_left hattributes

theorem OrderIndependent.factoryType_eq (hmodel : typeDescriptorMap typeDescriptors name = some (.struct model))
    (hreferenced : typeDescriptorMap typeDescriptors t = some (.struct referenced))
    (ht : t ∈ inlinedTypenames model.fields) (hnext : inlinedTypenames referenced.fields ≠ []) :
    (flattened typeDescriptors name).factoryType = (inheritedFactoryType (flattened typeDescriptors)
      (nextPlaceholders (Function.update (flattened typeDescriptors) t referenced) (inlinedTypenames model.fields))).or
        ((inheritedFactoryType (Function.update (flattened typeDescriptors) t referenced)
          (inlinedTypenames model.fields)).or model.factoryType) := by
  have heq := h.flattened_eq hdistinct.nodup hacyclic hmodel hreferenced ht hnext
  have hfactory := congrArg Struct.factoryType heq
  rw [inlineFields_eq, inlinedTypenames_inlineFields] at hfactory
  rw [hfactory, inlineFields_eq]

theorem OrderIndependent.attributes (name : String) :
    (placeholders (typeDescriptorMap typeDescriptors) name).Pairwise fun s t =>
      inheritedAttributes (flattened typeDescriptors) (placeholders (typeDescriptorMap typeDescriptors) s) = [] ∨
        (flattened typeDescriptors t).attributes.getD [] = [] := by
  refine List.pairwise_iff_forall_sublist.2 fun {t u} hsub => ?_
  by_contra hboth
  rw [not_or] at hboth
  obtain ⟨x, hx⟩ := List.exists_mem_of_ne_nil _ hboth.1
  obtain ⟨y, hy⟩ := List.exists_mem_of_ne_nil _ hboth.2
  obtain ⟨w, hw, hxw⟩ := List.mem_flatMap.1 hx
  obtain ⟨model, hmodel, ht⟩ := mem_placeholders.1 (hsub.subset List.mem_cons_self)
  obtain ⟨referenced, hreferenced, hnext⟩ := mem_placeholders.1 hw
  rw [placeholders_of_eq hmodel] at hsub
  have hown : x ∈ (flattened typeDescriptors t).attributes.getD [] := by
    rw [Catparser.flattened_eq hacyclic hreferenced, inlineFields_eq, getD_extendAttributes]
    exact List.mem_append_right _ (placeholders_of_eq hreferenced ▸ hx)
  have hnodup : (inheritedAttributes (flattened typeDescriptors) (inlinedTypenames model.fields)).Nodup := by
    have hall := hdistinct.attributes name
    rw [Catparser.flattened_eq hacyclic hmodel, inlineFields_eq, getD_extendAttributes] at hall
    exact (List.nodup_append.1 hall).2.1
  have hbefore : ∀ z ∈ (flattened typeDescriptors u).attributes.getD [],
      [x, z].Sublist (inheritedAttributes (flattened typeDescriptors) (inlinedTypenames model.fields)) := by
    intro z hz
    refine .trans ?_ (hsub.flatMap _)
    rw [List.flatMap_cons, List.flatMap_singleton]
    exact (List.singleton_sublist.2 hown).append (List.singleton_sublist.2 hz)
  by_cases hut : u = t
  · exact absurd rfl (List.pairwise_pair.1 (hnodup.sublist (hbefore x (hut ▸ hown))))
  · -- the attribute of `u` is there before the late one
    refine not_sublist_swap hnodup (hbefore y hy) ?_
    rw [h.inheritedAttributes_eq hdistinct hacyclic hmodel hreferenced ht (List.ne_nil_of_mem hnext)]
    refine (List.singleton_sublist.2 ?_).append (List.singleton_sublist.2 ?_)
    · refine List.mem_flatMap.2 ⟨u, hsub.subset (List.mem_cons_of_mem _ List.mem_cons_self), ?_⟩
      rwa [Function.update_of_ne hut]
    · exact List.mem_flatMap.2 ⟨w, mem_nextPlaceholders_update.2 ⟨ht, hnext⟩, hxw⟩

theorem OrderIndependent.factoryType (ht : t ∈ placeholders (typeDescriptorMap typeDescriptors) name) :
    inheritedFactoryType (flattened typeDescriptors) (placeholders (typeDescriptorMap typeDescriptors) t) = none ∨
      inheritedFactoryType (flattened typeDescriptors) (placeholders (typeDescriptorMap typeDescriptors) t) =
        inheritedFactoryType (flattened typeDescriptors) (placeholders (typeDescriptorMap typeDescriptors) name) := by
  cases hlate : inheritedFactoryType (flattened typeDescriptors) (placeholders (typeDescriptorMap typeDescriptors) t)
    with
  | none => exact .inl rfl
  | some v =>
    right
    obtain ⟨w, hw, hcontribution⟩ := List.mem_map.1 (lastSome_mem hlate)
    obtain ⟨model, hmodel, htmem⟩ := mem_placeholders.1 ht
    obtain ⟨referenced, hreferenced, hnext⟩ := mem_placeholders.1 hw
    have hname : (flattened typeDescriptors name).factoryType = some v := by
      rw [h.factoryType_eq hdistinct hacyclic hmodel hreferenced htmem (List.ne_nil_of_mem hnext),
        nextPlaceholders_update, inheritedFactoryType_flatMap]
      rw [placeholders_of_eq hreferenced] at hlate
      rw [lastSome_eq_some (List.mem_map.2 ⟨t, htmem, by rw [if_pos rfl, hlate]⟩), Option.some_or]
      intro late hmem
      obtain ⟨s, -, rfl⟩ := List.mem_map.1 hmem
      split
      · exact .inr hlate
      · exact .inl rfl
    -- the contribution of `t` itself
    have hsome : inheritedFactoryType (flattened typeDescriptors)
        (placeholders (typeDescriptorMap typeDescriptors) name) ≠ none := by
      intro hnone
      have ht := lastSome_eq_none.1 hnone _ (List.mem_map_of_mem ht)
      rw [factoryContribution, factoryType_of_inheritedFactoryType hacyclic hlate] at ht
      have hw := h.inlinesStructs t w (mem_placeholders.1 hw)
      have hv := ne_empty_of_factoryContribution (hdistinct.flattened_name_ne_empty hw) hcontribution
      rw [Option.getD_some, if_pos hv] at ht
      split at ht
      · cases ht
      · cases ht
    obtain ⟨other, hother⟩ := Option.ne_none_iff_exists'.1 hsome
    rw [hother, ← factoryType_of_inheritedFactoryType hacyclic hother, hname]

theorem OrderIndependent.unordered : Unordered typeDescriptors :=
  ⟨unambiguous_of_nodup hdistinct.nodup, h.inlinesStructs, h.attributes hdistinct hacyclic,
    fun _ _ ht => h.factoryType hdistinct hacyclic ht⟩

end Necessary

/-- A list whose structures are not inlined in themselves: it is enough that nothing but structures is inlined, and that
neither attributes nor factory types make a difference when they come late. When names are used once and no attribute is
inherited twice, this is necessary, too. -/
theorem orderIndependent_iff (hacyclic : Acyclic (typeDescriptorMap typeDescriptors)) :
    (Unordered typeDescriptors → OrderIndependent typeDescriptors) ∧
      (Distinct typeDescriptors → OrderIndependent typeDescriptors → Unordered typeDescriptors) :=
  ⟨fun h => h.orderIndependent hacyclic, fun hdistinct h => h.unordered hdistinct hacyclic⟩

end Late

/-! ## Declarations in a bad order -/

section Samples
variable {typeDescriptors : List (TypeDescriptor ArrayAttributes)} {name : String}

theorem placeholders_of_not_mem (h : name ∉ modelNames typeDescriptors) :
    placeholders (typeDescriptorMap typeDescriptors) name = [] := by
  refine placeholders_of_not_isStruct ?_
  rintro ⟨model, hmodel⟩
  exact h (mem_modelNames_of_typeDescriptorMap hmodel)

theorem acyclic_of_rank (rank : String → Nat) (h : ∀ a ∈ modelNames typeDescriptors,
    ∀ b ∈ placeholders (typeDescriptorMap typeDescriptors) a, rank b < rank a) :
    Acyclic (typeDescriptorMap typeDescriptors) := by
  intro name hcycle
  have hrank : TransGen (fun a b => rank b < rank a) name name := by
    refine hcycle.lift id fun a b hab => h a ?_ b (mem_placeholders.2 hab)
    obtain ⟨model, hmodel, -⟩ := hab
    exact mem_modelNames_of_typeDescriptorMap hmodel
  have htrans : IsTrans String fun a b => rank b < rank a := ⟨fun _ _ _ hab hbc => hbc.trans hab⟩
  rw [transGen_eq_self] at hrank
  exact Nat.lt_irrefl _ hrank

end Samples

def sampleFactory (name : String) (inlined : List String) : TypeDescriptor ArrayAttributes :=
  .struct ⟨name, some .abstract, inlined.map .inlinePlaceholder, none, none⟩

def sampleSized (name : String) : TypeDescriptor ArrayAttributes :=
  .struct ⟨name, none, [], none, some [⟨"size", []⟩]⟩

def sampleDeclarations : List (TypeDescriptor ArrayAttributes) :=
  [sampleStruct "Plain" ["Sized", "Factory"], sampleFactory "Factory" [], sampleSized "Sized"]

/-- A structure inherits the attribute of one structure and the factory type of another one. -/
theorem orderIndependent_sample : OrderIndependent sampleDeclarations := by
  have hacyclic : Acyclic (typeDescriptorMap sampleDeclarations) :=
    acyclic_of_rank (fun name => if name = "Plain" then 1 else 0) (by decide)
  refine (orderIndependent_iff hacyclic).1 ⟨unambiguous_of_nodup (by decide), ?_, fun name => ?_, fun name => ?_⟩
  · rintro a b ⟨model, hmodel, hb⟩
    have ha := mem_structsWithUnnamedInlines.2 ⟨b, model, hmodel, hb⟩
    have hnames : structsWithUnnamedInlines sampleDeclarations = ["Plain"] := by decide
    rw [hnames, List.mem_singleton] at ha
    subst ha
    cases hmodel
    rcases List.mem_pair.1 hb with rfl | rfl
    · exact ⟨_, rfl⟩
    · exact ⟨_, rfl⟩
  · by_cases hname : name ∈ modelNames sampleDeclarations
    · revert name
      decide
    · rw [placeholders_of_not_mem hname]
      exact .nil
  · by_cases hname : name ∈ modelNames sampleDeclarations
    · revert name
      decide
    · rw [placeholders_of_not_mem hname]
      exact fun t ht => nomatch ht

/-- The factory type of a structure that is declared before its abstract structures is not the closest one. -/
theorem not_orderIndependent_sample :
    ∃ typeDescriptors, validate sampleBuiltins typeDescriptors = .ok [] ∧
      Acyclic (typeDescriptorMap typeDescriptors) ∧ ¬OrderIndependent typeDescriptors := by
  have hacyclic : Acyclic (typeDescriptorMap [sampleStruct "Plain3" ["Abstract2"],
      sampleFactory "Abstract2" ["Abstract1"], sampleFactory "Abstract1" []]) :=
    acyclic_of_rank (fun name => if name = "Plain3" then 2 else if name = "Abstract2" then 1 else 0) (by decide)
  refine ⟨_, by decide, hacyclic, fun h => ?_⟩
  have hmodel : typeDescriptorMap [sampleStruct "Plain3" ["Abstract2"], sampleFactory "Abstract2" ["Abstract1"],
      sampleFactory "Abstract1" []] "Plain3" =
        some (.struct ⟨"Plain3", none, [.inlinePlaceholder "Abstract2"], none, none⟩) := rfl
  have heq := h.flattened_eq (t := "Abstract2") (by decide) hacyclic hmodel rfl
    List.mem_cons_self (List.cons_ne_nil _ _)
  have hfactory := congrArg Struct.factoryType heq
  revert hfactory
  decide

end Catapult.Catparser
