import Catapult.Catparser.Ast
import Mathlib.Logic.Function.Iterate

/-!
# Expansion of named inlines

The fields of a template are copied, and their names and what they refer to get the name of the field that is expanded
in front. The attributes of an array are not copied: the copy refers to those of the template, and its sort key is set
there.
-/

namespace Catapult.Catparser

section Renaming
variable (namePrefix : String)

def SizeRef.rename (sizeref : SizeRef) : SizeRef :=
  { sizeref with propertyName := joinName namePrefix sizeref.propertyName }

def Token.rename : Token → Token
  | .str name => .str (joinName namePrefix name)
  | token => token

def ArrayAttributes.renameSortKey (attributes : ArrayAttributes) : ArrayAttributes :=
  { attributes with sortKey := attributes.sortKey.rename namePrefix }

structure RenamesArray (heap heap' : Heap) (array copy : Array AttributesRef) : Prop where
  elementType : copy.elementType = array.elementType
  rawSize : array.isExpandable = false → copy.rawSize = array.rawSize.rename namePrefix
  attributes : heap' copy.attributes = (heap array.attributes).renameSortKey namePrefix

inductive RenamesType (heap heap' : Heap) : FieldType AttributesRef → FieldType AttributesRef → Prop
  | named (typename : String) : RenamesType heap heap' (.named typename) (.named typename)
  | integer (type : FixedSizeInteger) : RenamesType heap heap' (.integer type)
      (.integer ⟨type.shortName, type.sizeref.map (·.rename namePrefix)⟩)
  | buffer (type : FixedSizeBuffer) : RenamesType heap heap' (.buffer type) (.buffer type)
  | array {array copy : Array AttributesRef} (h : RenamesArray namePrefix heap heap' array copy) :
      RenamesType heap heap' (.array array) (.array copy)

inductive RenamesValue : FieldValue → FieldValue → Prop
  | token (value : Token) : RenamesValue (.token value) (.token value)
  | conditional (condition : Conditional) : RenamesValue (.conditional condition)
      (.conditional { condition with linkedFieldName := joinName namePrefix condition.linkedFieldName })

structure RenamesField (heap heap' : Heap) (field copy : StructField AttributesRef) : Prop where
  name : copy.name = if field.name = "__value__" then namePrefix else joinName namePrefix field.name
  fieldType : RenamesType namePrefix heap heap' field.fieldType copy.fieldType
  value : field.disposition ≠ some .sizeof → RenamesValue namePrefix field.value copy.value
  disposition : copy.disposition = field.disposition
  attributes : copy.attributes = field.attributes

end Renaming

namespace ArrayAttributes

def IsSorted (attributes : ArrayAttributes) : Prop := ∃ sortKey, attributes.sortKey = .str sortKey

theorem renameSortKey_eq_self {attributes : ArrayAttributes} {namePrefix : String} (h : ¬attributes.IsSorted) :
    attributes.renameSortKey namePrefix = attributes := by
  obtain ⟨sortKey, isByteConstrained, alignment, isLastElementPadded⟩ := attributes
  cases sortKey with
  | none => rfl
  | int n => rfl
  | str sortKey => exact absurd ⟨sortKey, rfl⟩ h

end ArrayAttributes

section Copies
variable (namePrefix : String)

def touch (heap : Heap) (ref : AttributesRef) : Heap := fun ref' =>
  if ref' = ref then (heap ref').renameSortKey namePrefix else heap ref'

def FieldType.attributesRefs : FieldType AttributesRef → List AttributesRef
  | array type => [type.attributes]
  | _ => []

def attributesRefs (fields : List (StructField AttributesRef)) : List AttributesRef :=
  fields.flatMap fun field => field.fieldType.attributesRefs

def copySize : Token → Token
  | .str property => .str (joinName namePrefix property)
  | size => size

def FieldType.copied : FieldType AttributesRef → FieldType AttributesRef
  | integer type => integer (type.copy namePrefix)
  | array type => array ⟨type.elementType, copySize namePrefix type.size, type.attributes⟩
  | type => type

/-- A copy does not depend on the attributes. -/
def StructField.copied (field : StructField AttributesRef) : StructField AttributesRef :=
  ⟨copyName namePrefix field.name, field.fieldType.copied namePrefix, field.value.copy namePrefix, field.disposition,
    field.attributes, none⟩

variable {namePrefix} {heap : Heap} {fields : List (StructField AttributesRef)} {ref : AttributesRef}

theorem touch_eq_self (h : ¬(heap ref).IsSorted) : touch namePrefix heap ref = heap := by
  funext ref'
  rw [touch]
  split
  · case isTrue heq =>
    rw [heq]
    exact ArrayAttributes.renameSortKey_eq_self h
  · rfl

theorem run_copy_array (array : Array AttributesRef) :
    (array.copy namePrefix).run heap =
      (⟨array.elementType, copySize namePrefix array.size, array.attributes⟩,
        touch namePrefix heap array.attributes) := by
  cases hsortKey : (heap array.attributes).sortKey with
  | str sortKey =>
    have htouch : touch namePrefix heap array.attributes = fun ref => if ref = array.attributes then
        { heap ref with sortKey := .str (joinName namePrefix sortKey) } else heap ref := by
      funext ref
      rw [touch]
      split
      · case isTrue heq => rw [heq, ArrayAttributes.renameSortKey, hsortKey, Token.rename]
      · rfl
    rw [htouch]
    simp only [Array.copy, StateT.run_bind, StateT.run_get, pure_bind, hsortKey, StateT.run_set, StateT.run_pure]
    cases array.size <;> rfl
  | none | int n =>
    rw [touch_eq_self (by rintro ⟨sortKey, h⟩; rw [hsortKey] at h; cases h)]
    simp only [Array.copy, StateT.run_bind, StateT.run_get, pure_bind, hsortKey, StateT.run_pure]
    cases array.size <;> rfl

theorem run_copy (field : StructField AttributesRef) :
    (field.copy namePrefix).run heap =
      (field.copied namePrefix, field.fieldType.attributesRefs.foldl (touch namePrefix) heap) := by
  obtain ⟨name, fieldType, value, disposition, attributes, comment⟩ := field
  cases fieldType with
  | named typename => rfl
  | integer type => rfl
  | buffer type => rfl
  | array type =>
    simp only [StructField.copy, FieldType.copy, StateT.run_bind, StateT.run_map, run_copy_array, StateT.run_pure]
    rfl

theorem run_bind_ok {ε σ β γ : Type} {x : ExceptT ε (StateM σ) β} {f : β → ExceptT ε (StateM σ) γ} {b : β} {s s' : σ}
    (h : x.run.run s = (.ok b, s')) : (x >>= f).run.run s = (f b).run.run s' := by
  rw [ExceptT.run_bind, StateT.run_bind, h]
  rfl

theorem run_copyMembers (fields : List (StructField AttributesRef)) :
    (copyMembers namePrefix (fields.map .field)).run.run heap =
      (.ok (fields.map fun field => (field.name, field.copied namePrefix)),
        (attributesRefs fields).foldl (touch namePrefix) heap) := by
  induction fields generalizing heap with
  | nil => rfl
  | cons field fields ih =>
    have hcopy : (liftM (field.copy namePrefix) : ExceptT AstError (StateM Heap) _).run.run heap =
        (.ok (field.copied namePrefix), field.fieldType.attributesRefs.foldl (touch namePrefix) heap) := by
      rw [ExceptT.run_liftM, StateT.run_map, run_copy]
      rfl
    rw [attributesRefs, List.flatMap_cons, List.foldl_append, ← attributesRefs, List.map_cons, copyMembers,
      run_bind_ok hcopy, run_bind_ok ih]
    rfl

theorem foldl_touch (refs : List AttributesRef) (ref : AttributesRef) :
    refs.foldl (touch namePrefix) heap ref =
      (fun attributes => ArrayAttributes.renameSortKey namePrefix attributes)^[refs.count ref] (heap ref) := by
  induction refs generalizing heap with
  | nil => rfl
  | cons first refs ih =>
    rw [List.foldl_cons, ih, List.count_cons]
    by_cases heq : ref = first
    · rw [if_pos (beq_iff_eq.2 heq.symm), Function.iterate_succ_apply, touch, if_pos heq]
    · rw [if_neg fun hbeq => heq (beq_iff_eq.1 hbeq).symm, touch, if_neg heq]
      rfl

theorem foldl_touch_of_not_isSorted (refs : List AttributesRef) (h : ¬(heap ref).IsSorted) :
    refs.foldl (touch namePrefix) heap ref = heap ref := by
  rw [foldl_touch]
  exact Function.iterate_fixed (ArrayAttributes.renameSortKey_eq_self h) _

def Owned (heap : Heap) (fields : List (StructField AttributesRef)) : Prop :=
  ∀ ref, (heap ref).IsSorted → (attributesRefs fields).count ref ≤ 1

theorem foldl_touch_of_mem (howned : Owned heap fields) (hmem : ref ∈ attributesRefs fields) :
    (attributesRefs fields).foldl (touch namePrefix) heap ref = (heap ref).renameSortKey namePrefix := by
  by_cases hsorted : (heap ref).IsSorted
  · have hcount : (attributesRefs fields).count ref = 1 :=
      Nat.le_antisymm (howned ref hsorted) (List.one_le_count_iff.2 hmem)
    rw [foldl_touch, hcount, Function.iterate_one]
  · rw [foldl_touch_of_not_isSorted _ hsorted, ArrayAttributes.renameSortKey_eq_self hsorted]

end Copies

section Template
variable {heap : Heap} {fields : List (StructField AttributesRef)} {model : Struct AttributesRef}
  {namedInlineField : StructField AttributesRef} {namePrefix : String}

def expanded (fields : List (StructField AttributesRef)) (namedInlineField : StructField AttributesRef) :
    List (StructField AttributesRef) :=
  fields.map fun field => setComment ((namedInlineField.comment.map Comment.buildCommentMap).getD []) field.name
    (field.copied namedInlineField.name)

theorem run_applyInlineTemplate (hinline : model.disposition = some .inline)
    (hfields : model.fields = fields.map .field) :
    (model.applyInlineTemplate namedInlineField).run.run heap =
      (.ok (expanded fields namedInlineField), (attributesRefs fields).foldl (touch namedInlineField.name) heap) := by
  have hmembers := @run_copyMembers namedInlineField.name heap fields
  rw [← hfields] at hmembers
  rw [Struct.applyInlineTemplate, if_neg (not_not.2 hinline)]
  simp only
  rw [run_bind_ok hmembers, expanded]
  simp only [List.map_map]
  rfl

theorem renamesType_copied (howned : Owned heap fields) {fieldType : FieldType AttributesRef}
    (hrefs : ∀ ref ∈ fieldType.attributesRefs, ref ∈ attributesRefs fields) :
    RenamesType namePrefix heap ((attributesRefs fields).foldl (touch namePrefix) heap) fieldType
      (fieldType.copied namePrefix) := by
  cases fieldType with
  | named typename => exact .named typename
  | integer type => exact .integer type
  | buffer type => exact .buffer type
  | array type =>
    refine .array ⟨rfl, fun hexpandable => ?_, foldl_touch_of_mem howned (hrefs _ List.mem_cons_self)⟩
    have hsize : type.size = type.rawSize := if_neg (of_decide_eq_false hexpandable)
    simp only [hsize]
    cases type.rawSize <;> rfl

theorem renamesValue_copy (value : FieldValue) : RenamesValue namePrefix value (value.copy namePrefix) := by
  cases value with
  | token value => exact .token value
  | conditional condition => exact .conditional condition

theorem renamesField_setComment {heap' : Heap} {field copy : StructField AttributesRef}
    {commentMap : List (String × List String)} {name : String} (h : RenamesField namePrefix heap heap' field copy) :
    RenamesField namePrefix heap heap' field (setComment commentMap name copy) := by
  rw [setComment]
  split
  · exact ⟨h.name, h.fieldType, h.value, h.disposition, h.attributes⟩
  · exact h

theorem forall₂_expanded (howned : Owned heap fields) (namedInlineField : StructField AttributesRef) :
    List.Forall₂
      (RenamesField namedInlineField.name heap ((attributesRefs fields).foldl (touch namedInlineField.name) heap))
      fields (expanded fields namedInlineField) := by
  rw [expanded, List.forall₂_map_right_iff, List.forall₂_same]
  intro field hmem
  refine renamesField_setComment ⟨rfl, renamesType_copied howned fun ref href => ?_,
    fun _ => renamesValue_copy field.value, rfl, rfl⟩
  exact List.mem_flatMap.2 ⟨field, hmem, href⟩

theorem foldl_touch_eq_self (hsorted : ∀ ref ∈ attributesRefs fields, ¬(heap ref).IsSorted) :
    (attributesRefs fields).foldl (touch namePrefix) heap = heap := by
  funext ref
  by_cases hmem : ref ∈ attributesRefs fields
  · exact foldl_touch_of_not_isSorted _ (hsorted ref hmem)
  · rw [foldl_touch, List.count_eq_zero_of_not_mem hmem]
    rfl

/-- The fields of an expansion are those of the template with other names. Only attributes with a sort key change, and
without any of them the template can be expanded again. -/
theorem applyInlineTemplate_renames (hinline : model.disposition = some .inline)
    (hfields : model.fields = fields.map .field) (howned : Owned heap fields)
    (namedInlineField : StructField AttributesRef) :
    ∃ copies heap', (model.applyInlineTemplate namedInlineField).run.run heap = (.ok copies, heap') ∧
      List.Forall₂ (RenamesField namedInlineField.name heap heap') fields copies ∧
      (∀ ref, ¬(heap ref).IsSorted → heap' ref = heap ref) ∧
      ((∀ ref ∈ attributesRefs fields, ¬(heap ref).IsSorted) → heap' = heap ∧
        ∀ other, (model.applyInlineTemplate other).run.run heap' = (model.applyInlineTemplate other).run.run heap) := by
  refine ⟨_, _, run_applyInlineTemplate hinline hfields, forall₂_expanded howned namedInlineField,
    fun ref hsorted => foldl_touch_of_not_isSorted _ hsorted, fun hsorted => ?_⟩
  have heap_eq := @foldl_touch_eq_self heap fields namedInlineField.name hsorted
  exact ⟨heap_eq, fun other => by rw [heap_eq]⟩

end Template

section Pure
variable (heap : Heap) (namePrefix : String)

def FieldType.resolve : FieldType AttributesRef → FieldType ArrayAttributes
  | named typename => named typename
  | integer type => integer type
  | buffer type => buffer type
  | array type => array ⟨type.elementType, type.rawSize, heap type.attributes⟩

def StructField.resolve (field : StructField AttributesRef) : StructField ArrayAttributes :=
  ⟨field.name, field.fieldType.resolve heap, field.value, field.disposition, field.attributes, none⟩

def FieldType.rename : FieldType ArrayAttributes → FieldType ArrayAttributes
  | integer type => integer ⟨type.shortName, type.sizeref.map (·.rename namePrefix)⟩
  | array type => array ⟨type.elementType,
      if type.isExpandable then type.rawSize else type.rawSize.rename namePrefix, type.attributes⟩
  | type => type

def FieldValue.rename (disposition : Option FieldDisposition) : FieldValue → FieldValue
  | token value => token (if disposition = some .sizeof then value.rename namePrefix else value)
  | conditional condition =>
    conditional { condition with linkedFieldName := joinName namePrefix condition.linkedFieldName }

def StructField.rename (field : StructField ArrayAttributes) : StructField ArrayAttributes :=
  ⟨copyName namePrefix field.name, field.fieldType.rename namePrefix, field.value.rename namePrefix field.disposition,
    field.disposition, field.attributes, none⟩

/-- An expansion renames everything that belongs to the template, and nothing else. -/
def ExpandsPurely (model : Struct AttributesRef) (fields : List (StructField AttributesRef))
    (namedInlineField : StructField AttributesRef) : Prop :=
  ∃ copies heap', (model.applyInlineTemplate namedInlineField).run.run heap = (.ok copies, heap') ∧
    copies.map (·.resolve heap') = fields.map (fun field => (field.resolve heap).rename namedInlineField.name) ∧
    (∀ ref ∈ attributesRefs fields, heap' ref = heap ref) ∧
    ∀ other, (model.applyInlineTemplate other).run.run heap' = (model.applyInlineTemplate other).run.run heap

end Pure

def sampleFields : List (StructField AttributesRef) := [
  ⟨"count", .integer ⟨"uint8", none⟩, .token .none, none, none, none⟩,
  ⟨"items", .array ⟨.named "Item", .str "count", 0⟩, .token .none, none, none, none⟩]

def sampleTemplate : Struct AttributesRef := ⟨"Template", some .inline, sampleFields.map .field, none, none⟩

def sampleHeap : Heap := fun _ => { sortKey := .str "item_id" }

def sampleInline : StructField AttributesRef := ⟨"body", .named "Template", .token .none, some .inline, none, none⟩

theorem owned_sample : Owned sampleHeap sampleFields := fun _ _ => List.count_le_length

theorem applyInlineTemplate_sample :
    ∃ copies heap', (sampleTemplate.applyInlineTemplate sampleInline).run.run sampleHeap = (.ok copies, heap') ∧
      List.Forall₂ (RenamesField "body" sampleHeap heap') sampleFields copies := by
  obtain ⟨copies, heap', hrun, hcopies, -⟩ :=
    @applyInlineTemplate_renames sampleHeap sampleFields sampleTemplate rfl rfl owned_sample sampleInline
  exact ⟨copies, heap', hrun, hcopies⟩

/-- The sort key names a field of the items, and gets the name of the field that is expanded in front. -/
theorem not_expandsPurely_sample : ¬ExpandsPurely sampleHeap sampleTemplate sampleFields sampleInline := by
  rintro ⟨copies, heap', hrun, hcopies, -⟩
  rw [run_applyInlineTemplate rfl rfl, Prod.mk.injEq, Except.ok.injEq] at hrun
  obtain ⟨rfl, rfl⟩ := hrun
  revert hcopies
  decide

end Catapult.Catparser
