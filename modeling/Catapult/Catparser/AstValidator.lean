import Catapult.Catparser.Ast

/-!
# Validation of type descriptors

The errors of all models before the expansion of inlines. An unnamed inline can be of any known type. The validator
itself raises an error where it looks for a property that a model does not have.

What Python objects and strings have as attributes is `Builtins`.
-/

namespace Catapult.Catparser

structure ErrorDescriptor where
  message : String
  typename : String
  fieldNames : List String := []
  deriving DecidableEq

/-- The attributes of all objects, and those of strings. -/
structure Builtins where
  objectAttributes : String → Bool
  stringAttributes : String → Bool

abbrev Models := String → Option (TypeDescriptor ArrayAttributes)

abbrev FieldMap := String → Option (StructField ArrayAttributes)

abbrev Validation := Except AstError (List ErrorDescriptor)

def Token.format : Token → String
  | none => "None"
  | int n => toString n
  | str s => s

def Token.isTruthy : Token → Bool
  | none => false
  | int n => n ≠ 0
  | str s => s ≠ ""

def Attribute.value (attr : Attribute) : Token := attr.values.head?.getD (.int 1)

def lookupAttributeValue (attributes : Option (List Attribute)) (name : String) : Token :=
  (((attributes.getD []).find? fun attr => attr.name = name).map Attribute.value).getD .none

def Struct.isSizeImplicit (model : Struct ArrayAttributes) : Bool :=
  (lookupAttributeValue model.attributes "is_size_implicit").isTruthy

def ElementType.format : ElementType → String
  | named typename => typename
  | integer type => type.shortName

def FieldType.format : FieldType ArrayAttributes → String
  | named typename => typename
  | integer type => type.shortName
  | buffer type => s!"binary_fixed({type.size})"
  | array type =>
    let size := if type.isExpandable then "__FILL__" else type.size.format
    s!"array({type.elementType.format}, {size})"

def FieldType.hasAttribute (builtins : Builtins) : FieldType ArrayAttributes → String → Bool
  | named _, name => builtins.stringAttributes name
  | integer _, name => ["SizeRef", "short_name", "is_unsigned", "size", "display_type", "_sizeref", "name",
      "sizeref", "copy", "to_legacy_descriptor"].contains name || builtins.objectAttributes name
  | buffer _, name => ["size", "is_unsigned", "display_type", "name", "to_legacy_descriptor"].contains name ||
      builtins.objectAttributes name
  | array _, name => ["element_type", "_raw_size", "size", "_attributes", "sort_key", "is_byte_constrained",
      "alignment", "is_last_element_padded", "display_type", "is_expandable", "disposition", "copy",
      "to_legacy_descriptor"].contains name || builtins.objectAttributes name

def findDuplicateNames (names : List String) : List String := names.dedup.filter fun name => 1 < names.count name

def structFields {α : Type} (members : List (StructMember α)) : List (StructField α) :=
  members.filterMap fun
    | .field field => some field
    | .inlinePlaceholder _ => none

section Fields
variable (models : Models) (builtins : Builtins) (fieldMap : FieldMap)
  (createErrorDescriptor : String → ErrorDescriptor)

def isKnownType (typename : String) : Bool := (models typename).isSome

def validateInteger (fieldType : FixedSizeInteger) : List ErrorDescriptor :=
  match fieldType.sizeref with
  | none => []
  | some sizeref =>
    if (fieldMap sizeref.propertyName).isNone then
      [createErrorDescriptor s!"reference to unknown sizeref property \"{sizeref.propertyName}\""]
    else []

def isSortKeyValid (sortKey : Token) : List (StructMember ArrayAttributes) → Except AstError Bool
  | [] => return false
  | .field field :: members => if sortKey = .str field.name then return true else isSortKeyValid sortKey members
  | .inlinePlaceholder _ :: _ => throw (.attribute "name")

def validateArray (fieldType : Array ArrayAttributes) : Validation := do
  let sortKey := fieldType.attributes.sortKey
  let (elementErrors, isValid) ← match fieldType.elementType with
    | .named typename => match models typename with
      | none => pure ([createErrorDescriptor s!"reference to unknown element type \"{typename}\""], !sortKey.isTruthy)
      | some elementModel =>
        if !sortKey.isTruthy then pure ([], true)
        else match elementModel with
          | .struct elementModel => do
            let isValid ← isSortKeyValid sortKey elementModel.fields
            pure ([], isValid)
          | _ => throw (.attribute "fields")
    | .integer _ => if !sortKey.isTruthy then pure ([], true) else throw .key
  let sortKeyErrors := if isValid then []
    else [createErrorDescriptor s!"reference to unknown sort_key property \"{sortKey.format}\""]
  let sizeErrors := match fieldType.size with
    | .str size => if (fieldMap size).isNone then
        [createErrorDescriptor s!"reference to unknown size property \"{size}\""] else []
    | _ => []
  return elementErrors ++ sortKeyErrors ++ sizeErrors

def FieldValue.format : FieldValue → String
  | token value => value.format
  | conditional condition => s!"if {condition.value.format} {condition.operation} {condition.linkedFieldName}"

def validateSizeof (value : FieldValue) : Validation :=
  let reference := match value with
    | .token (.str name) => fieldMap name
    | _ => none
  match reference with
  | none => return [createErrorDescriptor s!"reference to unknown sizeof property \"{value.format}\""]
  | some field => do
    let fixedSize :=
      [createErrorDescriptor s!"sizeof property references fixed size type \"{field.fieldType.format}\""]
    match field.fieldType with
    | .named typename => match models typename with
      | none => throw .key
      | some (.struct referenceType) =>
        if referenceType.isSizeImplicit then return []
        else return [createErrorDescriptor
          s!"sizeof property references type \"{typename}\" without is_size_implicit attribute"]
      | some _ => return fixedSize
    | _ => return fixedSize

def validateInRange (valueType : FieldType ArrayAttributes) (value : Token) : List ErrorDescriptor :=
  let enumModel := match valueType with
    | .named typename => match models typename with
      | some (.enum model) => some model
      | _ => none
    | _ => none
  match enumModel, value with
  | some model, _ =>
    if model.values.any fun enumValue => value = .str enumValue.name then []
    else [createErrorDescriptor s!"field value \"{value.format}\" is not a valid enum value"]
  | none, .int _ => []
  | none, _ => [createErrorDescriptor s!"field value \"{value.format}\" is not a valid numeric value"]

def validateConditional (condition : Conditional) : List ErrorDescriptor :=
  match fieldMap condition.linkedFieldName with
  | none => [createErrorDescriptor s!"reference to unknown condition field \"{condition.linkedFieldName}\""]
  | some field => validateInRange models createErrorDescriptor field.fieldType condition.value

/-- The type of a named inline is a model with the disposition of an inline. -/
def validateFieldType (field : StructField ArrayAttributes) : Validation :=
  match field.fieldType with
  | .named typename => match models typename with
    | none => return [createErrorDescriptor s!"reference to unknown type \"{typename}\""]
    | some model =>
      if field.disposition = some .inline then
        match model with
        | .struct model =>
          if model.disposition = some .inline then return []
          else return [createErrorDescriptor s!"named inline field referencing non inline struct \"{typename}\""]
        | _ => throw (.attribute "disposition")
      else return []
  | _ => if field.disposition = some .inline then throw .key else return []

def validateStructField (field : StructField ArrayAttributes) : Validation := do
  let typeErrors ← validateFieldType models createErrorDescriptor field
  let propertyErrors ← match field.fieldType with
    | .integer fieldType => pure (validateInteger fieldMap createErrorDescriptor fieldType)
    | .array fieldType => validateArray models fieldMap createErrorDescriptor fieldType
    | _ => pure []
  let valueErrors ← match field.value with
    | .token .none => pure []
    | value =>
      if field.disposition = some .sizeof then validateSizeof models fieldMap createErrorDescriptor value
      else match value with
        | .conditional condition => pure (validateConditional models fieldMap createErrorDescriptor condition)
        | .token value => pure (validateInRange models createErrorDescriptor field.fieldType value)
  let attributeErrors := (field.attributes.getD []).filterMap fun attr =>
    if field.fieldType.hasAttribute builtins attr.name then none
    else some (createErrorDescriptor s!"inapplicable attribute \"{attr.name}\"")
  return typeErrors ++ propertyErrors ++ valueErrors ++ attributeErrors

end Fields

section Models
variable (models : Models) (builtins : Builtins)

def validateEnum (model : Enum) : List ErrorDescriptor :=
  match findDuplicateNames (model.values.map EnumValue.name) with
  | [] => []
  | duplicateNames => [⟨"duplicate enum values", model.name, duplicateNames⟩]

def validateUnnamedInline (inlinedTypename : String) (createErrorDescriptor : String → ErrorDescriptor) :
    List ErrorDescriptor :=
  if isKnownType models inlinedTypename then []
  else [createErrorDescriptor s!"reference to unknown inlined type \"{inlinedTypename}\""]

def validateMember (model : Struct ArrayAttributes) (member : StructMember ArrayAttributes) : Validation :=
  -- the last field with a name
  let fieldMap := fun name => (structFields model.fields).reverse.find? fun field => field.name = name
  match member with
  | .inlinePlaceholder inlinedTypename =>
    return validateUnnamedInline models inlinedTypename fun message => ⟨message, model.name, []⟩
  | .field field =>
    validateStructField models builtins fieldMap (fun message => ⟨message, model.name, [field.name]⟩) field

def validateStruct (model : Struct ArrayAttributes) : Validation := do
  let duplicateErrors := match findDuplicateNames ((structFields model.fields).map StructField.name) with
    | [] => []
    | duplicateNames => [⟨"duplicate struct fields", model.name, duplicateNames⟩]
  let memberErrors ← model.fields.mapM (validateMember models builtins model)
  return duplicateErrors ++ memberErrors.flatten

def validateModel : TypeDescriptor ArrayAttributes → Validation
  | .alias _ => return []
  | .enum model => return validateEnum model
  | .struct model => validateStruct models builtins model

end Models

/-- `AstValidator.validate`, before the expansion. -/
def validate (builtins : Builtins) (typeDescriptors : List (TypeDescriptor ArrayAttributes)) : Validation := do
  let models := typeDescriptorMap typeDescriptors
  let errors ← ((modelNames typeDescriptors).filterMap models).mapM (validateModel models builtins)
  return errors.flatten

end Catapult.Catparser
