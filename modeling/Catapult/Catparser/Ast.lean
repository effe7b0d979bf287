import Mathlib.Data.List.Dedup

/-!
# Type descriptors of the schema parser

What the parser makes of a schema: aliases, enumerations and structures. The attributes of an array are an object that
a copy of the array refers to, too. `α` is what an array has for its attributes: a reference to them
(`AttributesRef`) or the attributes themselves (`ArrayAttributes`).
-/

namespace Catapult.Catparser

/-- A value of the grammar: nothing, a number or a string. -/
inductive Token where
  | none
  | int (n : Int)
  | str (s : String)
  deriving DecidableEq

inductive AstError where
  /-- `AstException` -/
  | ast (message : String)
  /-- An object does not have the attribute. -/
  | attribute (name : String)
  /-- A key is not in a dictionary. -/
  | key
  deriving DecidableEq

structure Comment where
  parsed : String
  deriving DecidableEq

structure Attribute where
  name : String
  values : List Token
  deriving DecidableEq

structure SizeRef where
  propertyName : String
  delta : Token
  deriving DecidableEq

/-- The short name tells the sign and the size. -/
structure FixedSizeInteger where
  shortName : String
  sizeref : Option SizeRef := none
  deriving DecidableEq

structure FixedSizeBuffer where
  size : Int
  deriving DecidableEq

inductive ElementType where
  | named (typename : String)
  | integer (type : FixedSizeInteger)
  deriving DecidableEq

/-- What is missing in the dictionary of attributes has its default. -/
structure ArrayAttributes where
  sortKey : Token := .none
  /-- `none` is there for a value that is set to nothing. -/
  isByteConstrained : Option Bool := some false
  alignment : Token := .none
  isLastElementPadded : Option Bool := none
  deriving DecidableEq

abbrev AttributesRef := Nat

abbrev Heap := AttributesRef → ArrayAttributes

structure Array (α : Type) where
  elementType : ElementType
  rawSize : Token
  attributes : α
  deriving DecidableEq

inductive FieldType (α : Type) where
  | named (typename : String)
  | integer (type : FixedSizeInteger)
  | buffer (type : FixedSizeBuffer)
  | array (type : Array α)
  deriving DecidableEq

structure Conditional where
  linkedFieldName : String
  operation : String
  value : Token
  deriving DecidableEq

inductive FieldValue where
  | token (value : Token)
  | conditional (condition : Conditional)
  deriving DecidableEq

inductive FieldDisposition where
  | const
  | reserved
  | sizeof
  | inline
  deriving DecidableEq

structure StructField (α : Type) where
  name : String
  fieldType : FieldType α
  value : FieldValue
  disposition : Option FieldDisposition
  attributes : Option (List Attribute) := none
  comment : Option Comment := none
  deriving DecidableEq

inductive StructMember (α : Type) where
  | field (field : StructField α)
  /-- `StructInlinePlaceholder` -/
  | inlinePlaceholder (inlinedTypename : String)
  deriving DecidableEq

inductive StructDisposition where
  | inline
  | abstract
  deriving DecidableEq

structure Struct (α : Type) where
  name : String
  disposition : Option StructDisposition
  fields : List (StructMember α)
  factoryType : Option String := none
  attributes : Option (List Attribute) := none
  deriving DecidableEq

structure EnumValue where
  name : String
  value : Token
  deriving DecidableEq

structure Enum where
  name : String
  base : FixedSizeInteger
  values : List EnumValue
  attributes : Option (List Attribute) := none
  deriving DecidableEq

inductive LinkedType where
  | integer (type : FixedSizeInteger)
  | buffer (type : FixedSizeBuffer)
  deriving DecidableEq

structure Alias where
  name : String
  linkedType : LinkedType
  deriving DecidableEq

inductive TypeDescriptor (α : Type) where
  | alias (model : Alias)
  | enum (model : Enum)
  | struct (model : Struct α)
  deriving DecidableEq

namespace TypeDescriptor
variable {α : Type}

def name : TypeDescriptor α → String
  | .alias model => model.name
  | .enum model => model.name
  | .struct model => model.name

end TypeDescriptor

namespace Array
variable {α : Type}

def fillPlaceholder : Token := .str "__FILL__"

def size (array : Array α) : Token := if array.rawSize = fillPlaceholder then .int 0 else array.rawSize

def isExpandable (array : Array α) : Bool := array.rawSize = fillPlaceholder

end Array

section Dictionary
variable {α : Type}

/-- `type_descriptor_map`: of the models with a name, the last one. -/
def typeDescriptorMap (typeDescriptors : List (TypeDescriptor α)) (name : String) : Option (TypeDescriptor α) :=
  typeDescriptors.reverse.find? fun model => model.name = name

/-- The keys of the dictionary, in the order in which they come first. -/
def modelNames (typeDescriptors : List (TypeDescriptor α)) : List String :=
  ((typeDescriptors.map TypeDescriptor.name).reverse.dedup).reverse

theorem nodup_modelNames (typeDescriptors : List (TypeDescriptor α)) : (modelNames typeDescriptors).Nodup :=
  List.nodup_reverse.2 (List.nodup_dedup _)

theorem name_of_typeDescriptorMap {typeDescriptors : List (TypeDescriptor α)} {name : String}
    {model : TypeDescriptor α} (h : typeDescriptorMap typeDescriptors name = some model) : model.name = name := by
  have hname := List.find?_some h
  exact of_decide_eq_true hname

theorem mem_modelNames_of_typeDescriptorMap {typeDescriptors : List (TypeDescriptor α)} {name : String}
    {model : TypeDescriptor α} (h : typeDescriptorMap typeDescriptors name = some model) :
    name ∈ modelNames typeDescriptors := by
  have hmem := List.mem_reverse.1 (List.mem_of_find?_eq_some h)
  rw [modelNames, List.mem_reverse, List.mem_dedup, List.mem_reverse, List.mem_map]
  exact ⟨model, hmem, name_of_typeDescriptorMap h⟩

end Dictionary

namespace Comment

/-- `str.isspace` for one character. -/
def isSpace (c : Char) : Bool :=
  (0x09 ≤ c.toNat && c.toNat ≤ 0x0D) || (0x1C ≤ c.toNat && c.toNat ≤ 0x20) || (0x2000 ≤ c.toNat && c.toNat ≤ 0x200A) ||
    [0x85, 0xA0, 0x1680, 0x2028, 0x2029, 0x202F, 0x205F, 0x3000].contains c.toNat

/-- The characters of a line without the ones for comments and indentation at both ends. -/
def stripLine (line : String) : String :=
  let isStripped := fun c => c == '#' || c == ' ' || c == '\t'
  String.ofList ((line.toList.dropWhile isStripped).reverse.dropWhile isStripped).reverse

/-- `Comment`: the lines are joined, an empty one starts a new paragraph. -/
def ofString (string : String) : Comment :=
  let step := fun (parsed, needsSeparator) line =>
    let commentLine := stripLine line
    if commentLine = "" then (parsed ++ "\n", false)
    else ((if needsSeparator then parsed ++ " " else parsed) ++ commentLine, true)
  ⟨((string.splitOn "\n").foldl step ("", false)).1⟩

def memberCommentStart (line : String) : Option (String × String) :=
  match line.toList with
  | '[' :: rest =>
    let word := rest.takeWhile fun c => !isSpace c
    match word.getLast?, rest.drop word.length with
    | some ']', ' ' :: text => if 1 < word.length then some (String.ofList word.dropLast, String.ofList text) else none
    | _, _ => none
  | _ => none

/-- The dictionary of the comments of members, and the active key. -/
def buildCommentMap (comment : Comment) : List (String × List String) :=
  let step := fun ((commentMap : List (String × List String)), (activeCommentKey : Option String)) line =>
    match memberCommentStart line, activeCommentKey with
    | some (key, text), _ => (commentMap.filter (·.1 ≠ key) ++ [(key, [text])], some key)
    | none, some key => (commentMap.map fun entry => if entry.1 = key then (key, entry.2 ++ ["\n" ++ line]) else entry,
        some key)
    | none, none => (commentMap, none)
  ((comment.parsed.splitOn "\n").foldl step ([], none)).1

end Comment

section Copy
variable {α : Type} (namePrefix : String)

def joinName (name : String) : String := namePrefix ++ "_" ++ name

def FixedSizeInteger.copy (type : FixedSizeInteger) : FixedSizeInteger where
  shortName := type.shortName
  sizeref := type.sizeref.map fun sizeref => ⟨joinName namePrefix sizeref.propertyName, sizeref.delta⟩

def Conditional.copy (condition : Conditional) : Conditional :=
  ⟨joinName namePrefix condition.linkedFieldName, condition.operation, condition.value⟩

/-- The copy refers to the attributes of the array, and its sort key is set in them. -/
def Array.copy (array : Array AttributesRef) : StateM Heap (Array AttributesRef) := do
  let size := match array.size with
    | .str property => .str (joinName namePrefix property)
    | size => size
  let heap ← get
  match (heap array.attributes).sortKey with
  | .str sortKey =>
    set fun ref => if ref = array.attributes then
      { heap ref with sortKey := .str (joinName namePrefix sortKey) } else heap ref
  | _ => pure ()
  return ⟨array.elementType, size, array.attributes⟩

def FieldType.copy : FieldType AttributesRef → StateM Heap (FieldType AttributesRef)
  | integer type => return integer (type.copy namePrefix)
  | array type => array <$> type.copy namePrefix
  | type => return type

def FieldValue.copy : FieldValue → FieldValue
  | conditional condition => conditional (condition.copy namePrefix)
  | value => value

def copyName (name : String) : String := if name = "__value__" then namePrefix else joinName namePrefix name

def StructField.copy (field : StructField AttributesRef) : StateM Heap (StructField AttributesRef) := do
  let fieldType ← field.fieldType.copy namePrefix
  return ⟨copyName namePrefix field.name, fieldType, field.value.copy namePrefix, field.disposition, field.attributes,
    none⟩

end Copy

/-- The comments come from the field that is expanded. -/
def setComment (commentMap : List (String × List String)) (originalFieldName : String)
    (field : StructField AttributesRef) : StructField AttributesRef :=
  match commentMap.lookup originalFieldName with
  | some lines => { field with comment := some (.ofString ("\n".intercalate lines)) }
  | none => field

/-- A placeholder has no name. -/
def copyMembers (namePrefix : String) :
    List (StructMember AttributesRef) → ExceptT AstError (StateM Heap) (List (String × StructField AttributesRef))
  | [] => return []
  | .field field :: fields => do
    let copy ← (field.copy namePrefix : StateM Heap (StructField AttributesRef))
    let copies ← copyMembers namePrefix fields
    return (field.name, copy) :: copies
  | .inlinePlaceholder _ :: _ => throw (.attribute "name")

def Struct.applyInlineTemplate (model : Struct AttributesRef) (namedInlineField : StructField AttributesRef) :
    ExceptT AstError (StateM Heap) (List (StructField AttributesRef)) := do
  if model.disposition ≠ some .inline then
    throw (.ast s!"apply_inline_template called for struct {model.name} not marked as inline")
  let commentMap := (namedInlineField.comment.map Comment.buildCommentMap).getD []
  let fieldsCopy ← copyMembers namedInlineField.name model.fields
  return fieldsCopy.map fun (originalFieldName, field) => setComment commentMap originalFieldName field

end Catapult.Catparser
