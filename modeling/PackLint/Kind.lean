/-! # Kinds of resources

    A namespace of a data pack holds resources of thirteen kinds.  A kind is the
    functions, one of the kinds of JSON documents, or one of the kinds of tags,
    and it fixes where in a namespace its files lie and which extension they have. -/

namespace PackLint

/-- The kinds of resources that are plain JSON documents. -/
inductive DocumentKind
  | dimensionType
  | dimension
  | advancement
  | predicate
  | lootTable
  | recipe
  | itemModifier
  | configuredFeature
  | surfaceBuilder
  | processorList
deriving DecidableEq, Repr

/-- The kinds of tags, by what they group. -/
inductive TagKind
  | block
  | item
deriving DecidableEq, Repr

inductive Kind
  | function
  | document (kind : DocumentKind)
  | tag (kind : TagKind)
deriving DecidableEq, Repr

namespace Kind

/-- All kinds, in the order in which they are loaded and checked. -/
def all : List Kind :=
  [.function,
    .document .dimensionType,
    .document .dimension,
    .document .advancement,
    .document .predicate,
    .document .lootTable,
    .document .recipe,
    .document .itemModifier,
    .tag .block,
    .tag .item,
    .document .configuredFeature,
    .document .surfaceBuilder,
    .document .processorList]

/-- The name of a kind. -/
def name : Kind → String
  | function => "function"
  | document .dimensionType => "dimension_type"
  | document .dimension => "dimension"
  | document .advancement => "advancement"
  | document .predicate => "predicate"
  | document .lootTable => "loot_table"
  | document .recipe => "recipe"
  | document .itemModifier => "item_modifier"
  | document .configuredFeature => "configured_feature"
  | document .surfaceBuilder => "configured_surface_builder"
  | document .processorList => "processor_list"
  | tag .block => "block_tag"
  | tag .item => "item_tag"

/-- The name of a kind in a JSON report. -/
def reportName : Kind → String
  | document .surfaceBuilder => "surface_builder"
  | kind => kind.name

/-- The kind with a name. -/
def ofName? (name : String) : Option Kind :=
  all.find? fun kind => kind.name == name

/-- The directory of a namespace that holds a kind, as a path of names. -/
def directory : Kind → List String
  | function => ["functions"]
  | document .dimensionType => ["dimension_type"]
  | document .dimension => ["dimension"]
  | document .advancement => ["advancements"]
  | document .predicate => ["predicates"]
  | document .lootTable => ["loot_tables"]
  | document .recipe => ["recipes"]
  | document .itemModifier => ["item_modifiers"]
  | document .configuredFeature => ["worldgen", "configured_feature"]
  | document .surfaceBuilder => ["worldgen", "configured_surface_builder"]
  | document .processorList => ["worldgen", "processor_list"]
  | tag .block => ["tags", "blocks"]
  | tag .item => ["tags", "items"]

/-- The same directory as text. -/
def directoryText (kind : Kind) : String :=
  "/".intercalate kind.directory

/-- The extension of the files of a kind. -/
def fileExtension : Kind → String
  | function => "mcfunction"
  | _ => "json"

/-- Every kind is in the list. -/
theorem mem_all (kind : Kind) : kind ∈ all := by
  cases kind with
  | function => decide
  | document kind => cases kind <;> decide
  | tag kind => cases kind <;> decide

/-- No kind is in the list twice. -/
theorem nodup_all : all.Nodup := by
  decide

end Kind

end PackLint
