import PackLint.Pack.Basic

/-! # Shelves

    What a namespace holds, in thirteen lists: one for each kind.  The functions have a
    list of their own.  Plain documents and tags are looked up by kind, apart from each
    other, to be read and to be changed; a kind of the other sort reads as an empty list
    and has none to change. -/

namespace PackLint

structure Shelves where
  owner : String
  functions : List Function
  dimensionTypes : List Document
  dimensions : List Document
  advancements : List Document
  predicates : List Document
  lootTables : List Document
  recipes : List Document
  itemModifiers : List Document
  blockTags : List Document
  itemTags : List Document
  configuredFeatures : List Document
  surfaceBuilders : List Document
  processorLists : List Document

/-- What is in a namespace, kind by kind. -/
def Namespace.shelves (ns : Namespace) : Shelves where
  owner := ns.name
  functions := ns.functions
  dimensionTypes := ns.documents .dimensionType
  dimensions := ns.documents .dimension
  advancements := ns.documents .advancement
  predicates := ns.documents .predicate
  lootTables := ns.documents .lootTable
  recipes := ns.documents .recipe
  itemModifiers := ns.documents .itemModifier
  blockTags := ns.tags .block
  itemTags := ns.tags .item
  configuredFeatures := ns.documents .configuredFeature
  surfaceBuilders := ns.documents .surfaceBuilder
  processorLists := ns.documents .processorList

namespace Shelves

/-- The plain documents of a kind. -/
def documents (s : Shelves) : Kind → List Document
  | .document .dimensionType => s.dimensionTypes
  | .document .dimension => s.dimensions
  | .document .advancement => s.advancements
  | .document .predicate => s.predicates
  | .document .lootTable => s.lootTables
  | .document .recipe => s.recipes
  | .document .itemModifier => s.itemModifiers
  | .document .configuredFeature => s.configuredFeatures
  | .document .surfaceBuilder => s.surfaceBuilders
  | .document .processorList => s.processorLists
  | .function | .tag .block | .tag .item => []

/-- The tags of a kind. -/
def tags (s : Shelves) : Kind → List Document
  | .tag .block => s.blockTags
  | .tag .item => s.itemTags
  | _ => []

/-- Changes the list of the plain documents of a kind. -/
def changeDocuments? (s : Shelves) (kind : Kind) (f : List Document → List Document) :
    Option Shelves :=
  match kind with
  | .document .dimensionType => some { s with dimensionTypes := f s.dimensionTypes }
  | .document .dimension => some { s with dimensions := f s.dimensions }
  | .document .advancement => some { s with advancements := f s.advancements }
  | .document .predicate => some { s with predicates := f s.predicates }
  | .document .lootTable => some { s with lootTables := f s.lootTables }
  | .document .recipe => some { s with recipes := f s.recipes }
  | .document .itemModifier => some { s with itemModifiers := f s.itemModifiers }
  | .document .configuredFeature =>
      some { s with configuredFeatures := f s.configuredFeatures }
  | .document .surfaceBuilder => some { s with surfaceBuilders := f s.surfaceBuilders }
  | .document .processorList => some { s with processorLists := f s.processorLists }
  | .function | .tag .block | .tag .item => none

/-- Changes the list of the tags of a kind. -/
def changeTags? (s : Shelves) (kind : Kind) (f : List Document → List Document) :
    Option Shelves :=
  match kind with
  | .tag .block => some { s with blockTags := f s.blockTags }
  | .tag .item => some { s with itemTags := f s.itemTags }
  | _ => none

/-- Puts a document behind the tags of a kind, or else behind its plain documents.  It is
    dropped if the kind has neither. -/
def put (s : Shelves) (kind : Kind) (d : Document) : Shelves :=
  match s.changeTags? kind (· ++ [d]) with
  | some changed => changed
  | none =>
      match s.changeDocuments? kind (· ++ [d]) with
      | some changed => changed
      | none => s

/-- Adds the resource with this text.  A text that is none of its kind is left out. -/
def addText (s : Shelves) (kind : Kind) (id text : String) : Shelves :=
  if kind = .function then { s with functions := s.functions ++ [Function.ofText id text] }
  else
    match Document.ofText? id text with
    | some d => s.put kind d
    | none => s

end Shelves

end PackLint
