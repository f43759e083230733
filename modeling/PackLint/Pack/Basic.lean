import PackLint.Resource.Basic

/-! # Data packs

    A data pack is its metadata and its namespaces, and a namespace is a sequence
    of resources.  What a namespace holds is seen kind by kind: `ofKind` and its
    typed forms are the resources of one kind in their order. -/

namespace PackLint

structure Namespace where
  name : String
  resources : List Resource

namespace Namespace

/-- The namespace with this name that holds nothing yet. -/
def empty (name : String) : Namespace :=
  ⟨name, []⟩

/-- Adds a resource behind the ones of its kind. -/
def push (ns : Namespace) (r : Resource) : Namespace :=
  { ns with resources := ns.resources ++ [r] }

/-- Adds the resource with this text.  A text that is none of its kind is left out,
    so that the rest of the pack can still be checked. -/
def addText (ns : Namespace) (kind : Kind) (id text : String) : Namespace :=
  match Resource.ofText? kind id text with
  | some r => ns.push r
  | none => ns

/-- The resources of a kind. -/
def ofKind (ns : Namespace) (kind : Kind) : List Resource :=
  ns.resources.filter fun r => r.kind == kind

/-- The functions. -/
def functions (ns : Namespace) : List Function :=
  ns.resources.filterMap fun
    | .function f => some f
    | _ => none

/-- The documents of a kind. -/
def documents (ns : Namespace) (kind : DocumentKind) : List Document :=
  ns.resources.filterMap fun
    | .document k d => if k = kind then some d else none
    | _ => none

/-- The tags of a kind. -/
def tags (ns : Namespace) (kind : TagKind) : List Document :=
  ns.resources.filterMap fun
    | .tag k d => if k = kind then some d else none
    | _ => none

end Namespace

/-- A data pack.  The metadata is what `pack.mcmeta` says, and null without it. -/
structure Pack where
  metadata : Json
  namespaces : List Namespace

end PackLint
