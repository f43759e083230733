import PackLint.Pack.Basic
import PackLint.Pack.FileTree
import PackLint.Resource.Id

/-! # Loading a data pack

    A data pack is a directory with `pack.mcmeta` and a directory `data`, in which
    every directory is a namespace.  A namespace is loaded kind by kind from the
    files of the kind below its directory.  A document that is no JSON is left
    out; a file that is no text at all stops the load. -/

namespace PackLint

open Text

/-- What a file says that stops a load. -/
inductive FileFault
  /-- It cannot be read as text. -/
  | unreadable
  /-- Its text is no JSON. -/
  | invalidJson
deriving DecidableEq, Repr

inductive LoadError
  /-- There is no directory at the path. -/
  | notDirectory (path : String)
  | metadata (fault : FileFault)
  /-- The file of a resource is no text. -/
  | resource (owner : String) (kind : Kind) (id : String)
deriving DecidableEq, Repr

namespace LoadError

/-- What was being done when the load stopped, from the outside in. -/
def steps : LoadError → List String
  | notDirectory path => ["Datapack path " ++ path ++ " is not a directory"]
  | metadata .unreadable => ["Failed to read pack.mcmeta"]
  | metadata .invalidJson => ["Failed to parse pack.mcmeta"]
  | resource owner kind id =>
      ["Failed to load namespace " ++ owner,
        "Failed to read " ++ kind.name ++ " " ++ id]

/-- What was wrong with the file. -/
def fault? : LoadError → Option FileFault
  | notDirectory _ => none
  | metadata fault => some fault
  | resource _ _ _ => some .unreadable

/-- The error in words, with the words that explain a fault. -/
def message (explain : FileFault → String) (e : LoadError) : String :=
  ": ".intercalate (e.steps ++ (e.fault?.map explain).toList)

end LoadError

/-- A file that holds a resource, and the kind of it. -/
structure SourceFile where
  kind : Kind
  entry : FileEntry

namespace SourceFile

/-- The id of the resource in a file. -/
def id (owner : String) (f : SourceFile) : String :=
  ResourceId.ofFile owner f.entry.directories f.entry.name

/-- The text of a file. -/
def text (owner : String) (f : SourceFile) : Except LoadError String :=
  match String.fromUTF8? f.entry.bytes with
  | some text => .ok text
  | none => .error (.resource owner f.kind (f.id owner))

end SourceFile

/-- The files of a kind in the directory of a namespace, in the order in which they
    are loaded. -/
def sourceFiles (tree : FileTree) (kind : Kind) : List SourceFile :=
  match tree.at? kind.directory with
  | none => []
  | some directory =>
      (directory.files.filter fun f => extension? f.name == some kind.fileExtension).map
        fun f => ⟨kind, f⟩

/-- Adds the resource in a file to a namespace. -/
def Namespace.addFile (ns : Namespace) (f : SourceFile) : Except LoadError Namespace := do
  let text ← f.text ns.name
  pure (ns.addText f.kind (f.id ns.name) text)

/-- The namespace in a directory. -/
def Namespace.load (name : String) (tree : FileTree) : Except LoadError Namespace :=
  (Kind.all.flatMap (sourceFiles tree)).foldlM Namespace.addFile (Namespace.empty name)

/-- The directories of the namespaces of a data pack, with their names in order. -/
def namespaceTrees (tree : FileTree) : List (String × FileTree) :=
  match tree.entry? "data" with
  | some (.directory entries) => sortByName (entries.filter fun e => e.2.isDirectory)
  | _ => []

/-- The metadata of a data pack. -/
def loadMetadata (tree : FileTree) : Except LoadError Json :=
  match tree.entry? "pack.mcmeta" with
  | none => .ok .null
  | some node =>
      match node.text? with
      | none => .error (.metadata .unreadable)
      | some text =>
          match Json.ofText? text with
          | none => .error (.metadata .invalidJson)
          | some content => .ok content

/-- The data pack at a path, where this node was found. -/
def Pack.load (path : String) (node : Option FileTree) : Except LoadError Pack :=
  match node with
  | some (.directory entries) => do
      let metadata ← loadMetadata (.directory entries)
      let namespaces ← (namespaceTrees (.directory entries)).mapM fun (name, tree) =>
        Namespace.load name tree
      pure ⟨metadata, namespaces⟩
  | _ => .error (.notDirectory path)

end PackLint
