import PackLint.Kind
import PackLint.Text.Path

/-! # Resource ids and file paths

    The id of a resource is its namespace, a colon, and its path in the directory
    of its kind without the extension.  `pathOf?` leads from an id to the file,
    `ofPath?` from the path of a file to the id. -/

namespace PackLint.ResourceId

open Text

inductive PathError
  /-- An id without a colon has no namespace. -/
  | noColon
  /-- Nothing is left of the path. -/
  | emptyPath
deriving DecidableEq, Repr

def PathError.message : PathError → String
  | noColon => "No colon in resource location"
  | emptyPath => "Empty resource path"

/-- The path of the file of a resource, from the directory of all namespaces. -/
def pathOf? (id : String) (kind : Kind) : Except PathError String :=
  match id.toList.dropWhile (· != ':') with
  | [] => .error .noColon
  | _ :: name =>
      let owner := String.ofList (id.toList.takeWhile (· != ':'))
      .ok (owner ++ "/" ++ kind.directoryText ++ "/" ++ String.ofList name ++ "."
        ++ kind.fileExtension)

/-- The names of a path without the extension of the last one.  Where only a dot
    remains of it, it is a second dot that remains if the path ends there, and
    nothing if something follows; at the front the dot stays. -/
def dropExtension (names : List (List Char)) (last : Bool) : List (List Char) :=
  match names.getLast? with
  | none => []
  | some name =>
      let stem := (splitExtension name).1
      if isDots name then names
      else if stem != ['.'] then names.dropLast ++ [stem]
      else if last then names.dropLast ++ [['.', '.']]
      else if names.dropLast.isEmpty then [['.']]
      else names.dropLast

/-- The id of a resource in a namespace, from the names of its path without the
    extension. -/
def ofNames? (owner : String) (names : List (List Char)) : Except PathError String :=
  if names.isEmpty then .error .emptyPath
  else .ok (owner ++ ":" ++ "/".intercalate (names.map String.ofList))

/-- The id of a resource in a namespace, from the path of its file in the directory
    of its kind. -/
def ofPath? (owner path : String) : Except PathError String :=
  ofNames? owner (dropExtension (pathNames path.toList) (endsInName path.toList))

/-- The id of the resource in a file, from the directories that lead to it and its
    name. -/
def ofFile (owner : String) (directories : List String) (name : String) : String :=
  let names := dropExtension ((directories ++ [name]).map String.toList) true
  owner ++ ":" ++ "/".intercalate (names.map String.ofList)

end PackLint.ResourceId
