import PackLint.Text.Path

/-! # File trees

    The files and directories that a data pack is loaded from.  A directory lists
    its entries in any order; `FileTree.files` visits them by name, so what is
    loaded does not depend on it. -/

namespace PackLint

open Text

inductive FileTree
  | file (bytes : ByteArray)
  | directory (entries : List (String × FileTree))
deriving Inhabited

/-- A file of a tree: the directories that lead to it, its name and its bytes. -/
structure FileEntry where
  directories : List String
  name : String
  bytes : ByteArray

/-- The same file seen from one directory further up. -/
def FileEntry.below (directory : String) (f : FileEntry) : FileEntry :=
  { f with directories := directory :: f.directories }

/-- Sorts what is listed by name. -/
def sortByName {α : Type} (entries : List (String × α)) : List (String × α) :=
  entries.mergeSort fun a b => a.1 ≤ b.1

namespace FileTree

def isDirectory : FileTree → Bool
  | directory _ => true
  | file _ => false

/-- The text of a file, if its bytes are UTF-8.  A directory has no text. -/
def text? : FileTree → Option String
  | file bytes => String.fromUTF8? bytes
  | directory _ => none

/-- The entry of a directory with this name. -/
def entry? (name : String) : FileTree → Option FileTree
  | directory entries => entries.lookup name
  | file _ => none

/-- The node behind a path of names. -/
def at? : List String → FileTree → Option FileTree
  | [], tree => some tree
  | name :: rest, tree => (tree.entry? name).bind (at? rest)

mutual

/-- The files below a node that has this name. -/
def filesNamed (name : String) : FileTree → List FileEntry
  | file bytes => [⟨[], name, bytes⟩]
  | directory entries =>
      ((sortByName (filesOfEntries entries)).flatMap (·.2)).map (FileEntry.below name)

/-- The files of each of the entries of a directory. -/
def filesOfEntries : List (String × FileTree) → List (String × List FileEntry)
  | [] => []
  | (name, tree) :: rest => (name, filesNamed name tree) :: filesOfEntries rest

end

/-- The files below a directory at any depth, the entries of each directory in the
    order of their names. -/
def files : FileTree → List FileEntry
  | directory entries => (sortByName (filesOfEntries entries)).flatMap (·.2)
  | file _ => []

/-- Changes the node behind a path of names, with the directories that lead there.
    What is missing on the way is a directory, and a file gives place to one. -/
def update : (path : List String) → (change : FileTree → FileTree) → FileTree → FileTree
  | [], change, tree => change tree
  | name :: rest, change, tree =>
      let entries := match tree with
        | directory entries => entries
        | file _ => []
      let child := (entries.lookup name).getD (directory [])
      directory ((entries.filter fun e => e.1 != name) ++ [(name, update rest change child)])

/-- Writes a file. -/
def writeFile (path : List String) (bytes : ByteArray) : FileTree → FileTree :=
  update path fun _ => file bytes

/-- Makes a directory, unless it is there. -/
def makeDirectory (path : List String) : FileTree → FileTree :=
  update path fun
    | directory entries => directory entries
    | file _ => directory []

/-- The node that pieces of a path lead to, from the directory on top of these.
    Above the tree nothing is to be seen, as in an empty directory. -/
def follow? : (pieces : List (List Char)) → (above : List FileTree) → FileTree → Option FileTree
  | [], _, tree => some tree
  | piece :: rest, above, tree =>
      if !tree.isDirectory then none
      else if piece == [] || piece == ['.'] then follow? rest above tree
      else if piece == ['.', '.'] then
        match above with
        | [] => follow? rest [] (directory [])
        | parent :: above => follow? rest above parent
      else
        match tree.entry? (String.ofList piece) with
        | none => none
        | some child => follow? rest (tree :: above) child

/-- The node that a path leads to from a directory.  A slash at the front leads
    out of the tree. -/
def resolve? (path : String) (tree : FileTree) : Option FileTree :=
  let pieces := pathPieces path.toList
  if path.toList.head? = some '/' then follow? pieces [] (directory [])
  else follow? pieces [] tree

end FileTree

end PackLint
