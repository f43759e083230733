/-! # Paths

    A path is text with a slash between its names.  Empty names and single dots
    mean nothing and drop out, save for a dot at the front; a slash at the front
    counts as a name of its own.  The extension of a file name is what stands
    behind its last dot, if something stands before that dot. -/

namespace PackLint.Text

/-- The pieces of a path between its slashes. -/
def pathPieces : List Char → List (List Char)
  | [] => [[]]
  | c :: cs =>
      if c = '/' then [] :: pathPieces cs
      else
        match pathPieces cs with
        | [] => [[c]]
        | piece :: rest => (c :: piece) :: rest

/-- The names that a path consists of. -/
def pathNames (path : List Char) : List (List Char) :=
  let named := (pathPieces path).filter fun piece => piece != [] && piece != ['.']
  if path.head? = some '/' then ['/'] :: named
  else if (pathPieces path).head? = some ['.'] then ['.'] :: named
  else named

/-- The path ends with a name, and not with a slash or a dot behind it. -/
def endsInName (path : List Char) : Bool :=
  match (pathPieces path).getLast? with
  | none => false
  | some piece => piece != [] && piece != ['.']

/-- A name that is no file name: the root and the dots that stand for directories. -/
def isDots (name : List Char) : Bool :=
  name == ['/'] || name == ['.'] || name == ['.', '.']

/-- A file name before its last dot, and what stands behind that dot.  A name with
    nothing before its last dot has no extension. -/
def splitExtension (name : List Char) : List Char × Option (List Char) :=
  let behind := (name.reverse.takeWhile (· != '.')).reverse
  match (name.reverse.dropWhile (· != '.')).drop 1 with
  | [] => (name, none)
  | before => (before.reverse, some behind)

/-- The extension of a file name. -/
def extension? (name : String) : Option String :=
  (splitExtension name.toList).2.map String.ofList

end PackLint.Text
