import PackLint.Command.Basic
import PackLint.Json.Reader
import PackLint.Json.Writer
import PackLint.Kind
import PackLint.Text.Lines

/-! # Resources

    A resource is a function, a document or a tag, with an id.  A document keeps
    its text beside the value that it denotes, since some checks look at the text;
    a tag is a document of which the entries matter. -/

namespace PackLint

open Text

/-- A function: one command for each line of its text. -/
structure Function where
  id : String
  commands : List Command
deriving DecidableEq, Repr

namespace Function

/-- The commands on these lines, of which the first has this number. -/
def readLines (number : Nat) : List (List Char) → List Command
  | [] => []
  | line :: rest => Command.ofChars number line :: readLines (number + 1) rest

/-- The function with this text. -/
def ofText (id text : String) : Function :=
  ⟨id, readLines 1 (lines text.toList)⟩

/-- All commands of a function: the nested ones stand behind the one that they
    are nested in. -/
def flat (f : Function) : List Command :=
  f.commands.flatMap Command.chain

end Function

/-- A JSON document: its text, and the value that the text denotes. -/
structure Document where
  id : String
  raw : String
  content : Json

namespace Document

/-- The document with this text, if the text is JSON. -/
def ofText? (id text : String) : Option Document :=
  (Json.ofText? text).map fun content => ⟨id, text, content⟩

/-- The document with this content, written without white space. -/
def ofContent (id : String) (content : Json) : Document :=
  ⟨id, content.compact, content⟩

/-- The elements of the list of values of a tag.  Without such a list there are
    none; an array around the list stands for the object. -/
def tagValues : Json → List Json
  | .obj members =>
      match members.lookup "values" with
      | some (.arr values) => values
      | _ => []
  | .arr [.arr values] => values
  | _ => []

/-- The id that a value of a tag names: a string, or the `id` of an object. -/
def tagEntry? : Json → Option String
  | .str id => some id
  | value => (value.member? "id").bind Json.string?

/-- The ids in a tag, in order.  Values that name none are left out. -/
def tagEntries (d : Document) : List String :=
  (tagValues d.content).filterMap tagEntry?

end Document

inductive Resource
  | function (f : Function)
  | document (kind : DocumentKind) (d : Document)
  | tag (kind : TagKind) (d : Document)

namespace Resource

def kind : Resource → Kind
  | function _ => .function
  | document kind _ => .document kind
  | tag kind _ => .tag kind

def id : Resource → String
  | function f => f.id
  | document _ d | tag _ d => d.id

/-- The resource of a kind with this text.  A document or a tag whose text is no
    JSON is none. -/
def ofText? (kind : Kind) (id text : String) : Option Resource :=
  match kind with
  | .function => some (.function (Function.ofText id text))
  | .document kind => (Document.ofText? id text).map (.document kind)
  | .tag kind => (Document.ofText? id text).map (.tag kind)

end Resource

end PackLint
