import PackLint.Json.Token

/-! # Reading JSON

    A value is read token by token.  `State` is what the next token may be, with
    the arrays and objects that are open, from the inside out; `State.next` takes
    a token.  At most 127 of them may be open at a time.  Of the members of one
    name the last is kept. -/

namespace PackLint.Json

/-- An array or object that is open, with what has been read of it. -/
inductive Frame
  /-- The items of an array, the last one first. -/
  | items (read : List Json)
  /-- The members of an object, and the name of the one that is being read. -/
  | members (read : List (String × Json)) (name : String)

/-- The number of arrays and objects that may be open at a time. -/
def maxDepth : Nat := 127

/-- What the next token may be. -/
inductive State
  /-- A value. -/
  | value (stack : List Frame)
  /-- The first item of an array, or its end. -/
  | item (stack : List Frame)
  /-- The first name of an object, or its end. -/
  | member (stack : List Frame)
  /-- The name of a further member. -/
  | name (stack : List Frame) (read : List (String × Json))
  /-- The colon behind a name. -/
  | colon (stack : List Frame) (read : List (String × Json)) (name : String)
  /-- A comma or the end of what is open, behind a value. -/
  | behind (stack : List Frame) (v : Json)

namespace State

/-- A value begins with this token. -/
def begin? (stack : List Frame) : Token → Option State
  | .null => some (.behind stack .null)
  | .bool b => some (.behind stack (.bool b))
  | .int n => some (.behind stack (.int n))
  | .float x => some (.behind stack (.float x))
  | .str s => some (.behind stack (.str s))
  | .openArray => if stack.length < maxDepth then some (.item stack) else none
  | .openObject => if stack.length < maxDepth then some (.member stack) else none
  | _ => none

/-- The state behind a token, if the token may stand here. -/
def next? : State → Token → Option State
  | .value stack, t => begin? stack t
  | .item stack, .closeArray => some (.behind stack (.arr []))
  | .item stack, t => begin? (.items [] :: stack) t
  | .member stack, .closeObject => some (.behind stack (.obj []))
  | .member stack, .str key => some (.colon stack [] key)
  | .name stack read, .str key => some (.colon stack read key)
  | .colon stack read key, .colon => some (.value (.members read key :: stack))
  | .behind (.items read :: stack) v, .comma => some (.value (.items (v :: read) :: stack))
  | .behind (.items read :: stack) v, .closeArray =>
      some (.behind stack (.arr (v :: read).reverse))
  | .behind (.members read key :: stack) v, .comma =>
      some (.name stack (insertMember key v read))
  | .behind (.members read key :: stack) v, .closeObject =>
      some (.behind stack (.obj (insertMember key v read)))
  | _, _ => none

/-- The value that has been read, if nothing is open. -/
def done? : State → Option Json
  | .behind [] v => some v
  | _ => none

end State

/-- The value that a sequence of tokens denotes. -/
def ofTokens? (ts : List Token) : Option Json :=
  (ts.foldlM State.next? (.value [])).bind State.done?

/-- The value that a text denotes. -/
def ofText? (text : String) : Option Json :=
  (tokens? text.toList).bind ofTokens?

end PackLint.Json
