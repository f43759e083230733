import PackLint.Json.Token

/-! # Writing JSON

    A value is a sequence of tokens.  Its compact text is their texts with nothing
    in between; its pretty text puts every item and every member on a line of its
    own, two spaces further in than the brackets around it. -/

namespace PackLint.Json

mutual

/-- The tokens of a value. -/
def tokens : Json → List Token
  | .null => [.null]
  | .bool b => [.bool b]
  | .int n => [.int n]
  | .float x => [.float x]
  | .str s => [.str s]
  | .arr items => .openArray :: itemTokens items ++ [.closeArray]
  | .obj members => .openObject :: memberTokens members ++ [.closeObject]

/-- The tokens of the items of an array, with the commas between them. -/
def itemTokens : List Json → List Token
  | [] => []
  | [v] => tokens v
  | v :: w :: rest => tokens v ++ .comma :: itemTokens (w :: rest)

/-- The tokens of the members of an object, with the commas between them. -/
def memberTokens : List (String × Json) → List Token
  | [] => []
  | [(name, v)] => .str name :: .colon :: tokens v
  | (name, v) :: m :: rest =>
      .str name :: .colon :: tokens v ++ .comma :: memberTokens (m :: rest)

end

/-- The text of a value without any white space between the tokens. -/
def compact (v : Json) : String :=
  String.ofList (v.tokens.flatMap Token.text)

/-- The end of a line, and the indentation of the next. -/
def newLine (indent : Nat) : List Char :=
  '\n' :: List.replicate (2 * indent) ' '

mutual

/-- The pretty text of a value that stands in lines of this indentation. -/
def prettyText (indent : Nat) : Json → List Char
  | .arr [] => ['[', ']']
  | .arr (v :: rest) => '[' :: prettyItems (indent + 1) (v :: rest) ++ newLine indent ++ [']']
  | .obj [] => ['{', '}']
  | .obj (m :: rest) =>
      '{' :: prettyMembers (indent + 1) (m :: rest) ++ newLine indent ++ ['}']
  | .null => Token.null.text
  | .bool b => (Token.bool b).text
  | .int n => (Token.int n).text
  | .float x => (Token.float x).text
  | .str s => (Token.str s).text

/-- The lines of the items of an array. -/
def prettyItems (indent : Nat) : List Json → List Char
  | [] => []
  | [v] => newLine indent ++ prettyText indent v
  | v :: w :: rest =>
      newLine indent ++ prettyText indent v ++ ',' :: prettyItems indent (w :: rest)

/-- The lines of the members of an object. -/
def prettyMembers (indent : Nat) : List (String × Json) → List Char
  | [] => []
  | [(name, v)] =>
      newLine indent ++ quote name.toList ++ ':' :: ' ' :: prettyText indent v
  | (name, v) :: m :: rest =>
      newLine indent ++ quote name.toList ++ ':' :: ' ' :: prettyText indent v
        ++ ',' :: prettyMembers indent (m :: rest)

end

/-- The text of a value in indented lines. -/
def pretty (v : Json) : String :=
  String.ofList (prettyText 0 v)

end PackLint.Json
