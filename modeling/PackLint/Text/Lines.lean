/-! # Lines of a text

    A line feed ends a line.  Text after the last line feed is a line of its own
    if there is any, so an empty text has no lines and a final line feed opens
    none.  A carriage return stays in its line. -/

namespace PackLint.Text

/-- The lines of a text, without the line feeds that end them. -/
def lines : List Char → List (List Char)
  | [] => []
  | c :: cs =>
      if c = '\n' then [] :: lines cs
      else
        match lines cs with
        | [] => [[c]]
        | line :: rest => (c :: line) :: rest

@[simp] theorem lines_nil : lines [] = [] := rfl

@[simp] theorem lines_lineFeed (cs : List Char) : lines ('\n' :: cs) = [] :: lines cs := rfl

end PackLint.Text
