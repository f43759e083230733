import PackLint.Text.Blank

/-! # Tokens of a command

    A command is cut into tokens at its blanks.  A quoted string and bracketed
    data stay in one token, blanks and all: a double quote opens a string
    anywhere, a single quote only inside brackets or as the first character of a
    token, so that the apostrophe of a plain word opens none.  Brackets nest, and
    either closing bracket closes either opening one; a closing bracket too many
    is an ordinary character.  What is left open runs to the end of the text.

    `Token.scan` is the whole of it: from the state in front of a token it splits
    the text into that token and the rest. -/

namespace PackLint

open Text

/-- A token of a command and where it begins, counted in bytes of UTF-8. -/
structure Token where
  offset : Nat
  text : String
deriving DecidableEq, Repr, Inhabited

namespace Token

/-- How the next character of a token is read. -/
inductive Mode
  /-- Outside of any string. -/
  | plain
  /-- In a string that this quote closes. -/
  | quoted (quote : Char)
  /-- In such a string, behind a backslash. -/
  | escaped (quote : Char)
deriving DecidableEq, Repr

/-- What has been opened and not yet closed within a token. -/
structure Nesting where
  mode : Mode
  depth : Nat
deriving DecidableEq, Repr

/-- Nothing is open. -/
def Nesting.none : Nesting := ⟨.plain, 0⟩

/-- The nesting behind a character, where `first` tells whether the token begins
    with it. -/
def Nesting.next (n : Nesting) (first : Bool) (c : Char) : Nesting :=
  match n.mode with
  | .escaped quote => ⟨.quoted quote, n.depth⟩
  | .quoted quote =>
      if c = '\\' then ⟨.escaped quote, n.depth⟩
      else if c = quote then ⟨.plain, n.depth⟩
      else n
  | .plain =>
      if c = '"' then ⟨.quoted c, n.depth⟩
      else if c = '\'' then
        if first || n.depth != 0 then ⟨.quoted c, n.depth⟩ else n
      else if c = '{' || c = '[' then ⟨.plain, n.depth + 1⟩
      else if c = '}' || c = ']' then ⟨.plain, n.depth - 1⟩
      else n

/-- A blank ends the token here. -/
def Nesting.ends (n : Nesting) (c : Char) : Bool :=
  n == .none && isBlank c

/-- The rest of a token, and the text behind it. -/
def scan (n : Nesting) : List Char → List Char × List Char
  | [] => ([], [])
  | c :: cs =>
      if n.ends c then ([], c :: cs)
      else
        let (token, rest) := scan (n.next false c) cs
        (c :: token, rest)

/-- The length of a text in bytes of UTF-8. -/
def byteLength (cs : List Char) : Nat :=
  cs.foldr (fun c n => c.utf8Size + n) 0

/-- A token and the text behind it are all of the text. -/
theorem scan_append (n : Nesting) (cs : List Char) :
    (scan n cs).1 ++ (scan n cs).2 = cs := by
  induction cs generalizing n with
  | nil => rfl
  | cons c cs ih =>
      rw [scan]
      split
      · rfl
      · exact congrArg (c :: ·) (ih _)

/-- What a scan leaves is no longer than the text. -/
theorem scan_rest_length_le (n : Nesting) (cs : List Char) :
    (scan n cs).2.length ≤ cs.length := by
  have h := congrArg List.length (scan_append n cs)
  rw [List.length_append] at h
  omega

/-- The tokens of a text that begins at this offset. -/
def ofChars (offset : Nat) : List Char → List Token
  | [] => []
  | c :: cs =>
      if isBlank c then ofChars (offset + c.utf8Size) cs
      else
        let parts := scan (Nesting.none.next true c) cs
        ⟨offset, String.ofList (c :: parts.1)⟩
          :: ofChars (offset + byteLength (c :: parts.1)) parts.2
termination_by cs => cs.length
decreasing_by
  · exact Nat.lt_succ_self _
  · exact Nat.lt_succ_of_le (scan_rest_length_le _ _)

/-- The tokens of a text. -/
def ofText (text : String) : List Token :=
  ofChars 0 text.toList

@[simp] theorem ofChars_nil (offset : Nat) : ofChars offset [] = [] := by
  rw [ofChars]

@[simp] theorem byteLength_cons (c : Char) (cs : List Char) :
    byteLength (c :: cs) = c.utf8Size + byteLength cs := rfl

/-- No token begins before the text. -/
theorem le_offset_of_mem {offset : Nat} {cs : List Char} {t : Token}
    (h : t ∈ ofChars offset cs) : offset ≤ t.offset := by
  fun_induction ofChars offset cs with
  | case1 => exact nomatch h
  | case2 offset c cs _ ih => exact Nat.le_trans (Nat.le_add_right _ _) (ih h)
  | case3 offset c cs _ parts ih =>
      rcases List.mem_cons.mp h with rfl | h
      · exact Nat.le_refl _
      · exact Nat.le_trans (Nat.le_add_right _ _) (ih h)

/-- A token behind the first begins after the text does. -/
theorem lt_offset_of_mem_tail {offset : Nat} {cs : List Char} {t first : Token}
    {rest : List Token} (h : ofChars offset cs = first :: rest) (ht : t ∈ rest) :
    offset < t.offset := by
  fun_induction ofChars offset cs with
  | case1 => exact nomatch h
  | case2 offset c cs _ ih => exact Nat.lt_of_le_of_lt (Nat.le_add_right _ _) (ih h)
  | case3 offset c cs _ parts ih =>
      obtain ⟨-, rfl⟩ := List.cons.inj h
      have h1 := le_offset_of_mem ht
      have h2 := c.utf8Size_pos
      rw [byteLength_cons] at h1
      omega

end Token

end PackLint
