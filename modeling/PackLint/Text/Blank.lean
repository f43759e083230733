/-! # Blank characters

    White space as it separates the words of a command: the twenty-five
    characters of the Unicode property `White_Space`.  Beside the class stand the
    three ways of cutting blanks off a text, each a function on its characters. -/

namespace PackLint.Text

/-- The white space of Unicode. -/
def blanks : List Char :=
  ['\t', '\n', '\x0b', '\x0c', '\r', ' ', '\u0085', '\u00a0', '\u1680', '\u2000',
    '\u2001', '\u2002', '\u2003', '\u2004', '\u2005', '\u2006', '\u2007', '\u2008',
    '\u2009', '\u200a', '\u2028', '\u2029', '\u202f', '\u205f', '\u3000']

/-- Whether a character is white space. -/
def isBlank (c : Char) : Bool :=
  blanks.contains c

/-- The text from its first character that is not blank. -/
def skipBlanks (cs : List Char) : List Char :=
  cs.dropWhile isBlank

/-- The text up to its last character that is not blank. -/
def trimRight (cs : List Char) : List Char :=
  cs.foldr (fun c rest => if rest.isEmpty && isBlank c then [] else c :: rest) []

/-- The text without the blanks at both of its ends. -/
def trim (cs : List Char) : List Char :=
  trimRight (skipBlanks cs)

/-- The blanks are those of the table. -/
theorem isBlank_iff {c : Char} : isBlank c = true ↔ c ∈ blanks := by
  simp [isBlank]

@[simp] theorem skipBlanks_nil : skipBlanks [] = [] := rfl

@[simp] theorem trimRight_nil : trimRight [] = [] := rfl

theorem trimRight_cons (c : Char) (cs : List Char) :
    trimRight (c :: cs)
      = if (trimRight cs).isEmpty && isBlank c then [] else c :: trimRight cs := rfl

theorem skipBlanks_length_le (cs : List Char) : (skipBlanks cs).length ≤ cs.length :=
  (List.dropWhile_sublist _).length_le

theorem trimRight_length_le (cs : List Char) : (trimRight cs).length ≤ cs.length := by
  induction cs with
  | nil => exact Nat.le_refl _
  | cons c cs ih =>
      rw [trimRight_cons]
      split
      · exact Nat.zero_le _
      · exact Nat.succ_le_succ ih

theorem trim_length_le (cs : List Char) : (trim cs).length ≤ cs.length :=
  Nat.le_trans (trimRight_length_le _) (skipBlanks_length_le cs)

end PackLint.Text
