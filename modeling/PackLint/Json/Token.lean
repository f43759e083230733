import PackLint.Json.Number
import PackLint.Text.Search

/-! # Tokens of JSON text

    JSON text is a sequence of tokens with spaces, tabs, line feeds and carriage
    returns anywhere between them.  `Token.text` is how a token is written: in a
    string only the quote, the backslash and the control characters below the
    space are escaped, with a short escape where there is one.  `Token.ofText?`
    reads tokens, and there every escape of JSON is understood. -/

namespace PackLint.Json

inductive Token
  | openObject
  | closeObject
  | openArray
  | closeArray
  | colon
  | comma
  | null
  | bool (b : Bool)
  | int (n : Int)
  | float (x : Float)
  | str (s : String)

/-- White space between tokens. -/
def isSpace (c : Char) : Bool :=
  c == ' ' || c == '\t' || c == '\n' || c == '\r'

/-! ## Writing -/

/-- A character as it is written in a string. -/
def escapeChar (c : Char) : List Char :=
  if c = '"' then ['\\', '"']
  else if c = '\\' then ['\\', '\\']
  else if c = '\x08' then ['\\', 'b']
  else if c = '\x0c' then ['\\', 'f']
  else if c = '\n' then ['\\', 'n']
  else if c = '\r' then ['\\', 'r']
  else if c = '\t' then ['\\', 't']
  else if c.toNat < 0x20 then
    ['\\', 'u', '0', '0', Nat.digitChar (c.toNat / 16), Nat.digitChar (c.toNat % 16)]
  else [c]

/-- A string in quotes. -/
def quote (cs : List Char) : List Char :=
  '"' :: cs.flatMap escapeChar ++ ['"']

/-- A token as it is written. -/
def Token.text : Token → List Char
  | openObject => ['{']
  | closeObject => ['}']
  | openArray => ['[']
  | closeArray => [']']
  | colon => [':']
  | comma => [',']
  | null => ['n', 'u', 'l', 'l']
  | bool true => ['t', 'r', 'u', 'e']
  | bool false => ['f', 'a', 'l', 's', 'e']
  | int n => intText n
  | float x => floatText x
  | str s => quote s.toList

/-! ## Reading strings -/

/-- The value of a hexadecimal digit. -/
def hexValue? (c : Char) : Option Nat :=
  if '0' ≤ c ∧ c ≤ '9' then some (c.toNat - 0x30)
  else if 'a' ≤ c ∧ c ≤ 'f' then some (c.toNat - 0x57)
  else if 'A' ≤ c ∧ c ≤ 'F' then some (c.toNat - 0x37)
  else none

/-- The number that four hexadecimal digits denote, and the text behind them. -/
def codeUnit? : List Char → Option (Nat × List Char)
  | a :: b :: c :: d :: cs => do
      let a ← hexValue? a
      let b ← hexValue? b
      let c ← hexValue? c
      let d ← hexValue? d
      pure (((a * 16 + b) * 16 + c) * 16 + d, cs)
  | _ => none

/-- The character that a code unit begins with its successors.  The two halves of
    a pair of surrogates make one character; a half alone is none. -/
def unicodeEscape? (cs : List Char) : Option (Char × List Char) := do
  let (unit, cs) ← codeUnit? cs
  if 0xD800 ≤ unit ∧ unit < 0xDC00 then
    match cs with
    | '\\' :: 'u' :: cs => do
        let (low, cs) ← codeUnit? cs
        if 0xDC00 ≤ low ∧ low < 0xE000 then
          pure (Char.ofNat (0x10000 + (unit - 0xD800) * 0x400 + (low - 0xDC00)), cs)
        else none
    | _ => none
  else if 0xDC00 ≤ unit ∧ unit < 0xE000 then none
  else pure (Char.ofNat unit, cs)

/-- The character that an escape behind its backslash denotes. -/
def escape? : List Char → Option (Char × List Char)
  | '"' :: cs => some ('"', cs)
  | '\\' :: cs => some ('\\', cs)
  | '/' :: cs => some ('/', cs)
  | 'b' :: cs => some ('\x08', cs)
  | 'f' :: cs => some ('\x0c', cs)
  | 'n' :: cs => some ('\n', cs)
  | 'r' :: cs => some ('\r', cs)
  | 't' :: cs => some ('\t', cs)
  | 'u' :: cs => unicodeEscape? cs
  | _ => none

theorem length_of_codeUnit? {cs rest : List Char} {unit : Nat}
    (h : codeUnit? cs = some (unit, rest)) : rest.length < cs.length := by
  unfold codeUnit? at h
  split at h
  · simp only [Option.bind_eq_bind, Option.pure_def, Option.bind_eq_some_iff,
      Option.some.injEq, Prod.mk.injEq] at h
    obtain ⟨_, -, _, -, _, -, _, -, -, rfl⟩ := h
    simp only [List.length_cons]
    omega
  · exact nomatch h

theorem length_of_unicodeEscape? {cs rest : List Char} {c : Char}
    (h : unicodeEscape? cs = some (c, rest)) : rest.length < cs.length := by
  simp only [unicodeEscape?, Option.bind_eq_bind, Option.pure_def] at h
  obtain ⟨⟨unit, cs1⟩, h1, h⟩ := Option.bind_eq_some_iff.mp h
  have l1 := length_of_codeUnit? h1
  simp only at h
  split at h
  · split at h
    · obtain ⟨⟨low, cs2⟩, h2, h⟩ := Option.bind_eq_some_iff.mp h
      have l2 := length_of_codeUnit? h2
      simp only at h
      split at h
      · obtain ⟨-, rfl⟩ := Prod.mk.inj (Option.some.inj h)
        simp only [List.length_cons] at l1
        omega
      · exact nomatch h
    · exact nomatch h
  · split at h
    · exact nomatch h
    · obtain ⟨-, rfl⟩ := Prod.mk.inj (Option.some.inj h)
      exact l1

theorem length_of_escape? {cs rest : List Char} {c : Char}
    (h : escape? cs = some (c, rest)) : rest.length < cs.length := by
  unfold escape? at h
  split at h
  case h_9 => exact Nat.lt_succ_of_lt (length_of_unicodeEscape? h)
  case h_10 => exact nomatch h
  all_goals
    obtain ⟨-, rfl⟩ := Prod.mk.inj (Option.some.inj h)
    exact Nat.lt_succ_self _

/-- The rest of a string up to its closing quote, and the text behind it. -/
def stringRest? : List Char → Option (List Char × List Char)
  | [] => none
  | c :: cs =>
      if c = '"' then some ([], cs)
      else if c = '\\' then
        match _h : escape? cs with
        | none => none
        | some (c, cs) => (stringRest? cs).map fun (s, rest) => (c :: s, rest)
      else if c.toNat < 0x20 then none
      else (stringRest? cs).map fun (s, rest) => (c :: s, rest)
termination_by cs => cs.length
decreasing_by
  · exact Nat.lt_succ_of_lt (length_of_escape? _h)
  · exact Nat.lt_succ_self _

theorem length_of_stringRest? {cs s rest : List Char}
    (h : stringRest? cs = some (s, rest)) : rest.length < cs.length := by
  fun_induction stringRest? cs generalizing s rest with
  | case1 => exact nomatch h
  | case2 =>
      obtain ⟨-, rfl⟩ := Prod.mk.inj (Option.some.inj h)
      exact Nat.lt_succ_self _
  | case3 => exact nomatch h
  | case4 _ _ _ he _ ih =>
      obtain ⟨⟨s', rest'⟩, hs, heq⟩ := Option.map_eq_some_iff.mp h
      obtain ⟨-, rfl⟩ := Prod.mk.inj heq
      have h1 := ih hs
      have h2 := length_of_escape? he
      simp only [List.length_cons]
      omega
  | case5 => exact nomatch h
  | case6 c cs _ _ _ ih =>
      obtain ⟨⟨s', rest'⟩, hs, heq⟩ := Option.map_eq_some_iff.mp h
      obtain ⟨-, rfl⟩ := Prod.mk.inj heq
      exact Nat.lt_succ_of_lt (ih hs)

/-! ## Reading tokens -/

/-- A word with a meaning of its own, and the text behind it. -/
def keyword? (cs : List Char) : Option (Token × List Char) :=
  match cs with
  | 'n' :: 'u' :: 'l' :: 'l' :: rest => some (.null, rest)
  | 't' :: 'r' :: 'u' :: 'e' :: rest => some (.bool true, rest)
  | 'f' :: 'a' :: 'l' :: 's' :: 'e' :: rest => some (.bool false, rest)
  | _ => none

/-- The number that a text begins with, and the text behind it. -/
def number? (cs : List Char) : Option (Token × List Char) :=
  match Numeral.read? cs with
  | none => none
  | some (n, rest) =>
      match n.integer? with
      | some i => some (.int i, rest)
      | none => n.binary?.map fun x => (.float x, rest)

/-- The token that a text begins with, and the text behind it. -/
def token? : List Char → Option (Token × List Char)
  | '{' :: cs => some (.openObject, cs)
  | '}' :: cs => some (.closeObject, cs)
  | '[' :: cs => some (.openArray, cs)
  | ']' :: cs => some (.closeArray, cs)
  | ':' :: cs => some (.colon, cs)
  | ',' :: cs => some (.comma, cs)
  | '"' :: cs => (stringRest? cs).map fun (s, rest) => (.str (String.ofList s), rest)
  | cs => (keyword? cs).or (number? cs)

theorem length_of_keyword? {cs rest : List Char} {t : Token}
    (h : keyword? cs = some (t, rest)) : rest.length < cs.length := by
  unfold keyword? at h
  split at h
  case h_4 => exact nomatch h
  all_goals
    obtain ⟨-, rfl⟩ := Prod.mk.inj (Option.some.inj h)
    simp only [List.length_cons]
    omega

theorem length_of_number? {cs rest : List Char} {t : Token}
    (h : number? cs = some (t, rest)) : rest.length < cs.length := by
  unfold number? at h
  split at h
  · exact nomatch h
  · rename_i n rest' hn
    have hlen := Numeral.length_of_read? hn
    split at h
    · obtain ⟨-, rfl⟩ := Prod.mk.inj (Option.some.inj h)
      exact hlen
    · obtain ⟨x, -, heq⟩ := Option.map_eq_some_iff.mp h
      obtain ⟨-, rfl⟩ := Prod.mk.inj heq
      exact hlen

/-- Reading a token takes characters from the text, so that a text has an end of tokens. -/
theorem length_of_token? {cs rest : List Char} {t : Token}
    (h : token? cs = some (t, rest)) : rest.length < cs.length := by
  unfold token? at h
  split at h
  case h_7 =>
    obtain ⟨⟨s, rest'⟩, hs, heq⟩ := Option.map_eq_some_iff.mp h
    obtain ⟨-, rfl⟩ := Prod.mk.inj heq
    exact Nat.lt_succ_of_lt (length_of_stringRest? hs)
  case h_8 =>
    rcases Option.or_eq_some_iff.mp h with h | ⟨-, h⟩
    · exact length_of_keyword? h
    · exact length_of_number? h
  all_goals
    obtain ⟨-, rfl⟩ := Prod.mk.inj (Option.some.inj h)
    exact Nat.lt_succ_self _

/-- The tokens of a text, if it consists of tokens and spaces. -/
def tokens? : List Char → Option (List Token)
  | [] => some []
  | c :: cs =>
      if isSpace c then tokens? cs
      else
        match _h : token? (c :: cs) with
        | none => none
        | some (t, rest) => (tokens? rest).map (t :: ·)
termination_by cs => cs.length
decreasing_by
  · exact Nat.lt_succ_self _
  · exact length_of_token? _h

end PackLint.Json
