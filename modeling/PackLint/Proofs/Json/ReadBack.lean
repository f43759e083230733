import Mathlib.Data.List.Chain
import PackLint.Json.Reader
import PackLint.Proofs.Json.Layout
import PackLint.Proofs.Json.Pretty

/-! # Reading pretty text back

    Pretty text consists of the tokens of a value with white space between them.  From any
    such text the tokens are read back one after the other: a string ends at its quote, and
    a number at the white space or the token behind it, since no two numbers of a value
    stand next to each other. -/

namespace PackLint.Json

variable {cs ds rest : List Char} {t : Token} {ts us : List Token}

/-! ## Texts of tokens -/

/-- The text has these tokens, in their order, with white space between them. -/
def IsLayout (cs : List Char) (ts : List Token) : Prop :=
  ∃ gaps, cs = layOut gaps ts

/-- All characters are white space between tokens. -/
def AllSpace (cs : List Char) : Prop :=
  ∀ c ∈ cs, isSpace c = true

/-- A first gap in front of other ones. -/
def Gaps.cons (gap : List Char) (h : AllSpace gap) (gaps : Gaps) : Gaps where
  chars
    | 0 => gap
    | n + 1 => gaps.chars n
  isSpace_of_mem
    | 0 => h
    | n + 1 => gaps.isSpace_of_mem n

/-- White space is the text of no tokens. -/
theorem isLayout_nil_iff : IsLayout cs [] ↔ AllSpace cs := by
  constructor
  · rintro ⟨gaps, rfl⟩
    exact gaps.isSpace_of_mem 0
  · intro h
    exact ⟨.cons cs h .none, rfl⟩

/-- A text begins with a gap and its first token. -/
theorem isLayout_cons_iff :
    IsLayout cs (t :: ts)
      ↔ ∃ gap rest, AllSpace gap ∧ IsLayout rest ts ∧ cs = gap ++ (t.text ++ rest) := by
  constructor
  · rintro ⟨gaps, rfl⟩
    exact ⟨gaps.chars 0, layOut gaps.tail ts, gaps.isSpace_of_mem 0, ⟨gaps.tail, rfl⟩, rfl⟩
  · rintro ⟨gap, _, hgap, ⟨gaps, rfl⟩, rfl⟩
    exact ⟨.cons gap hgap gaps, rfl⟩

namespace IsLayout

/-- White space in front changes no tokens. -/
theorem space_append {gap : List Char} (hgap : AllSpace gap) (h : IsLayout cs ts) :
    IsLayout (gap ++ cs) ts := by
  cases ts with
  | nil =>
      rw [isLayout_nil_iff] at h ⊢
      exact List.forall_mem_append.mpr ⟨hgap, h⟩
  | cons t ts =>
      obtain ⟨first, rest, hfirst, hrest, rfl⟩ := isLayout_cons_iff.mp h
      refine isLayout_cons_iff.mpr ⟨gap ++ first, rest, ?_, hrest, ?_⟩
      · exact List.forall_mem_append.mpr ⟨hgap, hfirst⟩
      · rw [List.append_assoc]

/-- Texts behind each other have their tokens behind each other. -/
theorem append (h : IsLayout cs ts) (h' : IsLayout ds us) : IsLayout (cs ++ ds) (ts ++ us) := by
  induction ts generalizing cs with
  | nil => exact h'.space_append (isLayout_nil_iff.mp h)
  | cons t ts ih =>
      obtain ⟨gap, rest, hgap, hrest, rfl⟩ := isLayout_cons_iff.mp h
      refine isLayout_cons_iff.mpr ⟨gap, rest ++ ds, hgap, ih hrest, ?_⟩
      rw [List.append_assoc, List.append_assoc]

/-- A token in front of a text. -/
theorem text_append (t : Token) (h : IsLayout cs ts) : IsLayout (t.text ++ cs) (t :: ts) :=
  isLayout_cons_iff.mpr ⟨[], cs, List.forall_mem_nil _, h, rfl⟩

/-- White space behind changes no tokens. -/
theorem append_space {gap : List Char} (h : IsLayout cs ts) (hgap : AllSpace gap) :
    IsLayout (cs ++ gap) ts := by
  have happend := h.append (isLayout_nil_iff.mpr hgap)
  rwa [List.append_nil] at happend

end IsLayout

/-- A token is the text of itself. -/
theorem isLayout_text (t : Token) : IsLayout t.text [t] := by
  have h : IsLayout (t.text ++ []) [t] := .text_append t (isLayout_nil_iff.mpr (List.forall_mem_nil _))
  rwa [List.append_nil] at h

/-- The end of a line is white space, with the indentation of the next. -/
theorem allSpace_newLine (indent : Nat) : AllSpace (newLine indent) := by
  refine List.forall_mem_cons.mpr ⟨rfl, ?_⟩
  intro c hc
  rw [List.eq_of_mem_replicate hc]
  rfl

/-- What brackets and the lines between them are the text of. -/
theorem isLayout_brackets (left right : Token) (indent : Nat) (h : IsLayout cs ts) :
    IsLayout (left.text ++ (cs ++ (newLine indent ++ right.text))) (left :: ts ++ [right]) :=
  .text_append left (h.append ((isLayout_text right).space_append (allSpace_newLine indent)))

/-- A member in its line is the text of its name, a colon and its value. -/
theorem isLayout_member (indent : Nat) (name : String) (h : IsLayout cs ts) :
    IsLayout (newLine indent ++ (quote name.toList ++ ':' :: ' ' :: cs))
      (.str name :: .colon :: ts) := by
  have hspace : IsLayout (' ' :: cs) ts :=
    h.space_append (List.forall_mem_singleton.mpr rfl : AllSpace [' '])
  have hcolon : IsLayout (':' :: ' ' :: cs) (.colon :: ts) := .text_append .colon hspace
  exact (IsLayout.text_append (.str name) hcolon).space_append (allSpace_newLine indent)

-- The three statements follow the three functions that write pretty text.
mutual

/-- **Pretty text consists of the tokens of its value**, with white space between them. -/
theorem isLayout_prettyText (indent : Nat) : ∀ v : Json, IsLayout (prettyText indent v) v.tokens
  | .null => isLayout_text .null
  | .bool b => isLayout_text (.bool b)
  | .int n => isLayout_text (.int n)
  | .float x => isLayout_text (.float x)
  | .str s => isLayout_text (.str s)
  | .arr [] => .text_append .openArray (isLayout_text .closeArray)
  | .obj [] => .text_append .openObject (isLayout_text .closeObject)
  | .arr (v :: vs) => by
      have h := isLayout_brackets .openArray .closeArray indent
        (isLayout_prettyItems (indent + 1) (v :: vs))
      simpa only [prettyText, tokens, Token.text, List.cons_append, List.nil_append,
        List.append_assoc] using h
  | .obj (m :: ms) => by
      have h := isLayout_brackets .openObject .closeObject indent
        (isLayout_prettyMembers (indent + 1) (m :: ms))
      simpa only [prettyText, tokens, Token.text, List.cons_append, List.nil_append,
        List.append_assoc] using h

/-- The lines of the items lay out their tokens, commas included. -/
theorem isLayout_prettyItems (indent : Nat) :
    ∀ items : List Json, IsLayout (prettyItems indent items) (itemTokens items)
  | [] => isLayout_nil_iff.mpr (List.forall_mem_nil _)
  | [v] => (isLayout_prettyText indent v).space_append (allSpace_newLine indent)
  | v :: w :: rest => by
      have hline := (isLayout_prettyText indent v).space_append (allSpace_newLine indent)
      exact hline.append (.text_append .comma (isLayout_prettyItems indent (w :: rest)))

/-- The lines of the members lay out their tokens, commas included. -/
theorem isLayout_prettyMembers (indent : Nat) :
    ∀ members : List (String × Json),
      IsLayout (prettyMembers indent members) (memberTokens members)
  | [] => isLayout_nil_iff.mpr (List.forall_mem_nil _)
  | [(name, v)] => by
      have h := isLayout_member indent name (isLayout_prettyText indent v)
      rwa [← List.append_assoc] at h
  | (name, v) :: m :: rest => by
      have hline := isLayout_member indent name (isLayout_prettyText indent v)
      rw [← List.append_assoc] at hline
      exact hline.append (.text_append .comma (isLayout_prettyMembers indent (m :: rest)))

end

/-! ## Reading numerals -/

/-- No character follows that would go on with a numeral. -/
def EndsNumeral (cs : List Char) : Prop :=
  ∀ c ∈ cs.head?, c.isDigit = false ∧ c ≠ '.' ∧ c ≠ 'e' ∧ c ≠ 'E'

theorem endsNumeral_nil : EndsNumeral [] := by
  intro c hc
  cases hc

/-- A numeral ends in front of any character that could not continue one. -/
theorem endsNumeral_cons {c : Char} (h : c.isDigit = false ∧ c ≠ '.' ∧ c ≠ 'e' ∧ c ≠ 'E') :
    EndsNumeral (c :: cs) := by
  intro d hd
  obtain rfl : c = d := Option.some.inj hd
  exact h

/-- In front of what ends a numeral no digit is left out. -/
theorem EndsNumeral.endsNumber (h : EndsNumeral cs) : EndsNumber cs :=
  fun c hc => (h c hc).1

/-- Only zero is written with a zero in front. -/
theorem head?_toDigits_ne_zero {n : Nat} (h : n ≠ 0) : (Nat.toDigits 10 n).head? ≠ some '0' := by
  induction n using Nat.strong_induction_on with
  | _ n ih =>
      rcases Nat.lt_or_ge n 10 with hlt | hge
      · rw [Nat.toDigits_of_lt_base hlt]
        have hall : ∀ k < 10, k ≠ 0 → Nat.digitChar k ≠ '0' := by
          decide
        exact fun heq => hall n hlt h (Option.some.inj heq)
      · have hquotient := ih (n / 10) (by omega) (by omega)
        rw [Nat.toDigits_of_base_le (by decide) hge]
        obtain ⟨c, cs, hcs, _⟩ := exists_toDigits_eq_cons (n / 10)
        rw [hcs] at hquotient ⊢
        exact hquotient

namespace Numeral

/-- The digits of a number are read back in front of what ends a number. -/
theorem digits?_toDigits_append (n : Nat) (h : EndsNumber rest) :
    digits? (Nat.toDigits 10 n ++ rest) = some (Nat.toDigits 10 n, rest) := by
  have htake := takeWhile_isDigit_toDigits_append n h
  have hdrop : (Nat.toDigits 10 n ++ rest).dropWhile Char.isDigit = rest := by
    have hwhole := List.takeWhile_append_dropWhile (p := Char.isDigit) (l := Nat.toDigits 10 n ++ rest)
    rw [htake] at hwhole
    exact List.append_cancel_left hwhole
  obtain ⟨c, cs, hcs, _⟩ := exists_toDigits_eq_cons n
  rw [digits?, htake, hdrop, hcs]

/-- They are read as a whole number, as no number but zero begins with a zero. -/
theorem whole?_toDigits_append (n : Nat) (h : EndsNumber rest) :
    whole? (Nat.toDigits 10 n ++ rest) = some (Nat.toDigits 10 n, rest) := by
  by_cases hn : n = 0
  · subst hn
    rfl
  · have hread := digits?_toDigits_append n h
    have hhead := head?_toDigits_ne_zero hn
    obtain ⟨c, cs, hcs, _⟩ := exists_toDigits_eq_cons n
    rw [hcs] at hread hhead ⊢
    rw [List.cons_append] at hread ⊢
    unfold whole?
    split
    · rename_i heq
      exact absurd (congrArg some (List.cons.inj heq).1) hhead
    · exact hread

/-- No fraction is read where a numeral ends. -/
theorem fraction?_of_endsNumeral (h : EndsNumeral cs) : fraction? cs = some (none, cs) := by
  unfold fraction?
  split
  · exact absurd rfl (h '.' rfl).2.1
  · rfl

/-- No exponent is read where a numeral ends. -/
theorem exponent?_of_endsNumeral (h : EndsNumeral cs) : exponent? cs = some (none, cs) := by
  unfold exponent?
  split
  · exact absurd rfl (h 'e' rfl).2.2.1
  · exact absurd rfl (h 'E' rfl).2.2.2
  · rfl

/-- An integer is read back as a numeral without fraction and exponent. -/
theorem read?_intText_append (n : Int) (h : EndsNumeral rest) :
    read? (intText n ++ rest)
      = some (⟨decide (n < 0), Nat.toDigits 10 n.natAbs, none, none⟩, rest) := by
  have hrest : ∀ negative, (whole? (Nat.toDigits 10 n.natAbs ++ rest)).bind (fun p =>
      (fraction? p.2).bind fun q => (exponent? q.2).bind fun r =>
        some (Numeral.mk negative p.1 q.1 r.1, r.2))
      = some (⟨negative, Nat.toDigits 10 n.natAbs, none, none⟩, rest) := by
    intro negative
    rw [whole?_toDigits_append _ h.endsNumber, Option.bind_some, fraction?_of_endsNumeral h,
      Option.bind_some, exponent?_of_endsNumeral h, Option.bind_some]
  by_cases hn : n < 0
  · rw [intText, if_pos hn, List.cons_append, decide_eq_true hn]
    exact hrest true
  · obtain ⟨c, cs, hcs, hc⟩ := exists_toDigits_eq_cons n.natAbs
    have hsign : c ≠ '-' := by
      rintro rfl
      exact absurd hc (by decide)
    rw [intText, if_neg hn, decide_eq_false hn]
    have hread := hrest false
    rw [hcs, List.cons_append] at hread ⊢
    unfold read?
    split
    rename_i hparts
    split at hparts
    · rename_i heq
      exact absurd (List.cons.inj heq).1 hsign
    · obtain ⟨rfl, rfl⟩ := Prod.mk.inj hparts
      exact hread

/-- The digits of a number denote it. -/
theorem value_toDigits (n : Nat) : value (Nat.toDigits 10 n) = n :=
  Nat.ofDigitChars_ten_toDigits

end Numeral

/-! ## Reading tokens -/

/-- The token is read back from its text: an integer if it fits 64 bits, a binary fraction
    perhaps as another one. -/
def Token.IsExact : Token → Prop
  | .int n => -(Nat.pow 2 63 : Int) ≤ n ∧ n < (Nat.pow 2 64 : Int)
  | .float _ => False
  | _ => True

def Token.isNumber : Token → Bool
  | .int _ | .float _ => true
  | _ => false

/-- An integer of 64 bits is read back as a token. -/
theorem number?_intText_append {n : Int} (hn : (Token.int n).IsExact) (h : EndsNumeral rest) :
    number? (intText n ++ rest) = some (.int n, rest) := by
  have hinteger : (Numeral.mk (decide (n < 0)) (Nat.toDigits 10 n.natAbs) none none).integer?
      = some n := by
    obtain ⟨hlow, hhigh⟩ := hn
    simp only [Numeral.integer?, Option.isSome_none, Bool.or_false, Bool.false_eq_true, if_false,
      Numeral.value_toDigits, decide_eq_true_eq]
    by_cases hneg : n < 0
    · rw [if_pos hneg, if_pos (by omega)]
      congr 1
      omega
    · rw [if_neg hneg, if_pos (by omega)]
      congr 1
      omega
  simp only [number?, Numeral.read?_intText_append n h, hinteger]

/-- A text that begins with a digit or a sign begins with a number, if with a token. -/
theorem token?_cons_of_isNumeral {c : Char} (hc : c = '-' ∨ c.isDigit = true) (cs : List Char) :
    token? (c :: cs) = number? (c :: cs) := by
  have hne : ∀ d : Char, d ≠ '-' → d.isDigit = false → c ≠ d := by
    rintro d hsign hdigit rfl
    exact hc.elim hsign fun h => Bool.false_ne_true (hdigit.symm.trans h)
  have hkeyword : keyword? (c :: cs) = none := by
    unfold keyword?
    split
    case h_4 => rfl
    all_goals
      rename_i heq
      exact absurd (List.cons.inj heq).1 (hne _ (by decide) rfl)
  unfold token?
  split
  case h_8 => rw [hkeyword, Option.none_or]
  all_goals
    rename_i heq
    exact absurd (List.cons.inj heq).1 (hne _ (by decide) rfl)

/-- An integer begins with a digit or a sign. -/
theorem exists_intText_eq_cons (n : Int) :
    ∃ c cs, intText n = c :: cs ∧ (c = '-' ∨ c.isDigit = true) := by
  rw [intText]
  split
  · exact ⟨'-', _, rfl, .inl rfl⟩
  · obtain ⟨c, cs, hcs, hc⟩ := exists_toDigits_eq_cons n.natAbs
    exact ⟨c, cs, hcs, .inr hc⟩

/-- **A token is read back from its text**, whatever follows that is not a part of it. -/
theorem token?_text_append (ht : t.IsExact) (h : t.isNumber = true → EndsNumeral rest) :
    token? (t.text ++ rest) = some (t, rest) := by
  cases t with
  | openObject => rfl
  | closeObject => rfl
  | openArray => rfl
  | closeArray => rfl
  | colon => rfl
  | comma => rfl
  | null => rfl
  | bool b => cases b <;> rfl
  | float x => exact ht.elim
  | int n =>
      obtain ⟨c, cs, hcs, hc⟩ := exists_intText_eq_cons n
      have hread := number?_intText_append ht (h rfl)
      show token? (intText n ++ rest) = _
      rw [hcs, List.cons_append] at hread ⊢
      rw [token?_cons_of_isNumeral hc, hread]
  | str s =>
      show (stringRest? (s.toList.flatMap escapeChar ++ ['"'] ++ rest)).map _ = _
      rw [List.append_assoc, List.singleton_append, stringRest?_escape_append]
      show some (Token.str (String.ofList s.toList), rest) = _
      rw [String.ofList_toList]

/-- White space in front of tokens is passed over. -/
theorem tokens?_space_append {gap : List Char} (hgap : AllSpace gap) (cs : List Char) :
    tokens? (gap ++ cs) = tokens? cs := by
  induction gap with
  | nil => rfl
  | cons c gap ih =>
      obtain ⟨hc, hgap⟩ := List.forall_mem_cons.mp hgap
      rw [List.cons_append, tokens?, if_pos hc, ih hgap]

/-- The text of a token begins with no space. -/
theorem isSpace_eq_false_of_text_eq_cons {c : Char} (h : t.text = c :: cs) : isSpace c = false := by
  have hsolid := t.written_text.startsSolid_append []
  rw [h] at hsolid
  refine Bool.eq_false_iff.mpr ?_
  intro hspace
  exact absurd (isBlank_of_isSpace hspace) (by simpa [Text.startsSolid_cons] using hsolid)

/-- A token in front of others is read first. -/
theorem tokens?_text_append (ht : t.IsExact) (h : t.isNumber = true → EndsNumeral rest) :
    tokens? (t.text ++ rest) = (tokens? rest).map (t :: ·) := by
  obtain ⟨c, cs, hcs, _⟩ := t.written_text.exists_eq_cons
  have hread := token?_text_append ht h
  rw [hcs, List.cons_append] at hread ⊢
  rw [tokens?, if_neg (Bool.eq_false_iff.mp (isSpace_eq_false_of_text_eq_cons hcs))]
  split
  · rename_i hnone
    rw [hread] at hnone
    cases hnone
  · rename_i hsome
    rw [hread] at hsome
    obtain ⟨rfl, rfl⟩ := Prod.mk.inj (Option.some.inj hsome)
    rfl

/-- White space ends a numeral, and so does what would end it without the space. -/
theorem EndsNumeral.space_append {gap : List Char} (hgap : AllSpace gap) (h : EndsNumeral cs) :
    EndsNumeral (gap ++ cs) := by
  cases gap with
  | nil => exact h
  | cons c gap =>
      have hc : isSpace c = true := hgap c List.mem_cons_self
      refine endsNumeral_cons ?_
      simp only [isSpace, Bool.or_eq_true, beq_iff_eq] at hc
      rcases hc with ((rfl | rfl) | rfl) | rfl <;> decide

/-- A token of another kind does not go on with a numeral. -/
theorem endsNumeral_text_append (h : t.isNumber = false) (rest : List Char) :
    EndsNumeral (t.text ++ rest) := by
  cases t with
  | int n => cases h
  | float x => cases h
  | bool b => cases b <;> exact endsNumeral_cons (by decide)
  | _ => exact endsNumeral_cons (by decide)

/-- A numeral ends in front of white space and of tokens of other kinds. -/
theorem IsLayout.endsNumeral (h : IsLayout cs ts) (hts : ∀ t ∈ ts.head?, t.isNumber = false) :
    EndsNumeral cs := by
  cases ts with
  | nil =>
      have hspace := endsNumeral_nil.space_append (isLayout_nil_iff.mp h)
      rwa [List.append_nil] at hspace
  | cons t ts =>
      obtain ⟨gap, rest, hgap, _, rfl⟩ := isLayout_cons_iff.mp h
      exact (endsNumeral_text_append (hts t rfl) rest).space_append hgap

/-- Of two tokens next to each other one is no number. -/
def Token.Parted (t u : Token) : Prop :=
  t.isNumber = true → u.isNumber = false

/-- **Tokens are read back from any text of them** in which no two numbers stand next to each
    other. -/
theorem IsLayout.tokens?_eq (h : IsLayout cs ts) (hexact : ∀ t ∈ ts, t.IsExact)
    (hparted : ts.IsChain Token.Parted) : tokens? cs = some ts := by
  induction ts generalizing cs with
  | nil =>
      have hspace := tokens?_space_append (isLayout_nil_iff.mp h) []
      rwa [List.append_nil, tokens?] at hspace
  | cons t ts ih =>
      obtain ⟨gap, rest, hgap, hrest, rfl⟩ := isLayout_cons_iff.mp h
      obtain ⟨ht, hts⟩ := List.forall_mem_cons.mp hexact
      obtain ⟨hnext, hparted⟩ := List.isChain_cons.mp hparted
      have hends : t.isNumber = true → EndsNumeral rest := fun hnumber =>
        hrest.endsNumeral fun u hu => hnext u hu hnumber
      rw [tokens?_space_append hgap, tokens?_text_append ht hends, ih hrest hts hparted]
      rfl

/-! ## Numbers in values -/

/-- Between brackets the tokens stay parted. -/
theorem isChain_brackets {left right : Token} (hleft : left.isNumber = false)
    (hright : right.isNumber = false) (h : ts.IsChain Token.Parted) :
    (left :: ts ++ [right]).IsChain Token.Parted := by
  rw [List.cons_append, List.isChain_cons, List.isChain_append]
  refine ⟨fun _ _ hnumber => ?_, h, List.isChain_singleton _, ?_⟩
  · exact absurd (hleft.symm.trans hnumber) Bool.false_ne_true
  · intro t _ u hu _
    obtain rfl : right = u := Option.some.inj hu
    exact hright

/-- A comma parts what stands on its sides. -/
theorem isChain_append_comma (h : ts.IsChain Token.Parted) (h' : us.IsChain Token.Parted) :
    (ts ++ .comma :: us).IsChain Token.Parted := by
  rw [List.isChain_append, List.isChain_cons]
  refine ⟨h, ⟨fun _ _ => nofun, h'⟩, ?_⟩
  intro t _ u hu _
  obtain rfl : Token.comma = u := Option.some.inj hu
  rfl

/-- Behind a name and a colon the tokens stay parted. -/
theorem isChain_member (name : String) (h : ts.IsChain Token.Parted) :
    (.str name :: .colon :: ts).IsChain Token.Parted := by
  rw [List.isChain_cons_cons, List.isChain_cons]
  exact ⟨nofun, fun _ _ => nofun, h⟩

-- The three statements follow the three functions that list the tokens.
mutual

/-- No two numbers of a value stand next to each other. -/
theorem isChain_tokens : ∀ v : Json, v.tokens.IsChain Token.Parted
  | .null | .bool _ | .int _ | .float _ | .str _ => List.isChain_singleton _
  | .arr items => isChain_brackets rfl rfl (isChain_itemTokens items)
  | .obj members => isChain_brackets rfl rfl (isChain_memberTokens members)

/-- The same for items, which commas part. -/
theorem isChain_itemTokens : ∀ items : List Json, (itemTokens items).IsChain Token.Parted
  | [] => List.isChain_nil
  | [v] => isChain_tokens v
  | v :: w :: rest => isChain_append_comma (isChain_tokens v) (isChain_itemTokens (w :: rest))

/-- The same for members, which commas part. -/
theorem isChain_memberTokens :
    ∀ members : List (String × Json), (memberTokens members).IsChain Token.Parted
  | [] => List.isChain_nil
  | [(name, v)] => isChain_member name (isChain_tokens v)
  | (name, v) :: m :: rest =>
      isChain_append_comma (isChain_member name (isChain_tokens v))
        (isChain_memberTokens (m :: rest))

end

/-- All numbers of the value are like this. -/
def AllNumbers (p : Token → Prop) (v : Json) : Prop :=
  ∀ t ∈ v.tokens, t.isNumber = true → p t

section AllNumbers

variable {p : Token → Prop} {u v : Json}

/-- A string has no numbers. -/
theorem allNumbers_str (s : String) : AllNumbers p (.str s) := by
  intro t ht hnumber
  obtain rfl := List.mem_singleton.mp ht
  cases hnumber

/-- The only number of an integer is the integer. -/
theorem allNumbers_int {n : Int} (h : p (.int n)) : AllNumbers p (.int n) := by
  intro t ht _
  obtain rfl := List.mem_singleton.mp ht
  exact h

/-- Brackets around tokens are no numbers. -/
theorem allNumbers_brackets {left right : Token} (hleft : left.isNumber = false)
    (hright : right.isNumber = false) (h : ∀ t ∈ ts, t.isNumber = true → p t) :
    ∀ t ∈ left :: ts ++ [right], t.isNumber = true → p t := by
  have hno : ∀ {t : Token}, t.isNumber = false → t.isNumber = true → p t :=
    fun hfalse htrue => absurd (hfalse.symm.trans htrue) Bool.false_ne_true
  rw [List.cons_append, List.forall_mem_cons, List.forall_mem_append, List.forall_mem_singleton]
  exact ⟨hno hleft, h, hno hright⟩

/-- The numbers of an array are those of its items. -/
theorem allNumbers_arr {items : List Json} (h : ∀ v ∈ items, v.AllNumbers p) :
    AllNumbers p (.arr items) := by
  refine allNumbers_brackets rfl rfl ?_
  induction items with
  | nil => exact List.forall_mem_nil _
  | cons v rest ih =>
      obtain ⟨hv, hrest⟩ := List.forall_mem_cons.mp h
      cases rest with
      | nil => exact hv
      | cons w rest =>
          exact List.forall_mem_append.mpr ⟨hv, List.forall_mem_cons.mpr ⟨nofun, ih hrest⟩⟩

/-- The numbers of an object are those of its members. -/
theorem allNumbers_obj {members : List (String × Json)} (h : ∀ m ∈ members, m.2.AllNumbers p) :
    AllNumbers p (.obj members) := by
  refine allNumbers_brackets rfl rfl ?_
  induction members with
  | nil => exact List.forall_mem_nil _
  | cons m rest ih =>
      obtain ⟨name, v⟩ := m
      obtain ⟨hv, hrest⟩ := List.forall_mem_cons.mp h
      have hmember : ∀ t ∈ Token.str name :: Token.colon :: v.tokens, t.isNumber = true → p t :=
        List.forall_mem_cons.mpr ⟨nofun, List.forall_mem_cons.mpr ⟨nofun, hv⟩⟩
      cases rest with
      | nil => exact hmember
      | cons w rest =>
          exact List.forall_mem_append.mpr ⟨hmember, List.forall_mem_cons.mpr ⟨nofun, ih hrest⟩⟩

/-- What is in an item is in the array. -/
theorem tokens_subset_itemTokens {items : List Json} (h : v ∈ items) :
    v.tokens ⊆ itemTokens items := by
  intro t ht
  induction items with
  | nil => cases h
  | cons w rest ih =>
      cases rest with
      | nil =>
          obtain rfl := List.mem_singleton.mp h
          exact ht
      | cons w' rest =>
          rcases List.mem_cons.mp h with rfl | h
          · exact List.mem_append_left _ ht
          · exact List.mem_append_right _ (List.mem_cons_of_mem _ (ih h))

/-- What is in a member is in the object. -/
theorem tokens_subset_memberTokens {members : List (String × Json)} {m : String × Json}
    (h : m ∈ members) : m.2.tokens ⊆ memberTokens members := by
  intro t ht
  induction members with
  | nil => cases h
  | cons n rest ih =>
      obtain ⟨name, w⟩ := n
      cases rest with
      | nil =>
          obtain rfl := List.mem_singleton.mp h
          exact List.mem_cons_of_mem _ (List.mem_cons_of_mem _ ht)
      | cons n' rest =>
          rcases List.mem_cons.mp h with rfl | h
          · exact List.mem_append_left _ (List.mem_cons_of_mem _ (List.mem_cons_of_mem _ ht))
          · exact List.mem_append_right _ (List.mem_cons_of_mem _ (ih h))

/-- What occurs in a value has its tokens in it. -/
theorem Occurs.tokens_subset (h : Occurs u v) : u.tokens ⊆ v.tokens := by
  induction h with
  | here => exact List.Subset.refl _
  | item hmem _ ih =>
      intro t ht
      exact List.mem_cons_of_mem _
        (List.mem_append_left _ (tokens_subset_itemTokens hmem (ih ht)))
  | member hmem _ ih =>
      intro t ht
      exact List.mem_cons_of_mem _
        (List.mem_append_left _ (tokens_subset_memberTokens hmem (ih ht)))

/-- A value of which no number is a binary fraction has none at any depth. -/
theorem AllNumbers.floatless (h : v.AllNumbers fun t => ∀ x, t ≠ .float x) : Floatless v := by
  intro x hx
  exact h (.float x) (hx.tokens_subset (List.mem_singleton_self _)) rfl x rfl

/-- **The tokens of a value are read back** from any text of them. -/
theorem AllNumbers.tokens?_eq (h : v.AllNumbers Token.IsExact) (hlayout : IsLayout cs v.tokens) :
    tokens? cs = some v.tokens := by
  refine hlayout.tokens?_eq ?_ (isChain_tokens v)
  intro t ht
  cases t with
  | int n => exact h _ ht rfl
  | float x => exact h _ ht rfl
  | _ => trivial

end AllNumbers

end PackLint.Json
