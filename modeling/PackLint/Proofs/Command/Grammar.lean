import PackLint.Proofs.Command.Token

/-! # The grammar of tokens

    A token that leaves nothing open is a sequence of pieces: plain characters, strings,
    and groups in brackets, which nest.  `IsWord` is this grammar, said without the
    scanner.  Words with blanks between them are read back as they are, each with its
    place in the text. -/

namespace PackLint.Token

open Text

/-! ## Words -/

abbrev IsOpening (c : Char) : Prop := c = '{' ∨ c = '['

/-- Either closing bracket closes either opening one. -/
abbrev IsClosing (c : Char) : Prop := c = '}' ∨ c = ']'

abbrev IsQuote (c : Char) : Prop := c = '"' ∨ c = '\''

/-- A string from behind its opening quote on, up to and with the closing one.  Behind a
    backslash stands any character. -/
inductive StringRest (quote : Char) : List Char → Prop
  | close : StringRest quote [quote]
  | escape (c : Char) {cs : List Char} (h : StringRest quote cs) :
      StringRest quote ('\\' :: c :: cs)
  | char {c : Char} {cs : List Char} (hc : c ≠ '\\') (hquote : c ≠ quote)
      (h : StringRest quote cs) : StringRest quote (c :: cs)

/-- What stands between two brackets: characters, blanks among them, strings and groups. -/
inductive Bracketed : List Char → Prop
  | nil : Bracketed []
  | char {c : Char} {cs : List Char} (hquote : ¬IsQuote c) (hopening : ¬IsOpening c)
      (hclosing : ¬IsClosing c) (h : Bracketed cs) : Bracketed (c :: cs)
  | string {quote : Char} {s cs : List Char} (hquote : IsQuote quote)
      (hs : StringRest quote s) (h : Bracketed cs) : Bracketed (quote :: (s ++ cs))
  | group {opening closing : Char} {inner cs : List Char} (hopening : IsOpening opening)
      (hinner : Bracketed inner) (hclosing : IsClosing closing) (h : Bracketed cs) :
      Bracketed (opening :: (inner ++ closing :: cs))

/-- A piece of a word.  A single quote is a plain character unless the word begins with
    it, and then it opens a string. -/
inductive Piece (first : Bool) : List Char → Prop
  | char {c : Char} (hblank : isBlank c = false) (hquote : c ≠ '"')
      (hopening : ¬IsOpening c) (hfirst : first = true → c ≠ '\'') : Piece first [c]
  | doubleQuoted {s : List Char} (hs : StringRest '"' s) : Piece first ('"' :: s)
  | singleQuoted {s : List Char} (hfirst : first = true) (hs : StringRest '\'' s) :
      Piece first ('\'' :: s)
  | group {opening closing : Char} {inner : List Char} (hopening : IsOpening opening)
      (hinner : Bracketed inner) (hclosing : IsClosing closing) :
      Piece first (opening :: (inner ++ [closing]))

/-- A sequence of pieces, not empty. -/
def IsWord (w : List Char) : Prop :=
  ∃ (p : List Char) (ps : List (List Char)),
    Piece true p ∧ (∀ q ∈ ps, Piece false q) ∧ w = p ++ ps.flatten

/-! ## The nesting along a word -/

variable {n m : Nesting} {c quote : Char} {cs ds s : List Char} {d : Nat} {first : Bool}

/-- A text is followed part by part. -/
theorem run?_append (n : Nesting) (cs ds : List Char) :
    n.run? (cs ++ ds) = (n.run? cs).bind fun m => m.run? ds := by
  induction cs generalizing n with
  | nil => rfl
  | cons c cs ih =>
      rw [List.cons_append, Nesting.run?, Nesting.run?]
      split
      · rfl
      · exact ih _

/-- Behind a part that was followed, the rest is followed from there. -/
theorem run?_append_of_run? (h : n.run? cs = some m) : n.run? (cs ++ ds) = m.run? ds := by
  rw [run?_append, h, Option.bind_some]

/-- A token does not end where something is open. -/
theorem run?_cons_of_ne_none (h : n ≠ .none) : n.run? (c :: cs) = (n.next false c).run? cs := by
  have hends : n.ends c = false := by
    rw [Nesting.ends, beq_eq_false_iff_ne.mpr h, Bool.false_and]
  rw [Nesting.run?, hends]
  rfl

/-- A character that is no blank is always followed. -/
theorem run?_cons_of_isBlank_eq_false (h : isBlank c = false) :
    n.run? (c :: cs) = (n.next false c).run? cs := by
  rw [Nesting.run?, Nesting.ends, h, Bool.and_false]
  rfl

/-- Inside of a string there is nesting. -/
theorem quoted_ne_none : (⟨.quoted quote, d⟩ : Nesting) ≠ .none := by
  simp [Nesting.none]

/-- Inside of a bracket there is nesting. -/
theorem plain_succ_ne_none : (⟨.plain, d + 1⟩ : Nesting) ≠ .none := by
  simp [Nesting.none]

/-- A backslash is no quote. -/
theorem IsQuote.ne_backslash (h : IsQuote quote) : quote ≠ '\\' := by
  rcases h with rfl | rfl <;> decide

/-- An opening bracket leads one level in. -/
theorem next_of_isOpening (h : IsOpening c) : Nesting.next ⟨.plain, d⟩ first c = ⟨.plain, d + 1⟩ := by
  rcases h with rfl | rfl <;> rfl

/-- A closing bracket leads one level out, and no further than out of all. -/
theorem next_of_isClosing (h : IsClosing c) :
    Nesting.next ⟨.plain, d⟩ first c = ⟨.plain, d - 1⟩ := by
  rcases h with rfl | rfl <;> rfl

/-- A string ends at the depth at which it began. -/
theorem StringRest.run?_eq (h : StringRest quote s) (hquote : quote ≠ '\\') (d : Nat) :
    (⟨.quoted quote, d⟩ : Nesting).run? s = some ⟨.plain, d⟩ := by
  induction h with
  | close =>
      rw [run?_cons_of_ne_none quoted_ne_none]
      simp [Nesting.next, hquote, Nesting.run?]
  | escape c _ ih =>
      rw [run?_cons_of_ne_none quoted_ne_none]
      show Nesting.run? ⟨.escaped quote, d⟩ (c :: _) = _
      rw [run?_cons_of_ne_none (by simp [Nesting.none])]
      exact ih
  | char hc hne _ ih =>
      rw [run?_cons_of_ne_none quoted_ne_none, Nesting.next]
      simp only [if_neg hc, if_neg hne]
      exact ih

/-- So does what stands between brackets. -/
theorem Bracketed.run?_eq (h : Bracketed cs) (d : Nat) :
    (⟨.plain, d + 1⟩ : Nesting).run? cs = some ⟨.plain, d + 1⟩ := by
  induction h generalizing d with
  | nil => rfl
  | @char c cs hquote hopening hclosing _ ih =>
      obtain ⟨hdouble, hsingle⟩ := not_or.mp hquote
      rw [run?_cons_of_ne_none plain_succ_ne_none, Nesting.next]
      simp [hdouble, hsingle, not_or.mp hopening, not_or.mp hclosing, ih]
  | @string quote s cs hquote hs _ ih =>
      have hnext : Nesting.next ⟨.plain, d + 1⟩ false quote = ⟨.quoted quote, d + 1⟩ := by
        rcases hquote with rfl | rfl <;> rfl
      rw [run?_cons_of_ne_none plain_succ_ne_none, hnext,
        run?_append_of_run? (hs.run?_eq hquote.ne_backslash (d + 1)), ih]
  | @group opening closing inner cs hopening _ hclosing _ ihinner ih =>
      rw [run?_cons_of_ne_none plain_succ_ne_none, next_of_isOpening hopening,
        run?_append_of_run? (ihinner (d + 1)), run?_cons_of_ne_none plain_succ_ne_none,
        next_of_isClosing hclosing]
      exact ih d

/-- A piece begins with no blank, and behind it nothing is open. -/
theorem Piece.exists_cons {p : List Char} (h : Piece first p) :
    ∃ c cs, p = c :: cs ∧ isBlank c = false
      ∧ (Nesting.none.next first c).run? cs = some .none := by
  cases h with
  | @char c hblank hquote hopening hfirst =>
      refine ⟨c, [], rfl, hblank, congrArg some ?_⟩
      by_cases hsingle : c = '\''
      · subst hsingle
        have hfalse : first = false := Bool.eq_false_iff.mpr fun h => hfirst h rfl
        rw [hfalse]
        rfl
      · by_cases hclosing : IsClosing c
        · exact next_of_isClosing hclosing
        · simp [Nesting.next, Nesting.none, hquote, hsingle, not_or.mp hopening,
            not_or.mp hclosing]
  | doubleQuoted hs =>
      exact ⟨'"', _, rfl, by decide, hs.run?_eq (by decide) 0⟩
  | singleQuoted hfirst hs =>
      refine ⟨'\'', _, rfl, by decide, ?_⟩
      rw [hfirst]
      exact hs.run?_eq (by decide) 0
  | @group opening closing inner hopening hinner hclosing =>
      have hblank : isBlank opening = false := by
        rcases hopening with rfl | rfl <;> decide
      refine ⟨opening, _, rfl, hblank, ?_⟩
      rw [Nesting.none, next_of_isOpening hopening, run?_append_of_run? (hinner.run?_eq 0),
        run?_cons_of_ne_none plain_succ_ne_none, next_of_isClosing hclosing]
      rfl

/-- Pieces one behind the other leave no nesting. -/
theorem run?_flatten_of_pieces {ps : List (List Char)} (h : ∀ p ∈ ps, Piece false p) :
    Nesting.none.run? ps.flatten = some .none := by
  induction ps with
  | nil => rfl
  | cons p ps ih =>
      obtain ⟨c, cs, rfl, hblank, hrun⟩ := (h p (List.mem_cons_self ..)).exists_cons
      rw [List.flatten_cons, List.cons_append, run?_cons_of_isBlank_eq_false hblank,
        run?_append_of_run? hrun]
      exact ih fun q hq => h q (List.mem_cons_of_mem _ hq)

/-- Behind a word nothing is open. -/
theorem IsWord.nesting?_eq {w : List Char} (h : IsWord w) : nesting? w = some .none := by
  obtain ⟨p, ps, hp, hps, rfl⟩ := h
  obtain ⟨c, cs, rfl, hblank, hrun⟩ := hp.exists_cons
  rw [List.cons_append, nesting?_cons hblank, run?_append_of_run? hrun]
  exact run?_flatten_of_pieces hps

/-! ## Words with blanks between them -/

/-- The text of words, each behind the blanks that belong to it, and of the blanks behind
    the last. -/
def spread : List (String × String) → String → String
  | [], rest => rest
  | (gap, word) :: words, rest => gap ++ word ++ spread words rest

/-- The words as tokens of their text, which begins at this offset in bytes. -/
def placed (offset : Nat) : List (String × String) → List Token
  | [] => []
  | (gap, word) :: words =>
      let place := offset + gap.utf8ByteSize
      ⟨place, word⟩ :: placed (place + word.utf8ByteSize) words

variable {words : List (String × String)} {rest : String}

/-- The length in bytes is the one of the text. -/
theorem byteLength_toList (text : String) : byteLength text.toList = text.utf8ByteSize := by
  rw [byteLength_eq_utf8ByteSize, String.ofList_toList]

/-- Behind a word, the text of the others is empty or begins with a blank. -/
theorem stops_spread (hblank : ∀ e ∈ words, AllBlank e.1.toList) (hgap : ∀ e ∈ words, e.1 ≠ "")
    (hrest : AllBlank rest.toList) : Stops .none (spread words rest).toList := by
  cases words with
  | nil =>
      by_cases hnil : rest.toList = []
      · rw [spread, hnil]
        exact stops_nil
      · rw [spread, ← List.append_nil rest.toList]
        exact stops_none hrest hnil
  | cons e words =>
      obtain ⟨gap, word⟩ := e
      have hmem : (gap, word) ∈ (gap, word) :: words := List.mem_cons_self ..
      have hne : gap.toList ≠ [] := fun hnil => hgap _ hmem (String.toList_injective hnil)
      rw [spread, String.toList_append, String.toList_append, List.append_assoc]
      exact stops_none (hblank _ hmem) hne

/-- The words that are spread over a text are its tokens, at their places. -/
theorem ofChars_spread (offset : Nat) (hblank : ∀ e ∈ words, AllBlank e.1.toList)
    (hgap : ∀ e ∈ words.tail, e.1 ≠ "") (hwords : ∀ e ∈ words, IsWord e.2.toList)
    (hrest : AllBlank rest.toList) :
    ofChars offset (spread words rest).toList = placed offset words := by
  induction words generalizing offset with
  | nil =>
      have htext : ofChars offset (rest.toList ++ []) = _ := ofChars_append_of_allBlank hrest
      rw [List.append_nil, ofChars_nil] at htext
      exact htext
  | cons e words ih =>
      obtain ⟨gap, word⟩ := e
      have hmem : (gap, word) ∈ (gap, word) :: words := List.mem_cons_self ..
      have hothers : ∀ e ∈ words, e ∈ (gap, word) :: words := fun e he => List.mem_cons_of_mem _ he
      have hstops : Stops .none (spread words rest).toList :=
        stops_spread (fun e he => hblank e (hothers e he)) hgap hrest
      rw [spread, String.toList_append, String.toList_append, List.append_assoc,
        ofChars_append_of_allBlank (hblank _ hmem),
        ofChars_append_of_nesting? (hwords _ hmem).nesting?_eq hstops, String.ofList_toList,
        byteLength_toList, byteLength_toList, placed,
        ih _ (fun e he => hblank e (hothers e he))
          (fun e he => hgap e (List.mem_of_mem_tail he)) (fun e he => hwords e (hothers e he))]

/-- **Words are read back.**  Of words with blanks between them, and blanks or none around
    them, the tokens are these words in their places. -/
theorem ofText_spread (hblank : ∀ e ∈ words, AllBlank e.1.toList)
    (hgap : ∀ e ∈ words.tail, e.1 ≠ "") (hwords : ∀ e ∈ words, IsWord e.2.toList)
    (hrest : AllBlank rest.toList) : ofText (spread words rest) = placed 0 words :=
  ofChars_spread 0 hblank hgap hwords hrest

/-- An apostrophe, a string with a blank, and a group with a string and a group in it.
    Places are counted in bytes. -/
theorem ofText_spread_of_each_kind :
    ofText "\u00a0a' \u3000'x y'\x7d\tk[\"\\\"\" \x7b ]]\n"
      = [⟨2, "a'"⟩, ⟨8, "'x y'\x7d"⟩, ⟨15, "k[\"\\\"\" \x7b ]]"⟩] := by
  have hapostrophe : IsWord "a'".toList := by
    refine ⟨['a'], [['\'']], .char (by decide) (by decide) (by decide) (by decide), ?_, rfl⟩
    intro p hp
    obtain rfl := List.mem_singleton.mp hp
    exact .char (by decide) (by decide) (by decide) (by decide)
  have hstring : IsWord "'x y'\x7d".toList := by
    refine ⟨"'x y'".toList, [['}']], .singleQuoted rfl ?_, ?_, rfl⟩
    · exact .char (by decide) (by decide) (.char (by decide) (by decide)
        (.char (by decide) (by decide) .close))
    · intro p hp
      obtain rfl := List.mem_singleton.mp hp
      exact .char (by decide) (by decide) (by decide) (by decide)
  have hgroup : IsWord "k[\"\\\"\" \x7b ]]".toList := by
    refine ⟨['k'], ["[\"\\\"\" \x7b ]]".toList],
      .char (by decide) (by decide) (by decide) (by decide), ?_, rfl⟩
    intro p hp
    obtain rfl := List.mem_singleton.mp hp
    have hinner : Bracketed "\"\\\"\" \x7b ]".toList :=
      .string (.inl rfl) (.escape '"' .close) (.char (by decide) (by decide) (by decide)
        (.group (.inl rfl) (.char (by decide) (by decide) (by decide) .nil) (.inr rfl) .nil))
    exact .group (.inr rfl) hinner (.inr rfl)
  have hread : ofText (spread [("\u00a0", "a'"), (" \u3000", "'x y'\x7d"),
      ("\t", "k[\"\\\"\" \x7b ]]")] "\n") = placed 0 _ :=
    ofText_spread (by decide) (by decide) (by simpa using ⟨hapostrophe, hstring, hgroup⟩)
      (by decide)
  exact hread

end PackLint.Token
