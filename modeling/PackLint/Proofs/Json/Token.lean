import Mathlib.Data.Nat.Digits.Defs
import PackLint.Json.Writer
import PackLint.Text.Word

/-! # The characters of tokens

    Quotes stand in the texts of strings only.  In the text of a string a quote is its
    first character, its last one, or has a backslash in front. -/

namespace PackLint.Json

open Text

variable {c : Char} {cs : List Char} {t : Token}

/-! ## Tokens other than strings -/

/-- The characters of numbers, of words, and of brackets and commas. -/
def isPlain (c : Char) : Bool :=
  c.isDigit || ['{', '}', '[', ']', ',', '.', '+', '-', 'e', 'n', 'u', 'l', 't', 'r', 'f', 'a',
    's'].contains c

/-- A plain character is no blank. -/
theorem isBlank_of_isPlain (h : isPlain c = true) : isBlank c = false := by
  have hblanks : blanks.any isPlain = false := by
    decide +kernel
  refine Bool.eq_false_iff.mpr ?_
  intro hblank
  exact List.any_eq_false.mp hblanks c (isBlank_iff.mp hblank) h

/-- All characters are plain. -/
def AllPlain (cs : List Char) : Prop :=
  ∀ c ∈ cs, isPlain c = true

theorem allPlain_iff : AllPlain cs ↔ cs.all isPlain = true :=
  List.all_eq_true.symm

theorem allPlain_nil : AllPlain [] :=
  List.forall_mem_nil _

theorem AllPlain.cons (hc : isPlain c = true) (h : AllPlain cs) : AllPlain (c :: cs) :=
  List.forall_mem_cons.mpr ⟨hc, h⟩

theorem AllPlain.append {ds : List Char} (h : AllPlain cs) (hds : AllPlain ds) :
    AllPlain (cs ++ ds) :=
  List.forall_mem_append.mpr ⟨h, hds⟩

/-- Some of the characters of a plain text are plain. -/
theorem AllPlain.subset {ds : List Char} (h : AllPlain cs) (hds : ds ⊆ cs) : AllPlain ds :=
  fun c hc => h c (hds hc)

/-- A plain text does not begin with a character that is not plain. -/
theorem AllPlain.ne {k : Char} (h : AllPlain (c :: cs)) (hk : isPlain k = false) : c ≠ k := by
  rintro rfl
  exact Bool.false_ne_true (hk.symm.trans (h c List.mem_cons_self))

/-- There is no quote in a plain text. -/
theorem AllPlain.quote_notMem (h : AllPlain cs) : '"' ∉ cs := by
  intro hmem
  exact absurd (h '"' hmem) (by decide)

theorem allPlain_replicate (n : Nat) (hc : isPlain c = true) : AllPlain (List.replicate n c) := by
  intro d hd
  rw [List.eq_of_mem_replicate hd]
  exact hc

/-- Digits are plain. -/
theorem allPlain_toDigits (n : Nat) : AllPlain (Nat.toDigits 10 n) := by
  intro c hc
  rw [isPlain, Nat.isDigit_of_mem_toDigits (by decide) (by decide) hc, Bool.true_or]

/-- Integers are written in plain characters, minus sign included. -/
theorem allPlain_intText (n : Int) : AllPlain (intText n) := by
  rw [intText]
  split
  · exact (allPlain_toDigits _).cons rfl
  · exact allPlain_toDigits _

/-- The digits of a decimal are plain. -/
theorem allPlain_significantDigits (d : Decimal) : AllPlain (significantDigits d) := by
  rw [significantDigits]
  refine (allPlain_toDigits d.digits).subset ?_
  intro c hc
  exact List.mem_reverse.mp ((List.dropWhile_sublist _).subset (List.mem_reverse.mp hc))

/-- A decimal consists of its digits, of zeros and of plain signs, in each notation. -/
theorem allPlain_decimalText (d : Decimal) : AllPlain (decimalText d) := by
  have hdigits := allPlain_significantDigits d
  have htake : ∀ n, AllPlain ((significantDigits d).take n) := fun n =>
    hdigits.subset (List.take_subset n _)
  have hdrop : ∀ n, AllPlain ((significantDigits d).drop n) := fun n =>
    hdigits.subset (List.drop_subset n _)
  have hzeros : ∀ n, AllPlain (List.replicate n '0') := fun n => allPlain_replicate n rfl
  rw [decimalText]
  dsimp only
  split
  · -- positional, from one on
    split
    · exact (hdigits.append (hzeros _)).append ((allPlain_nil.cons rfl).cons rfl)
    · exact (htake _).append ((hdrop _).cons rfl)
  · split
    · -- positional, below one
      exact (((hzeros _).append hdigits).cons rfl).cons rfl
    · -- with an exponent
      have hfraction : AllPlain (if (significantDigits d).length ≤ 1 then []
          else '.' :: (significantDigits d).drop 1) := by
        split
        · exact allPlain_nil
        · exact (hdrop 1).cons rfl
      have hsign : ∀ leading : Int, isPlain (if leading < 0 then '-' else '+') = true := by
        intro leading
        split <;> rfl
      exact ((htake 1).append hfraction).append (((allPlain_toDigits _).cons (hsign _)).cons rfl)

/-- A decimal is written with at least one character. -/
theorem decimalText_ne_nil (d : Decimal) : decimalText d ≠ [] := by
  rw [decimalText]
  dsimp only
  split
  · split
    · exact List.append_ne_nil_of_right_ne_nil _ (List.cons_ne_nil _ _)
    · exact List.append_ne_nil_of_right_ne_nil _ (List.cons_ne_nil _ _)
  · split
    · exact List.cons_ne_nil _ _
    · exact List.append_ne_nil_of_right_ne_nil _ (List.cons_ne_nil _ _)

/-- Floating point numbers are written in plain characters. -/
theorem allPlain_floatText (x : Float) : AllPlain (floatText x) := by
  rw [floatText]
  split
  · rw [bitsText]
    have hsign : AllPlain (if Nat.pow 2 63 ≤ x.toBits.toNat then ['-'] else []) := by
      split
      · exact allPlain_nil.cons rfl
      · exact allPlain_nil
    split
    · exact hsign.append (((allPlain_nil.cons rfl).cons rfl).cons rfl)
    · exact hsign.append (allPlain_decimalText _)
  · exact (((allPlain_nil.cons rfl).cons rfl).cons rfl).cons rfl

/-- A floating point number is written with at least one character. -/
theorem floatText_ne_nil (x : Float) : floatText x ≠ [] := by
  rw [floatText]
  split
  · rw [bitsText]
    split
    · exact List.append_ne_nil_of_right_ne_nil _ (List.cons_ne_nil _ _)
    · exact List.append_ne_nil_of_right_ne_nil _ (decimalText_ne_nil _)
  · exact List.cons_ne_nil _ _

/-- An integer is written with at least one character. -/
theorem intText_ne_nil (n : Int) : intText n ≠ [] := by
  rw [intText]
  split
  · exact List.cons_ne_nil _ _
  · exact Nat.toDigits_ne_nil

/-- How tokens are written.  Only a string and the colon have characters that are not plain. -/
inductive Token.Written : Token → List Char → Prop
  | str (s : String) : Written (.str s) (quote s.toList)
  | colon : Written .colon [':']
  | plain {t : Token} {c : Char} {cs : List Char} (hstr : ∀ s, t ≠ .str s) (hcolon : t ≠ .colon)
      (h : AllPlain (c :: cs)) : Written t (c :: cs)

/-- Any plain text is a way to write a token that is neither a string nor a colon. -/
theorem Token.Written.of_ne_nil (hstr : ∀ s, t ≠ .str s) (hcolon : t ≠ .colon) (hne : cs ≠ [])
    (h : AllPlain cs) : t.Written cs := by
  obtain ⟨c, cs, rfl⟩ := List.exists_cons_of_ne_nil hne
  exact .plain hstr hcolon h

/-- The text of a token is a way to write it. -/
theorem Token.written_text (t : Token) : t.Written t.text := by
  cases t with
  | str s => exact .str s
  | colon => exact .colon
  | int n => exact .of_ne_nil nofun nofun (intText_ne_nil n) (allPlain_intText n)
  | float x => exact .of_ne_nil nofun nofun (floatText_ne_nil x) (allPlain_floatText x)
  | bool b => cases b <;> exact .of_ne_nil nofun nofun (List.cons_ne_nil _ _) (allPlain_iff.mpr rfl)
  | _ => exact .of_ne_nil nofun nofun (List.cons_ne_nil _ _) (allPlain_iff.mpr rfl)

/-! ## Strings -/

/-- The letters and digits of escapes. -/
def isCode (c : Char) : Bool :=
  c.isDigit || ['a', 'b', 'c', 'd', 'e', 'f', 'n', 'r', 't', 'u'].contains c

/-- How characters are written in a string.  Only what a control character is written as ends
    with a word character that is not the character itself. -/
inductive Spelled : Char → List Char → Prop
  | self {c : Char} (hprints : 0x20 ≤ c.toNat) (hquote : c ≠ '"') (hbackslash : c ≠ '\\') :
      Spelled c [c]
  | quote : Spelled '"' ['\\', '"']
  | backslash : Spelled '\\' ['\\', '\\']
  | control {c d : Char} {code : List Char} (hcontrol : c.toNat < 0x20)
      (hcode : ∀ e ∈ code ++ [d], isCode e = true) (hd : isWord d = true) :
      Spelled c ('\\' :: (code ++ [d]))

/-- The code of a character spells it. -/
theorem spelled_escapeChar (c : Char) : Spelled c (escapeChar c) := by
  have hletter : ∀ {c d : Char}, c.toNat < 0x20 → isCode d = true → isWord d = true →
      Spelled c ['\\', d] := by
    intro c d hc hcode hd
    show Spelled c ('\\' :: ([] ++ [d]))
    exact .control hc (List.forall_mem_singleton.mpr hcode) hd
  have hdigit : ∀ n < 16, isCode (Nat.digitChar n) = true ∧ isWord (Nat.digitChar n) = true := by
    decide
  rw [escapeChar]
  split
  · rename_i hc
    exact hc ▸ .quote
  rename_i hquote
  split
  · rename_i hc
    exact hc ▸ .backslash
  rename_i hbackslash
  -- the five control characters with a letter
  iterate 5
    split
    · rename_i hc
      subst hc
      exact hletter (by decide) rfl rfl
  split
  · rename_i hcontrol
    obtain ⟨hhigh, -⟩ := hdigit (c.toNat / 16) (by omega)
    obtain ⟨hlow, hword⟩ := hdigit (c.toNat % 16) (by omega)
    show Spelled c ('\\' :: (['u', '0', '0', Nat.digitChar (c.toNat / 16)] ++ [_]))
    refine .control hcontrol ?_ hword
    simp only [List.cons_append, List.nil_append, List.forall_mem_cons, hhigh, hlow, true_and]
    exact ⟨rfl, rfl, rfl, List.forall_mem_nil _⟩
  · rename_i hprints
    exact .self (Nat.le_of_not_lt hprints) hquote hbackslash

/-- How characters are written in a string, as far as quotes are concerned. -/
inductive Escaped : Char → List Char → Prop
  | self {c : Char} (hquote : c ≠ '"') (hbackslash : c ≠ '\\') : Escaped c [c]
  | quote : Escaped '"' ['\\', '"']
  | code {c : Char} {code : List Char} (hquote : c ≠ '"') (hcode : '"' ∉ code) :
      Escaped c ('\\' :: code)

/-- The code of a character is an escape of it, or the character itself. -/
theorem escaped_escapeChar (c : Char) : Escaped c (escapeChar c) := by
  have hc := spelled_escapeChar c
  generalize escapeChar c = cs at hc ⊢
  cases hc with
  | self _ hquote hbackslash => exact .self hquote hbackslash
  | quote => exact .quote
  | backslash =>
      exact .code (by decide) (List.not_mem_cons_of_ne_of_not_mem (by decide) List.not_mem_nil)
  | control hcontrol hcode _ =>
      refine .code ?_ fun h => absurd (hcode '"' h) Bool.false_ne_true
      rintro rfl
      exact absurd hcontrol (by decide)

/-- A code has at least one character. -/
theorem exists_escapeChar_eq_cons (c : Char) : ∃ d cs, escapeChar c = d :: cs := by
  generalize hcs : escapeChar c = cs
  cases hcs ▸ escaped_escapeChar c with
  | self => exact ⟨c, [], rfl⟩
  | quote => exact ⟨'\\', ['"'], rfl⟩
  | code => exact ⟨'\\', _, rfl⟩

/-- There is a quote in no code but that of the quote. -/
theorem quote_notMem_escapeChar (h : c ≠ '"') : '"' ∉ escapeChar c := by
  generalize hcs : escapeChar c = cs
  cases hcs ▸ escaped_escapeChar c with
  | self hquote => exact fun hmem => hquote (List.mem_singleton.mp hmem).symm
  | quote => exact absurd rfl h
  | code _ hcode => exact List.not_mem_cons_of_ne_of_not_mem (by decide) hcode

/-- Only a character that is its own escape is written with itself in front. -/
theorem eq_of_escapeChar_eq_cons {c d : Char} {cs : List Char} (hd : escapeChar d = [d])
    (h : escapeChar c = d :: cs) : c = d ∧ cs = [] := by
  have hbackslash : d ≠ '\\' := by
    rintro rfl
    exact absurd hd (by decide)
  have hc := escaped_escapeChar c
  rw [h] at hc
  cases hc with
  | self => exact ⟨rfl, rfl⟩
  | quote => exact absurd rfl hbackslash
  | code => exact absurd rfl hbackslash

/-- No code begins with a quote, so a string ends at the first one that is not behind a
    backslash. -/
theorem escapeChar_ne_quote_cons {c : Char} {cs : List Char} : escapeChar c ≠ '"' :: cs := by
  intro h
  have hc := escaped_escapeChar c
  rw [h] at hc
  cases hc with
  | self hquote => exact hquote rfl

end PackLint.Json
