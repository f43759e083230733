import PackLint.Proofs.Json.Layout
import PackLint.Proofs.Text.WordAt

/-! # Words in JSON text

    A phrase that is written as it is stands in JSON text where it stands in a string, and
    words begin and end there where they do in the string, but for one thing: a control
    character is written with a letter or a digit at its end, and no word begins behind
    that. -/

namespace PackLint.Json

open Text

variable {c : Char} {phrase cs front back : List Char} {t : Token} {ts : List Token}

/-! ## Characters -/

/-- A control character is no character of a word. -/
theorem isWord_of_control (h : c.toNat < 0x20) : isWord c = false := by
  have hnone : ∀ n < 0x20, isAsciiWord n = false := by
    decide
  rw [isWord, if_pos (by omega), hnone _ h]

/-- Behind its first character an escape has codes only, and characters that have escapes. -/
theorem isCode_of_mem_tail_escapeChar {d : Char} (hd : escapeChar d = [d])
    (h : d ∈ (escapeChar c).tail) : isCode d = true := by
  have hc := spelled_escapeChar c
  generalize escapeChar c = cs at hc h
  cases hc with
  | self => exact absurd h List.not_mem_nil
  | quote =>
      rw [List.mem_singleton.mp h] at hd
      exact absurd hd (by decide)
  | backslash =>
      rw [List.mem_singleton.mp h] at hd
      exact absurd hd (by decide)
  | control _ hcode => exact hcode d h

/-- What a character is written as begins with a word character if it is one. -/
theorem isWord_head?_escapeChar (c : Char) :
    ∃ d, (escapeChar c).head? = some d ∧ isWord d = isWord c := by
  have hc := spelled_escapeChar c
  generalize escapeChar c = cs at hc ⊢
  cases hc with
  | self => exact ⟨c, rfl, rfl⟩
  | quote => exact ⟨'\\', rfl, rfl⟩
  | backslash => exact ⟨'\\', rfl, rfl⟩
  | control hcontrol => exact ⟨'\\', rfl, (isWord_of_control hcontrol).symm⟩

/-- What a character is written as ends with no word character if it is none, and no control
    character. -/
theorem isWord_getLast?_escapeChar (c : Char) :
    ∃ d, (escapeChar c).getLast? = some d
      ∧ (isWord d = false ↔ isWord c = false ∧ 0x20 ≤ c.toNat) := by
  have hc := spelled_escapeChar c
  generalize escapeChar c = cs at hc ⊢
  cases hc with
  | self hprints => exact ⟨c, rfl, (and_iff_left hprints).symm⟩
  | quote => exact ⟨'"', rfl, (and_iff_left (by decide)).symm⟩
  | backslash => exact ⟨'\\', rfl, (and_iff_left (by decide)).symm⟩
  | control hcontrol _ hd =>
      refine ⟨_, List.getLast?_concat (l := _ :: _), iff_of_false ?_ ?_⟩
      · rw [hd]
        exact Bool.noConfusion
      · exact fun h => absurd h.2 (Nat.not_le_of_lt hcontrol)

/-- Escaping does not change whether a text begins with a character of a word. -/
theorem forall_mem_head?_escape_iff :
    (∀ d ∈ (cs.flatMap escapeChar).head?, isWord d = false)
      ↔ ∀ c ∈ cs.head?, isWord c = false := by
  cases cs with
  | nil => exact Iff.rfl
  | cons c cs =>
      obtain ⟨d, hd, hword⟩ := isWord_head?_escapeChar c
      rw [List.flatMap_cons, List.head?_append, hd]
      simp [hword]

/-- A code ends in a character of a word exactly if its character is one, or a control
    character. -/
theorem forall_mem_getLast?_escape_iff :
    (∀ d ∈ (cs.flatMap escapeChar).getLast?, isWord d = false)
      ↔ ∀ c ∈ cs.getLast?, isWord c = false ∧ 0x20 ≤ c.toNat := by
  rcases List.eq_nil_or_concat' cs with rfl | ⟨cs, c, rfl⟩
  · simp
  · obtain ⟨d, hd, hword⟩ := isWord_getLast?_escapeChar c
    rw [List.flatMap_append, List.flatMap_singleton, List.getLast?_append, hd]
    simp [hword]

/-! ## Strings -/

/-- A phrase that is written as it is, and that begins with a character that stands in
    strings only, and not behind a backslash there. -/
structure IsLiteral (phrase : List Char) : Prop where
  escapeChar_eq : ∀ c ∈ phrase, escapeChar c = [c]
  exists_head : ∃ c cs, phrase = c :: cs ∧ mayBegin c = false ∧ isCode c = false

/-- A literal phrase is not empty. -/
theorem IsLiteral.ne_nil (h : IsLiteral phrase) : phrase ≠ [] := by
  obtain ⟨c, cs, rfl, -, -⟩ := h.exists_head
  exact List.cons_ne_nil c cs

/-- Characters that have no escape are written as they are. -/
theorem flatMap_escapeChar_of_forall (h : ∀ c ∈ phrase, escapeChar c = [c]) :
    phrase.flatMap escapeChar = phrase := by
  rw [List.flatMap_congr h, ← List.map_eq_flatMap, List.map_id']

/-- A text that is written with a literal phrase at its beginning begins with it. -/
theorem exists_of_escape_eq_append_left (h : ∀ c ∈ phrase, escapeChar c = [c])
    (heq : cs.flatMap escapeChar = phrase ++ back) :
    ∃ rest, cs = phrase ++ rest ∧ back = rest.flatMap escapeChar := by
  induction phrase generalizing cs with
  | nil => exact ⟨cs, rfl, heq.symm⟩
  | cons p phrase ih =>
      obtain ⟨hp, hphrase⟩ := List.forall_mem_cons.mp h
      cases cs with
      | nil => exact absurd heq.symm (List.cons_ne_nil _ _)
      | cons c cs =>
          obtain ⟨d, ds, hd⟩ := exists_escapeChar_eq_cons c
          rw [List.flatMap_cons, hd] at heq
          obtain ⟨rfl, hrest⟩ := List.cons.inj heq
          obtain ⟨rfl, rfl⟩ := eq_of_escapeChar_eq_cons hp hd
          obtain ⟨rest, rfl, hback⟩ := ih hphrase hrest
          exact ⟨rest, rfl, hback⟩

/-- Where a text is written with a literal phrase somewhere, the phrase stands in it. -/
theorem exists_of_escape_eq_append (h : IsLiteral phrase)
    (heq : cs.flatMap escapeChar = front ++ (phrase ++ back)) :
    ∃ ahead behind, cs = ahead ++ (phrase ++ behind)
      ∧ front = ahead.flatMap escapeChar ∧ back = behind.flatMap escapeChar := by
  induction cs generalizing front with
  | nil =>
      have hnil := (List.append_eq_nil_iff.mp heq.symm).2
      exact absurd (List.append_eq_nil_iff.mp hnil).1 h.ne_nil
  | cons c cs ih =>
      cases front with
      | nil =>
          obtain ⟨rest, hcs, hback⟩ := exists_of_escape_eq_append_left h.escapeChar_eq heq
          exact ⟨[], rest, hcs, rfl, hback⟩
      | cons e front =>
          -- the phrase does not begin inside of what the first character is written as
          obtain ⟨rest, hfront, hrest⟩ : ∃ rest, e :: front = escapeChar c ++ rest
              ∧ cs.flatMap escapeChar = rest ++ (phrase ++ back) := by
            rw [List.flatMap_cons] at heq
            rcases List.append_eq_append_iff.mp heq with ⟨rest, hfront, hrest⟩ | ⟨rest, hc, hrest⟩
            · exact ⟨rest, hfront, hrest⟩
            · cases rest with
              | nil => exact ⟨[], by rw [hc, List.append_nil, List.append_nil], hrest.symm⟩
              | cons d rest =>
                  obtain ⟨p, phrase, rfl, -, hcode⟩ := h.exists_head
                  obtain ⟨rfl, -⟩ := List.cons.inj hrest
                  have htail : p ∈ (escapeChar c).tail := by
                    rw [hc]
                    exact List.mem_append_right front List.mem_cons_self
                  have hself := h.escapeChar_eq p List.mem_cons_self
                  rw [isCode_of_mem_tail_escapeChar hself htail] at hcode
                  exact absurd hcode.symm Bool.false_ne_true
          obtain ⟨ahead, behind, rfl, rfl, hback⟩ := ih hrest
          exact ⟨c :: ahead, behind, rfl, hfront, hback⟩

/-- The phrase stands in these characters, no word character stands on either side of it,
    and no control character in front of it. -/
def ShowsWord (phrase cs : List Char) : Prop :=
  ∃ front back, cs = front ++ (phrase ++ back)
    ∧ (∀ c ∈ front.getLast?, isWord c = false ∧ 0x20 ≤ c.toNat)
    ∧ ∀ c ∈ back.head?, isWord c = false

/-- A string is written with a word where it shows it. -/
theorem hasWord_escape_iff (h : IsLiteral phrase) :
    hasWord phrase (cs.flatMap escapeChar) = true ↔ ShowsWord phrase cs := by
  rw [hasWord_eq_true_iff]
  constructor
  · rintro ⟨_, front, back, heq, -, hfront, hback⟩
    obtain ⟨ahead, behind, rfl, rfl, rfl⟩ := exists_of_escape_eq_append h heq
    exact ⟨ahead, behind, rfl, forall_mem_getLast?_escape_iff.mp hfront,
      forall_mem_head?_escape_iff.mp hback⟩
  · rintro ⟨front, back, rfl, hfront, hback⟩
    refine ⟨_, front.flatMap escapeChar, back.flatMap escapeChar, ?_, rfl,
      forall_mem_getLast?_escape_iff.mpr hfront, forall_mem_head?_escape_iff.mpr hback⟩
    rw [List.flatMap_append, List.flatMap_append, flatMap_escapeChar_of_forall h.escapeChar_eq]

/-- Without control characters that is where it has the word. -/
theorem showsWord_iff_hasWord (hprints : ∀ c ∈ cs, 0x20 ≤ c.toNat) :
    ShowsWord phrase cs ↔ hasWord phrase cs = true := by
  rw [hasWord_eq_true_iff]
  constructor
  · rintro ⟨front, back, rfl, hfront, hback⟩
    exact ⟨_, front, back, rfl, rfl, fun c hc => (hfront c hc).1, hback⟩
  · rintro ⟨_, front, back, rfl, -, hfront, hback⟩
    refine ⟨front, back, rfl, ?_, hback⟩
    intro c hc
    exact ⟨hfront c hc, hprints c (List.mem_append_left _ (List.mem_of_mem_getLast? hc))⟩

/-! ## Laid out values -/

/-- Outside of strings there is nothing that the phrase begins with. -/
theorem hasWord_append_iff_of_mayBegin (h : IsLiteral phrase)
    (hfront : ∀ c ∈ front, mayBegin c = true) (hback : ∀ c ∈ back.head?, mayBegin c = true) :
    hasWord phrase (front ++ back) = true ↔ hasWord phrase back = true := by
  obtain ⟨p, rest, rfl, hbegin, -⟩ := h.exists_head
  have hne : ¬mayBegin p = true := Bool.eq_false_iff.mp hbegin
  exact hasWord_append_iff_of_notMem rfl (fun hp => hne (hfront p hp)) fun hp => hne (hback p hp)

/-- In front of a text, a quoted string shows the word, or the text has it. -/
theorem hasWord_quote_append_iff (h : IsLiteral phrase) :
    hasWord phrase (quote cs ++ back) = true
      ↔ ShowsWord phrase cs ∨ hasWord phrase back = true := by
  have hquote : '"' ∉ phrase := by
    intro hmem
    exact absurd (h.escapeChar_eq '"' hmem) (by decide)
  have hcut : quote cs ++ back = [] ++ '"' :: (cs.flatMap escapeChar ++ '"' :: back) := by
    rw [quote, List.append_assoc]
    rfl
  rw [hcut, hasWord_append_cons_iff h.ne_nil hquote rfl, hasWord_nil h.ne_nil,
    hasWord_append_cons_iff h.ne_nil hquote rfl, hasWord_escape_iff h]
  exact or_iff_right Bool.false_ne_true

/-- However tokens are laid out, they have a word where one of their strings shows it. -/
theorem hasWord_layOut_iff (h : IsLiteral phrase) {gaps : Gaps} :
    hasWord phrase (layOut gaps ts) = true
      ↔ ∃ s, .str s ∈ ts ∧ ShowsWord phrase s.toList := by
  have hlayout : ∀ (gaps : Gaps) (ts : List Token), ∀ c ∈ (layOut gaps ts).head?,
      mayBegin c = true := by
    intro gaps ts c hc
    obtain ⟨cs, hcs⟩ := List.head?_eq_some_iff.mp hc
    exact mayBegin_of_layOut_eq_cons hcs
  induction ts generalizing gaps with
  | nil =>
      have hnil : ∀ c ∈ ([] : List Char).head?, mayBegin c = true := by
        intro c hc
        exact absurd hc.symm (Option.some_ne_none c)
      rw [layOut, ← List.append_nil (gaps.chars 0),
        hasWord_append_iff_of_mayBegin h (gaps.mayBegin 0) hnil, hasWord_nil h.ne_nil]
      refine iff_of_false Bool.false_ne_true ?_
      rintro ⟨s, hs, -⟩
      exact absurd hs List.not_mem_nil
  | cons t ts ih =>
      have hts : hasWord phrase (layOut gaps.tail ts) = true
          ↔ ∃ s, .str s ∈ ts ∧ ShowsWord phrase s.toList := ih
      have hwritten := t.written_text
      have htext : ∀ c ∈ (t.text ++ layOut gaps.tail ts).head?, mayBegin c = true := by
        intro d hd
        obtain ⟨c, cs, hcs, hc⟩ := hwritten.exists_eq_cons
        rw [hcs] at hd
        exact Option.some.inj hd ▸ hc
      rw [layOut, hasWord_append_iff_of_mayBegin h (gaps.mayBegin 0) htext]
      clear htext
      generalize t.text = cs at hwritten ⊢
      cases hwritten with
      | str n =>
          rw [hasWord_quote_append_iff h, hts]
          simp only [List.mem_cons, Token.str.injEq, or_and_right, exists_or, exists_eq_left]
      | colon =>
          rw [hasWord_append_iff_of_mayBegin h (List.forall_mem_singleton.mpr rfl)
            (hlayout gaps.tail ts), hts]
          simp only [List.mem_cons, reduceCtorEq, false_or]
      | @plain _ c cs hstr _ hplain =>
          have hbegin : ∀ d ∈ c :: cs, mayBegin d = true := by
            intro d hd
            rw [mayBegin, hplain d hd, Bool.true_or, Bool.or_true]
          have hne : ∀ s, Token.str s ≠ t := fun s hs => hstr s hs.symm
          rw [hasWord_append_iff_of_mayBegin h hbegin (hlayout gaps.tail ts), hts]
          simp only [List.mem_cons, hne, false_or]

end PackLint.Json
