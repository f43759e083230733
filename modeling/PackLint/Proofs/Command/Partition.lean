import PackLint.Proofs.Command.Grammar

/-! # Tokens partition their text

    Every text is blanks and tokens, also one in which something is opened and never
    closed: the tokens are slices of it that lie apart, and what is in none of them is
    blank.  In front of a token nothing is open, so the text can be read again from any
    of its tokens on. -/

namespace PackLint.Token

open Text

variable {n m : Nesting} {c quote : Char} {cs w : List Char} {offset : Nat} {t : Token}

/-! ## Where a token ends -/

/-- A string with this quote is open. -/
def Nesting.InString (n : Nesting) (quote : Char) : Prop :=
  n.mode = .quoted quote ∨ n.mode = .escaped quote

/-- The strings that may be open are those that a quote opens. -/
def Nesting.OpenedByQuotes (n : Nesting) : Prop :=
  ∀ quote, n.InString quote → IsQuote quote

/-- Outside of any string none was opened. -/
theorem openedByQuotes_none : Nesting.none.OpenedByQuotes := by
  rintro quote (h | h) <;> exact Mode.noConfusion h

/-- A string that is open was open before, or a quote has opened it. -/
theorem Nesting.InString.of_next {first : Bool} (h : (n.next first c).InString quote) :
    n.InString quote ∨ IsQuote quote := by
  obtain ⟨mode, depth⟩ := n
  cases mode with
  | escaped q => exact .inl (.inr (by simpa [InString, Nesting.next] using h))
  | quoted q => grind [InString, Nesting.next]
  | plain => grind [InString, Nesting.next]

/-- One more character opens a string by a quote only. -/
theorem Nesting.OpenedByQuotes.next (h : n.OpenedByQuotes) (first : Bool) (c : Char) :
    (n.next first c).OpenedByQuotes := by
  intro quote hquote
  rcases hquote.of_next with hquote | hquote
  · exact h quote hquote
  · exact hquote

/-- So do any number of characters. -/
theorem Nesting.OpenedByQuotes.run? (h : n.OpenedByQuotes) (hrun : n.run? cs = some m) :
    m.OpenedByQuotes := by
  induction cs generalizing n with
  | nil =>
      obtain rfl : n = m := Option.some.inj hrun
      exact h
  | cons c cs ih =>
      rw [Nesting.run?] at hrun
      split at hrun
      · exact absurd hrun.symm (Option.some_ne_none m)
      · exact ih (h.next false c) hrun

/-- A quote is no blank. -/
theorem IsQuote.isBlank_eq_false (h : IsQuote quote) : isBlank quote = false := by
  rcases h with rfl | rfl <;> rfl

/-- A blank closes nothing: behind one that does not end the token, something is open. -/
theorem Nesting.OpenedByQuotes.next_ne_none (h : n.OpenedByQuotes) (hc : isBlank c = true)
    (hends : n.ends c = false) : n.next false c ≠ .none := by
  have hne : n ≠ .none := by
    intro hnone
    rw [Nesting.ends, hnone, hc] at hends
    exact Bool.noConfusion hends
  have hother : ∀ d, isBlank d = false → c ≠ d := by
    rintro d hd rfl
    exact Bool.false_ne_true (hd.symm.trans hc)
  obtain ⟨mode, depth⟩ := n
  cases mode with
  | escaped q => exact quoted_ne_none
  | quoted q =>
      have hq : isBlank q = false := (h q (.inl rfl)).isBlank_eq_false
      rw [Nesting.next]
      simp only [if_neg (hother '\\' rfl), if_neg (hother q hq)]
      exact hne
  | plain =>
      rw [Nesting.next]
      simpa [hother '"' rfl, hother '\'' rfl, hother '{' rfl, hother '[' rfl, hother '}' rfl,
        hother ']' rfl] using hne

/-- A token that leaves nothing open does not end with a blank. -/
theorem endsSolid_of_nesting? (h : nesting? w = some .none) : EndsSolid w := by
  obtain ⟨c, cs, rfl, hc, hrun⟩ := exists_cons_of_nesting? h
  intro d hd
  rcases List.eq_nil_or_concat cs with rfl | ⟨front, last, rfl⟩
  · obtain rfl : c = d := Option.some.inj hd
    exact hc
  · obtain rfl : last = d := by
      simpa [List.concat_eq_append, List.getLast?_cons] using hd
    rw [List.concat_eq_append, run?_append] at hrun
    obtain ⟨k, hk, hlast⟩ := Option.bind_eq_some_iff.mp hrun
    have hopened : k.OpenedByQuotes := (openedByQuotes_none.next true c).run? hk
    rw [Nesting.run?] at hlast
    split at hlast
    · exact absurd hlast.symm (Option.some_ne_none _)
    · rename_i hends
      by_contra hblank
      exact hopened.next_ne_none (Bool.not_eq_false _ ▸ hblank) (Bool.eq_false_iff.mpr hends)
        (Option.some.inj hlast)

/-- A token goes on behind a part of it that leaves nothing open with no blank. -/
theorem isBlank_of_nesting?_append {v : List Char} (hv : nesting? v = some .none)
    (h : nesting? (v ++ c :: w) = some m) : isBlank c = false := by
  obtain ⟨d, ds, rfl, hd, hrun⟩ := exists_cons_of_nesting? hv
  rw [List.cons_append, nesting?_cons hd, run?_append_of_run? hrun, Nesting.run?] at h
  split at h
  · exact absurd h.symm (Option.some_ne_none m)
  · rename_i hends
    rw [Nesting.ends, beq_self_eq_true, Bool.true_and] at hends
    exact Bool.eq_false_iff.mpr hends

/-! ## Places in a text -/

/-- The place behind the last character of a token. -/
def endOffset (t : Token) : Nat :=
  t.offset + t.text.utf8ByteSize

/-- The token is the slice of the text at its offset, and no character is cut there. -/
def StandsIn (t : Token) (text : String) : Prop :=
  ∃ before after, text = before ++ t.text ++ after ∧ before.utf8ByteSize = t.offset

/-- The same token counted from further on in the text. -/
def unshift (k : Nat) (t : Token) : Token :=
  { t with offset := t.offset - k }

/-- Moving a token back undoes moving it. -/
theorem unshift_shift (k : Nat) (t : Token) : (t.shift k).unshift k = t := by
  show Token.mk (k + t.offset - k) t.text = t
  rw [Nat.add_sub_cancel_left]

/-- In front of a token nothing is open: what stands there, the token, and the text behind
    it, from which the tokens behind it are read. -/
theorem exists_append_of_ofChars_eq {front back : List Token}
    (h : ofChars offset cs = front ++ t :: back) :
    ∃ a rest m, cs = a ++ (t.text.toList ++ rest) ∧ t.offset = offset + byteLength a
      ∧ nesting? t.text.toList = some m ∧ Stops m rest
      ∧ back = ofChars (t.offset + byteLength t.text.toList) rest := by
  induction front generalizing offset cs with
  | nil =>
      obtain ⟨g, w, rest, m, -, hw, hs, rfl, rfl, rfl⟩ := exists_append_of_ofChars_eq_cons h
      refine ⟨g, rest, m, ?_, rfl, ?_, hs, ?_⟩
      · rw [String.toList_ofList]
      · rwa [String.toList_ofList]
      · rw [String.toList_ofList, byteLength_append, Nat.add_assoc]
  | cons first front ih =>
      obtain ⟨g, w, rest, m, -, -, -, rfl, rfl, hrest⟩ := exists_append_of_ofChars_eq_cons h
      obtain ⟨a, rest', m', rfl, hoffset, hw, hs, hback⟩ := ih hrest.symm
      refine ⟨g ++ (w ++ a), rest', m', ?_, ?_, hw, hs, hback⟩
      · simp only [List.append_assoc]
      · rw [hoffset, byteLength_append, byteLength_append, byteLength_append]
        omega

/-- Where a word has stopped, the next token begins further on. -/
theorem lt_offset_of_stops (hs : Stops m cs) (h : t ∈ ofChars offset cs) : offset < t.offset := by
  cases cs with
  | nil =>
      rw [ofChars_nil] at h
      exact absurd h List.not_mem_nil
  | cons c cs =>
      rw [ofChars, if_pos hs.isBlank] at h
      have hle := le_offset_of_mem h
      have hpos := c.utf8Size_pos
      omega

/-- A character that is no blank is in a token. -/
theorem exists_mem_of_isBlank_eq_false {a b : List Char} (hc : isBlank c = false)
    (h : cs = a ++ c :: b) (offset : Nat) :
    ∃ t ∈ ofChars offset cs, t.offset ≤ offset + byteLength a
      ∧ offset + byteLength a + c.utf8Size ≤ t.endOffset := by
  fun_induction ofChars offset cs generalizing a with
  | case1 => simp at h
  | case2 offset d cs hd ih =>
      cases a with
      | nil =>
          obtain ⟨rfl, -⟩ := List.cons.inj h
          exact absurd hd (Bool.eq_false_iff.mp hc)
      | cons e a =>
          obtain ⟨rfl, rfl⟩ := List.cons.inj h
          obtain ⟨t, ht, hle, hend⟩ := ih rfl
          refine ⟨t, ht, ?_, ?_⟩ <;> rw [byteLength_cons] <;> omega
  | case3 offset d cs hd parts =>
      rename_i ih
      obtain ⟨m, -, hs⟩ := run?_scan (Nesting.none.next true d) cs
      have htoken : byteLength (d :: parts.1) = (String.ofList (d :: parts.1)).utf8ByteSize :=
        byteLength_eq_utf8ByteSize _
      have hsplit : (d :: parts.1) ++ parts.2 = a ++ c :: b := by
        rw [← h, List.cons_append, scan_append]
      -- the character is behind the token, or the first one behind it, or in the token
      rcases List.append_eq_append_iff.mp hsplit with ⟨a', rfl, hrest⟩ | ⟨w, hw, hrest⟩
      · obtain ⟨t, ht, hle, hend⟩ := ih hrest
        refine ⟨t, List.mem_cons_of_mem _ ht, ?_, ?_⟩ <;> rw [byteLength_append] <;> omega
      · cases w with
        | nil =>
            have hstop : Stops m (c :: b) := by
              rw [List.nil_append] at hrest
              rw [hrest]
              exact hs
            exact absurd hstop.isBlank (Bool.eq_false_iff.mp hc)
        | cons e w =>
            obtain ⟨rfl, rfl⟩ := List.cons.inj hrest
            refine ⟨_, List.mem_cons_self, Nat.le_add_right _ _, ?_⟩
            show _ ≤ offset + (String.ofList (d :: parts.1)).utf8ByteSize
            rw [← htoken, hw, byteLength_append, byteLength_cons]
            omega

/-- Between two tokens there is at least one byte. -/
theorem pairwise_ofChars (offset : Nat) (cs : List Char) :
    (ofChars offset cs).Pairwise fun t u => t.endOffset < u.offset := by
  fun_induction ofChars offset cs with
  | case1 => exact .nil
  | case2 offset d cs hd ih => exact ih
  | case3 offset d cs hd parts ih =>
      obtain ⟨m, -, hs⟩ := run?_scan (Nesting.none.next true d) cs
      refine List.pairwise_cons.mpr ⟨?_, ih⟩
      intro u hu
      have hlt := lt_offset_of_stops hs hu
      rw [byteLength_eq_utf8ByteSize] at hlt
      exact hlt

/-! ## The partition -/

/-- How tokens divide a text. -/
structure Partition (text : String) (tokens : List Token) : Prop where
  standsIn : ∀ t ∈ tokens, t.StandsIn text
  ne_empty : ∀ t ∈ tokens, t.text ≠ ""
  startsSolid : ∀ t ∈ tokens, StartsSolid t.text.toList
  /-- A token ends before the next one begins, and something is in between. -/
  apart : tokens.Pairwise fun t u => t.endOffset < u.offset
  /-- A character that is no blank is in a token. -/
  covers : ∀ (before after : String) (c : Char), text = before ++ String.singleton c ++ after →
    isBlank c = false →
      ∃ t ∈ tokens, t.offset ≤ before.utf8ByteSize
        ∧ before.utf8ByteSize + c.utf8Size ≤ t.endOffset
  /-- A token that ends with a blank is the last one, and reaches the end of the text. -/
  endsSolid : ∀ t ∈ tokens, EndsSolid t.text.toList
    ∨ tokens.getLast? = some t ∧ t.endOffset = text.utf8ByteSize

/-- The tokens and the blanks between them make up the text. -/
theorem partition_ofText (text : String) : Partition text (ofText text) := by
  -- what one token is, from its place in the list
  have hcut : ∀ t ∈ ofText text, ∃ front back a rest m, ofText text = front ++ t :: back
      ∧ text.toList = a ++ (t.text.toList ++ rest) ∧ t.offset = byteLength a
      ∧ nesting? t.text.toList = some m ∧ Stops m rest
      ∧ back = ofChars (t.offset + byteLength t.text.toList) rest := by
    intro t ht
    obtain ⟨front, back, h⟩ := List.append_of_mem ht
    obtain ⟨a, rest, m, htext, hoffset, hw, hs, hback⟩ := exists_append_of_ofChars_eq h
    rw [Nat.zero_add] at hoffset
    exact ⟨front, back, a, rest, m, h, htext, hoffset, hw, hs, hback⟩
  refine
    { standsIn := ?_
      ne_empty := ?_
      startsSolid := ?_
      apart := pairwise_ofChars 0 _
      covers := ?_
      endsSolid := ?_ }
  · intro t ht
    obtain ⟨-, -, a, rest, -, -, htext, hoffset, -⟩ := hcut t ht
    refine ⟨String.ofList a, String.ofList rest, ?_, ?_⟩
    · apply String.toList_injective
      simp only [String.toList_append, String.toList_ofList, htext, List.append_assoc]
    · rw [hoffset, byteLength_eq_utf8ByteSize]
  · intro t ht hempty
    obtain ⟨-, -, -, -, m, -, -, -, hw, -⟩ := hcut t ht
    exact ne_nil_of_nesting? hw (by rw [hempty]; rfl)
  · intro t ht
    obtain ⟨-, -, -, -, m, -, -, -, hw, -⟩ := hcut t ht
    exact startsSolid_of_nesting? hw
  · intro before after c htext hc
    have hchars : text.toList = before.toList ++ c :: after.toList := by
      rw [htext, String.toList_append, String.toList_append, String.toList_singleton,
        List.append_assoc]
      rfl
    obtain ⟨t, ht, hle, hend⟩ := exists_mem_of_isBlank_eq_false hc hchars 0
    rw [Nat.zero_add, byteLength_toList] at hle hend
    exact ⟨t, ht, hle, hend⟩
  · intro t ht
    obtain ⟨front, back, a, rest, m, h, htext, hoffset, hw, hs, rfl⟩ := hcut t ht
    cases rest with
    | nil =>
        refine .inr ⟨?_, ?_⟩
        · rw [h, ofChars_nil, List.getLast?_concat]
        · rw [endOffset, hoffset, ← byteLength_toList, ← byteLength_toList, htext,
            List.append_nil, byteLength_append]
    | cons c rest =>
        -- a blank ends the token, so nothing is open
        have hnone : m = .none := by
          have hends : (m == Nesting.none && isBlank c) = true := hs c rfl
          exact beq_iff_eq.mp (Bool.and_eq_true_iff.mp hends).1
        exact .inl (endsSolid_of_nesting? (hnone ▸ hw))

/-- The text from one of its tokens on has this token and the ones behind it. -/
theorem exists_append_of_getElem?_ofText {text : String} {k : Nat}
    (h : (ofText text)[k]? = some t) :
    ∃ before rest : String, text = before ++ rest ∧ before.utf8ByteSize = t.offset
      ∧ ofText rest = ((ofText text).drop k).map (unshift t.offset) := by
  obtain ⟨hk, ht⟩ := List.getElem?_eq_some_iff.mp h
  have hdrop : (ofText text).drop k = t :: (ofText text).drop (k + 1) := by
    rw [List.drop_eq_getElem_cons hk, ht]
  have hsplit : ofText text = (ofText text).take k ++ t :: (ofText text).drop (k + 1) := by
    rw [← hdrop, List.take_append_drop]
  obtain ⟨a, rest, m, htext, hoffset, hw, hs, hback⟩ := exists_append_of_ofChars_eq hsplit
  rw [Nat.zero_add] at hoffset
  refine ⟨String.ofList a, String.ofList (t.text.toList ++ rest), ?_, ?_, ?_⟩
  · rw [← String.ofList_append, ← htext, String.ofList_toList]
  · rw [hoffset, byteLength_eq_utf8ByteSize]
  · -- the tokens behind were read from their place in the text, and are counted from `t` now
    have hrest : ofChars t.offset (t.text.toList ++ rest) = (ofText text).drop k := by
      rw [ofChars_append_of_nesting? hw hs, String.ofList_toList, ← hback, hdrop]
    have hshift := ofChars_add t.offset 0 (t.text.toList ++ rest)
    rw [Nat.add_zero, hrest] at hshift
    rw [hshift, ofText, String.toList_ofList, List.map_map, eq_comm]
    exact (List.map_congr_left fun u _ => unshift_shift t.offset u).trans (List.map_id _)

/-- **Tokens partition any text, and reading can start again at each of them.**  The tokens
    are slices of the text that begin with no blank and lie apart; what is outside of them is
    blank, and only a last one that reaches the end of the text can end with a blank.  The
    text from a token on has that token and the ones behind it, in their places. -/
theorem ofText_partitions_and_restarts (text : String) :
    Partition text (ofText text)
      ∧ ∀ (k : Nat) (t : Token), (ofText text)[k]? = some t →
        ∃ before rest : String, text = before ++ rest ∧ before.utf8ByteSize = t.offset
          ∧ ofText rest = ((ofText text).drop k).map (unshift t.offset) :=
  ⟨partition_ofText text, fun _ _ => exists_append_of_getElem?_ofText⟩

/-- A brace and a quote that are never closed take the rest of the text, the blank at its
    end included. -/
theorem ofText_restarts_at_unclosed :
    let text := "\u00e9] \u3000 \x7b\"x y "
    (ofText text)[1]? = some ⟨8, "\x7b\"x y "⟩
      ∧ ∃ before rest : String, text = before ++ rest ∧ before.utf8ByteSize = 8
        ∧ ofText rest = [⟨0, "\x7b\"x y "⟩] := by
  intro text
  have htokens : ofText text = [⟨0, "\u00e9]"⟩, ⟨8, "\x7b\"x y "⟩] := by
    decide +kernel
  have hsecond : (ofText text)[1]? = some ⟨8, "\x7b\"x y "⟩ := by
    rw [htokens]
    rfl
  obtain ⟨before, rest, htext, hsize, hrest⟩ :=
    (ofText_partitions_and_restarts text).2 1 _ hsecond
  refine ⟨hsecond, before, rest, htext, hsize, ?_⟩
  rw [hrest, htokens]
  rfl

end PackLint.Token
