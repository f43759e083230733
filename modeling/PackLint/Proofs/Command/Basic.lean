import PackLint.Command.Basic
import PackLint.Proofs.Command.Execute
import PackLint.Proofs.Command.Token

/-! # How a line is read

    `Reads` says what command a line is, case by case: nothing but blanks, a comment,
    a command that nests no other, and an `execute` with the command behind its
    `run`.  `ofChars` reads every line so, and what follows about its results is
    read off the four cases. -/

namespace PackLint.Command

open Text

variable {line : Nat} {cs : List Char}

/-- What command the line with this number and text is. -/
inductive Reads (line : Nat) (cs : List Char) : Command → Prop
  | blank (hnil : trim cs = []) : Reads line cs (.blank line)
  | comment (hhead : (trim cs).head? = some '#') :
      Reads line cs (.comment line (String.ofList (trim cs)))
  | plain {key : Token} {args : List Token}
      (htokens : Token.ofChars 0 (trim cs) = key :: args)
      (hhead : (trim cs).head? ≠ some '#') (hnested : nestedToken? key args = none) :
      Reads line cs
        (.plain line (String.ofList (trim cs)) key.text (args.map Token.text))
  | execute {key start : Token} {args : List Token}
      (htokens : Token.ofChars 0 (trim cs) = key :: args)
      (hhead : (trim cs).head? ≠ some '#') (hnested : nestedToken? key args = some start) :
      Reads line cs
        (.execute line (String.ofList (trim cs)) (args.map Token.text)
          (ofChars line (textFrom start.offset (trim cs))))

/-- Every line is read in one of the four ways. -/
theorem reads_ofChars (line : Nat) (cs : List Char) : Reads line cs (ofChars line cs) := by
  rw [ofChars]
  split
  · rename_i htokens
    refine .blank ?_
    by_contra hne
    exact Token.ofChars_ne_nil startsSolid_trim hne htokens
  · rename_i key args htokens
    by_cases hhead : (trim cs).head? = some '#'
    · rw [if_pos hhead]
      exact .comment hhead
    · rw [if_neg hhead]
      split
      · rename_i hnested
        exact .plain htokens hhead hnested
      · rename_i start hnested
        exact .execute htokens hhead hnested

/-- What a line is, is what is read from it. -/
theorem Reads.ofChars_eq {c : Command} (h : Reads line cs c) : ofChars line cs = c := by
  rw [ofChars]
  cases h with
  | blank hnil =>
      split
      · rfl
      · rename_i htokens
        rw [hnil, Token.ofChars_nil] at htokens
        exact absurd htokens.symm (List.cons_ne_nil _ _)
  | comment hhead =>
      split
      · rename_i htokens
        have hne : trim cs ≠ [] := by
          intro hnil
          rw [hnil] at hhead
          exact absurd hhead.symm (Option.some_ne_none _)
        exact absurd htokens (Token.ofChars_ne_nil startsSolid_trim hne)
      · rw [if_pos hhead]
  | plain htokens hhead hnested =>
      split
      · rename_i hnil
        exact absurd (htokens.symm.trans hnil) (List.cons_ne_nil _ _)
      · rename_i htokens'
        obtain ⟨rfl, rfl⟩ := List.cons.inj (htokens.symm.trans htokens')
        rw [if_neg hhead]
        split
        · rfl
        · rename_i hsome
          exact absurd (hsome.symm.trans hnested) (Option.some_ne_none _)
  | execute htokens hhead hnested =>
      split
      · rename_i hnil
        exact absurd (htokens.symm.trans hnil) (List.cons_ne_nil _ _)
      · rename_i htokens'
        obtain ⟨rfl, rfl⟩ := List.cons.inj (htokens.symm.trans htokens')
        rw [if_neg hhead]
        split
        · rename_i hnone
          exact absurd (hnested.symm.trans hnone) (Option.some_ne_none _)
        · rename_i hsome
          rw [Option.some.inj (hnested.symm.trans hsome)]

/-- Lines that differ in the blanks around them only are the same command. -/
theorem ofChars_congr {ds : List Char} (h : trim cs = trim ds) :
    ofChars line cs = ofChars line ds := by
  rw [ofChars, ofChars, h]

/-- Blanks at the ends of a line do not matter. -/
theorem ofChars_trim (line : Nat) (cs : List Char) :
    ofChars line (trim cs) = ofChars line cs :=
  ofChars_congr trim_trim

/-! ## Views of the result -/

/-- A command knows its line. -/
theorem line_ofChars : (ofChars line cs).line = line := by
  generalize hc : ofChars line cs = c
  cases hc ▸ reads_ofChars line cs <;> rfl

/-- The text of a command is its line without the blanks at its ends. -/
theorem raw_ofChars : (ofChars line cs).raw = String.ofList (trim cs) := by
  generalize hc : ofChars line cs = c
  cases hc ▸ reads_ofChars line cs with
  | blank hnil =>
      rw [hnil]
      rfl
  | comment hhead => rfl
  | plain htokens hhead hnested => rfl
  | execute htokens hhead hnested => rfl

theorem toList_raw_ofChars : (ofChars line cs).raw.toList = trim cs := by
  rw [raw_ofChars, String.toList_ofList]

/-- Only a text of blanks is a blank line. -/
theorem kind_ofChars_ne_blank (hne : trim cs ≠ []) : (ofChars line cs).kind ≠ .blank := by
  generalize hc : ofChars line cs = c
  cases hc ▸ reads_ofChars line cs with
  | blank hnil => exact absurd hnil hne
  | comment hhead => exact CommandKind.noConfusion
  | plain htokens hhead hnested => exact CommandKind.noConfusion
  | execute htokens hhead hnested => exact CommandKind.noConfusion

/-- The command read from the text of a command is that command. -/
theorem ofChars_raw : ofChars line (ofChars line cs).raw.toList = ofChars line cs := by
  rw [toList_raw_ofChars, ofChars_trim]

/-- Only `execute` nests commands. -/
theorem text_of_nestedToken? {key start : Token} {args : List Token}
    (h : nestedToken? key args = some start) : key.text = "execute" := by
  by_contra hkey
  rw [nestedToken?, if_neg hkey] at h
  exact nomatch h

/-- The key and the arguments of a command are its tokens. -/
theorem exists_key_of_kind_ofChars (h : (ofChars line cs).kind = .command) :
    ∃ key args, Token.ofChars 0 (trim cs) = key :: args
      ∧ (ofChars line cs).key? = some key.text
      ∧ (ofChars line cs).args = args.map Token.text := by
  generalize hc : ofChars line cs = c at h ⊢
  cases hc ▸ reads_ofChars line cs with
  | blank hnil => exact nomatch h
  | comment hhead => exact nomatch h
  | @plain key args htokens hhead hnested => exact ⟨key, args, htokens, rfl, rfl⟩
  | @execute key start args htokens hhead hnested =>
      refine ⟨key, args, htokens, ?_, rfl⟩
      rw [text_of_nestedToken? hnested]
      rfl

/-! ## The nested command -/

/-- The command that is nested is the one in the text behind `run`. -/
theorem run?_ofChars {key start : Token} {args : List Token}
    (htokens : Token.ofChars 0 (trim cs) = key :: args) (hhead : (trim cs).head? ≠ some '#')
    (hnested : nestedToken? key args = some start) :
    (ofChars line cs).run? = some (ofChars line (textFrom start.offset (trim cs))) := by
  rw [(Reads.execute htokens hhead hnested).ofChars_eq]
  rfl

/-- A text is cut behind as many bytes as its front has. -/
theorem textFrom_append (cs ds : List Char) :
    textFrom (Token.byteLength cs) (cs ++ ds) = ds := by
  induction cs with
  | nil =>
      cases ds with
      | nil => rfl
      | cons d ds => rfl
  | cons c cs ih =>
      have hpos := c.utf8Size_pos
      rw [List.cons_append, textFrom, Token.byteLength_cons, if_neg (by omega),
        Nat.add_sub_cancel_left, ih]

/-- The nested command begins with the token behind the keyword `run`. -/
theorem exists_run_of_nestedToken? {key start : Token} {args : List Token}
    (h : nestedToken? key args = some start) :
    ∃ front run back, args = front ++ run :: start :: back ∧ run.text = "run"
      ∧ Execute.runIndex? 0 (args.map Token.text) = some front.length := by
  rw [nestedToken?, if_pos (text_of_nestedToken? h)] at h
  obtain ⟨i, hi, hstart⟩ := Option.bind_eq_some_iff.mp h
  have hrun := Execute.getElem?_of_runIndex? hi
  rw [List.getElem?_map] at hrun
  obtain ⟨run, hrun, htext⟩ := Option.map_eq_some_iff.mp hrun
  obtain ⟨hlt, rfl⟩ := List.getElem?_eq_some_iff.mp hrun
  obtain ⟨hlt', rfl⟩ := List.getElem?_eq_some_iff.mp hstart
  refine ⟨args.take i, args[i], args.drop (i + 2), ?_, htext, ?_⟩
  · rw [← List.drop_eq_getElem_cons hlt', ← List.drop_eq_getElem_cons hlt, List.take_append_drop]
  · rw [hi, List.length_take_of_le (Nat.le_of_lt hlt)]

/-- The text of an `execute` is its own text up to `run`, blanks, and the text from which
    the nested command is read; the tokens are cut at the same place. -/
theorem exists_append_of_nestedToken? {key start : Token} {args : List Token}
    (htokens : Token.ofChars 0 cs = key :: args) (hnested : nestedToken? key args = some start) :
    ∃ a g b front back, cs = a ++ "run".toList ++ (g ++ b) ∧ g ≠ [] ∧ AllBlank g
      ∧ b ≠ [] ∧ StartsSolid b ∧ textFrom start.offset cs = b
      ∧ args = front ++ ⟨Token.byteLength a, "run"⟩ :: start :: back
      ∧ Execute.runIndex? 0 (args.map Token.text) = some front.length
      ∧ Token.ofChars 0 (a ++ "run".toList) = key :: front ++ [⟨Token.byteLength a, "run"⟩]
      ∧ Token.ofChars start.offset b = start :: back := by
  obtain ⟨front, run, back, rfl, hrun, hindex⟩ := exists_run_of_nestedToken? hnested
  obtain ⟨a, g, b, hcs, hg, hgb, hb, hbs, hlast, hoff, hfront, hback⟩ :=
    Token.exists_append_of_ofChars_eq_append (htokens.trans (List.cons_append ..).symm)
  rw [Nat.zero_add] at hlast hoff
  obtain rfl : run = ⟨Token.byteLength a, "run"⟩ := by rw [← hlast, ← hrun]
  refine ⟨a, g, b, front, back, hcs, hg, hgb, hb, hbs, ?_, rfl, hindex, hfront, hback⟩
  rw [hcs, hoff, ← List.append_assoc, textFrom_append]

end PackLint.Command
