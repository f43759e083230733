import PackLint.Proofs.Command.Words

/-! # The numbers of lines

    What a command is does not depend on the number of its line.  Further down in a text the
    same line is the same command, with another number in it and in all commands nested in
    it. -/

namespace PackLint.Command

open Text

variable {c d : Command} {n : Nat}

/-- The command this many lines further down. -/
def shift (n : Nat) : Command → Command
  | blank line => blank (line + n)
  | comment line raw => comment (line + n) raw
  | plain line raw key args => plain (line + n) raw key args
  | execute line raw args run => execute (line + n) raw args (run.shift n)

@[simp] theorem line_shift (n : Nat) (c : Command) : (c.shift n).line = c.line + n := by
  cases c <;> rfl

@[simp] theorem raw_shift (n : Nat) (c : Command) : (c.shift n).raw = c.raw := by
  cases c <;> rfl

@[simp] theorem kind_shift (n : Nat) (c : Command) : (c.shift n).kind = c.kind := by
  cases c <;> rfl

@[simp] theorem key?_shift (n : Nat) (c : Command) : (c.shift n).key? = c.key? := by
  cases c <;> rfl

@[simp] theorem args_shift (n : Nat) (c : Command) : (c.shift n).args = c.args := by
  cases c <;> rfl

@[simp] theorem run?_shift (n : Nat) (c : Command) : (c.shift n).run? = c.run?.map (shift n) := by
  cases c <;> rfl

@[simp] theorem isCommand_shift (n : Nat) (c : Command) : (c.shift n).isCommand = c.isCommand := by
  rw [isCommand, kind_shift, isCommand]

@[simp] theorem ownText_shift (n : Nat) (c : Command) : (c.shift n).ownText = c.ownText := by
  rw [ownText, run?_shift, raw_shift, ownText]
  cases c.run? with
  | none => rfl
  | some run =>
      show String.ofList _ = String.ofList _
      rw [raw_shift]

@[simp] theorem chain_shift (n : Nat) (c : Command) : (c.shift n).chain = c.chain.map (shift n) := by
  induction c with
  | execute line raw args run ih =>
      show execute (line + n) raw args (run.shift n) :: (run.shift n).chain = _
      rw [ih]
      rfl
  | _ => rfl

/-- Further down the same line is read as the same command. -/
theorem ofChars_add (line n : Nat) (cs : List Char) :
    ofChars (line + n) cs = (ofChars line cs).shift n := by
  generalize hc : ofChars line cs = c
  -- along the chain of the command that was read
  induction c generalizing cs with
  | blank _ =>
      cases hc ▸ reads_ofChars line cs with
      | blank hnil => exact (Reads.blank hnil).ofChars_eq
  | comment _ _ =>
      cases hc ▸ reads_ofChars line cs with
      | comment hhead => exact (Reads.comment hhead).ofChars_eq
  | plain _ _ _ _ =>
      cases hc ▸ reads_ofChars line cs with
      | plain htokens hhead hnested => exact (Reads.plain htokens hhead hnested).ofChars_eq
  | execute _ _ _ run ih =>
      cases hc ▸ reads_ofChars line cs with
      | execute htokens hhead hnested =>
          rw [(Reads.execute htokens hhead hnested).ofChars_eq, ih _ rfl]
          rfl

/-- All commands of the chain of a line have its number. -/
theorem line_of_mem_chain_ofChars {line : Nat} {cs : List Char}
    (h : d ∈ (ofChars line cs).chain) : d.line = line := by
  obtain ⟨ds, rfl⟩ := exists_ofChars_of_mem_chain h
  exact line_ofChars

/-! ## Lines without commands -/

/-- The line is blank or a comment. -/
def isIdle (line : List Char) : Bool :=
  (trim line).head?.all (· == '#')

/-- A line with tokens is idle only if it is a comment. -/
theorem isIdle_eq_false {cs : List Char} {key : Token} {args : List Token}
    (htokens : Token.ofChars 0 (trim cs) = key :: args) (hhead : (trim cs).head? ≠ some '#') :
    isIdle cs = false := by
  rw [isIdle]
  cases hcs : trim cs with
  | nil =>
      rw [hcs, Token.ofChars_nil] at htokens
      exact absurd htokens.symm (List.cons_ne_nil key args)
  | cons c cs =>
      rw [hcs] at hhead
      exact beq_false_of_ne fun h => hhead (congrArg some h)

/-- A line is a command exactly if it is not idle. -/
theorem kind_ofChars_eq_command_iff {line : Nat} {cs : List Char} :
    (ofChars line cs).kind = .command ↔ isIdle cs = false := by
  generalize hc : ofChars line cs = c
  cases hc ▸ reads_ofChars line cs with
  | blank hnil =>
      rw [isIdle, hnil]
      exact iff_of_false CommandKind.noConfusion Bool.noConfusion
  | comment hhead =>
      rw [isIdle, hhead]
      exact iff_of_false CommandKind.noConfusion Bool.noConfusion
  | plain htokens hhead _ => exact iff_of_true rfl (isIdle_eq_false htokens hhead)
  | execute htokens hhead _ => exact iff_of_true rfl (isIdle_eq_false htokens hhead)

end PackLint.Command
