import PackLint.Proofs.Command.Line
import PackLint.Proofs.Text.Lines
import PackLint.Resource.Basic

/-! # Functions and their lines

    A function has one command for each line of its text, and every command of the chain of
    a line has the number of the line.  The lines of two texts, one behind the other, are
    read as the lines of the first and those of the second, further down.  Carriage returns
    at the ends of lines are not read at all. -/

namespace PackLint.Function

open Text

variable {a : List Char} {k : Nat} {c d : Command}

/-- The commands of a function are its lines, with their numbers. -/
theorem getElem?_readLines (number : Nat) (ls : List (List Char)) (k : Nat) :
    (readLines number ls)[k]? = ls[k]?.map (Command.ofChars (number + k)) := by
  induction ls generalizing number k with
  | nil => rfl
  | cons l ls ih =>
      cases k with
      | zero => rfl
      | succ k =>
          rw [readLines, List.getElem?_cons_succ, List.getElem?_cons_succ, ih, Nat.add_assoc,
            Nat.add_comm 1]

/-- Lines behind others are read with the numbers that follow. -/
theorem readLines_append (number : Nat) (ls ms : List (List Char)) :
    readLines number (ls ++ ms) = readLines number ls ++ readLines (number + ls.length) ms := by
  induction ls generalizing number with
  | nil => rfl
  | cons l ls ih =>
      show Command.ofChars number l :: readLines (number + 1) (ls ++ ms) = _
      rw [ih, Nat.add_assoc, Nat.add_comm 1]
      rfl

/-- The same lines further down are the same commands further down. -/
theorem readLines_add (number n : Nat) (ls : List (List Char)) :
    readLines (number + n) ls = (readLines number ls).map (Command.shift n) := by
  induction ls generalizing number with
  | nil => rfl
  | cons l ls ih =>
      show Command.ofChars (number + n) l :: readLines (number + n + 1) ls = _
      rw [Command.ofChars_add, Nat.add_right_comm, ih]
      rfl

/-- Blanks at the ends of the lines are not read. -/
theorem readLines_map_trimRight (number : Nat) (ls : List (List Char)) :
    readLines number (ls.map trimRight) = readLines number ls := by
  induction ls generalizing number with
  | nil => rfl
  | cons l ls ih =>
      show Command.ofChars number (trimRight l) :: readLines (number + 1) (ls.map trimRight) = _
      rw [Command.ofChars_congr (trim_trimRight l), ih]
      rfl

/-- What stands behind whole lines is read as if it stood alone, further down. -/
theorem commands_ofText_append (id : String) {a : String} (h : WholeLines a.toList) (b : String) :
    (ofText id (a ++ b)).commands
      = (ofText id a).commands
        ++ (ofText id b).commands.map (Command.shift (a.toList.count '\n')) := by
  show readLines 1 (lines (a ++ b).toList) = readLines 1 _ ++ (readLines 1 _).map _
  rw [String.toList_append, lines_append h, readLines_append, length_lines h, readLines_add]

/-- A function is the same with a carriage return in front of each line feed. -/
theorem ofText_withReturns (id text : String) :
    ofText id (String.ofList (withReturns text.toList)) = ofText id text := by
  rw [ofText, String.toList_ofList, ← readLines_map_trimRight, map_trimRight_lines_withReturns,
    readLines_map_trimRight, ofText]

/-- The commands of the chain of a line have the number of the line. -/
theorem line_of_mem_chain {id text : String} (h : (ofText id text).commands[k]? = some c)
    (hd : d ∈ c.chain) : d.line = k + 1 := by
  rw [ofText, getElem?_readLines] at h
  obtain ⟨l, _, rfl⟩ := Option.map_eq_some_iff.mp h
  rw [Command.line_of_mem_chain_ofChars hd, Nat.add_comm]

end PackLint.Function
