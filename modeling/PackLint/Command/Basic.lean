import PackLint.Command.Execute
import PackLint.Command.Token

/-! # Commands

    A line of a function is a command, a comment or blank.  An `execute` whose
    arguments name a command to run has that command nested in it, and the nested
    one may be an `execute` again; `Command.chain` lists them from the outside in.
    `Command.ofChars` reads a line: it looks at the tokens only for what the
    command is, and reads the nested command from the text behind `run`. -/

namespace PackLint

open Text

/-- A line of a function.  `line` is its number, from one, and `raw` its text
    without the blanks around it. -/
inductive Command
  | blank (line : Nat)
  | comment (line : Nat) (raw : String)
  /-- A command that nests no other: its first token and the ones behind it. -/
  | plain (line : Nat) (raw : String) (key : String) (args : List String)
  /-- An `execute` with its arguments, and the command that it runs. -/
  | execute (line : Nat) (raw : String) (args : List String) (run : Command)
deriving DecidableEq, Repr

/-- What a line holds. -/
inductive CommandKind
  | command
  | comment
  | blank
deriving DecidableEq, Repr

/-- The name of what a line holds. -/
def CommandKind.name : CommandKind → String
  | command => "command"
  | comment => "comment"
  | blank => "blank"

namespace Command

def line : Command → Nat
  | blank line | comment line _ | plain line _ _ _ | execute line _ _ _ => line

def raw : Command → String
  | blank _ => ""
  | comment _ raw | plain _ raw _ _ | execute _ raw _ _ => raw

def kind : Command → CommandKind
  | blank _ => .blank
  | comment _ _ => .comment
  | plain .. | execute .. => .command

/-- The line is neither a comment nor blank. -/
def isCommand (c : Command) : Bool :=
  c.kind == .command

/-- The first token of a command. -/
def key? : Command → Option String
  | blank _ | comment _ _ => none
  | plain _ _ key _ => some key
  | execute _ _ _ _ => some "execute"

/-- The tokens behind the key. -/
def args : Command → List String
  | blank _ | comment _ _ => []
  | plain _ _ _ args | execute _ _ args _ => args

/-- The command nested directly in this one. -/
def run? : Command → Option Command
  | execute _ _ _ run => some run
  | _ => none

/-- The text of a command without the command nested in it. -/
def ownText (c : Command) : String :=
  match c.run? with
  | some run =>
      String.ofList (trimRight (c.raw.toList.take (c.raw.length - run.raw.length)))
  | none => c.raw

/-- A command, the one nested in it, and so on. -/
def chain : Command → List Command
  | execute line raw args run => execute line raw args run :: run.chain
  | c => [c]

/-- The text behind this many bytes. -/
def textFrom : (offset : Nat) → List Char → List Char
  | _, [] => []
  | offset, c :: cs => if offset = 0 then c :: cs else textFrom (offset - c.utf8Size) cs

/-- What is left is no longer than the text. -/
theorem textFrom_length_le (offset : Nat) (cs : List Char) :
    (textFrom offset cs).length ≤ cs.length := by
  induction cs generalizing offset with
  | nil => exact Nat.le_refl _
  | cons c cs ih =>
      rw [textFrom]
      split
      · exact Nat.le_refl _
      · exact Nat.le_succ_of_le (ih _)

/-- What is left behind at least one byte is shorter than the text. -/
theorem textFrom_length_lt {offset : Nat} {cs : List Char} (h : 0 < offset)
    (hcs : cs ≠ []) : (textFrom offset cs).length < cs.length := by
  cases cs with
  | nil => exact absurd rfl hcs
  | cons c cs =>
      rw [textFrom, if_neg (Nat.ne_of_gt h)]
      exact Nat.lt_succ_of_le (textFrom_length_le _ _)

/-- The token with which the nested command begins, for a command with this key
    and these tokens behind it. -/
def nestedToken? (key : Token) (args : List Token) : Option Token :=
  if key.text = "execute" then
    (Execute.runIndex? 0 (args.map Token.text)).bind fun i => args[i + 1]?
  else none

/-- The nested command begins at one of the arguments. -/
theorem mem_of_nestedToken? {key t : Token} {args : List Token}
    (h : nestedToken? key args = some t) : t ∈ args := by
  unfold nestedToken? at h
  split at h
  · obtain ⟨i, -, hi⟩ := Option.bind_eq_some_iff.mp h
    exact List.mem_of_getElem? hi
  · exact nomatch h

/-- The command on a line, from the text of the line. -/
def ofChars (line : Nat) (cs : List Char) : Command :=
  match _h : Token.ofChars 0 (trim cs) with
  | [] => .blank line
  | key :: args =>
      if (trim cs).head? = some '#' then .comment line (String.ofList (trim cs))
      else
        match _hn : nestedToken? key args with
        | none => .plain line (String.ofList (trim cs)) key.text (args.map Token.text)
        | some start =>
            .execute line (String.ofList (trim cs)) (args.map Token.text)
              (ofChars line (textFrom start.offset (trim cs)))
termination_by cs.length
decreasing_by
  have hpos := Token.lt_offset_of_mem_tail _h (mem_of_nestedToken? _hn)
  refine Nat.lt_of_lt_of_le (textFrom_length_lt hpos ?_) (trim_length_le cs)
  intro hnil
  rw [hnil, Token.ofChars_nil] at _h
  exact nomatch _h

/-- The command on a line. -/
def ofText (line : Nat) (text : String) : Command :=
  ofChars line text.toList

end Command

end PackLint
