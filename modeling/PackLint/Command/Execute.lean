/-! # The arguments of `execute`

    The arguments of `execute` are subcommands, each with arguments of its own,
    and at their end `run` and the command to run.  Stepping over whole
    subcommands finds the keyword `run` and does not mistake an argument for it.
    Behind a word that is no known subcommand the next `run` is taken; a
    subcommand of a form that is not listed ends the search. -/

namespace PackLint.Execute

/-- What the word at the place of a subcommand is. -/
inductive Subcommand
  /-- The keyword before the command to run. -/
  | run
  /-- A known subcommand with this number of arguments. -/
  | known (arity : Nat)
  /-- A known subcommand in no known form. -/
  | malformed
  /-- No known subcommand. -/
  | unknown
deriving DecidableEq, Repr

/-- The form of `store`, by the word that names what is stored to. -/
def storeForm : Option String → Subcommand
  | some "block" => .known 8
  | some "bossbar" | some "score" => .known 4
  | some "entity" | some "storage" => .known 6
  | _ => .malformed

/-- The form of `if` and `unless`, by their arguments. -/
def conditionForm (args : List String) : Subcommand :=
  match args[0]? with
  | some "block" => .known 5
  | some "blocks" => .known 11
  | some "data" => .known (if args[1]? = some "block" then 6 else 4)
  | some "entity" | some "predicate" => .known 2
  | some "score" => .known (if args[3]? = some "matches" then 5 else 6)
  | _ => .malformed

/-- The form of a word at the place of a subcommand, by the words behind it. -/
def Subcommand.ofWord (word : String) (args : List String) : Subcommand :=
  match word with
  | "run" => .run
  | "align" | "anchored" | "as" | "at" | "in" => .known 1
  | "facing" => .known 3
  | "positioned" => .known (if args[0]? = some "as" then 2 else 3)
  | "rotated" => .known 2
  | "store" => storeForm args[1]?
  | "if" | "unless" => conditionForm args
  | _ => .unknown

/-- The index of the keyword `run` among words of which the first `passing` are
    arguments of a subcommand. -/
def runIndex? : (passing : Nat) → List String → Option Nat
  | _, [] => none
  | passing + 1, _ :: rest => (runIndex? passing rest).map (· + 1)
  | 0, word :: rest =>
      match Subcommand.ofWord word rest with
      | .run => some 0
      | .known arity => (runIndex? arity rest).map (· + 1)
      | .malformed => none
      | .unknown => (rest.idxOf? "run").map (· + 1)

end PackLint.Execute
