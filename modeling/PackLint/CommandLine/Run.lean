import PackLint.CommandLine.Options
import PackLint.Pack.Load
import PackLint.Rule

/-! # Running the program

    A run is a function of the files and the arguments: what is printed, and the
    exit status.  The status is 0 if no finding is an error, 1 if one is or if the
    run fails, and 2 if the arguments cannot be read. -/

namespace PackLint.CommandLine

/-- The result of a run. -/
structure Outcome where
  status : Nat
  output : String
  /-- Why the run failed. -/
  complaint : String
deriving DecidableEq, Repr

/-- What stops a run. -/
inductive RunError
  | noPack
  | load (e : LoadError)
  | config (fault : FileFault)
  | check (e : CheckError)
deriving DecidableEq, Repr

/-- The words that explain a fault of a file. -/
def explain : FileFault → String
  | .unreadable => "the file cannot be read as text"
  | .invalidJson => "the text is not valid JSON"

def RunError.message : RunError → String
  | noPack => "No datapack directory specified"
  | load e => "Failed to load datapack: " ++ e.message explain
  | config .unreadable => "Failed to read config file: " ++ explain .unreadable
  | config .invalidJson => "Failed to parse config file: " ++ explain .invalidJson
  | check e => e.message

/-- The name and version of the program. -/
def versionLine : String := "dpcheck 0.1.0\n"

/-- Reads the configuration that the options name. -/
def loadConfig (files : String → Option FileTree) (o : Options) :
    Except RunError (Option Json) :=
  match o.config with
  | none => .ok none
  | some path =>
      match (files path).bind FileTree.text? with
      | none => .error (.config .unreadable)
      | some text =>
          match Json.ofText? text with
          | none => .error (.config .invalidJson)
          | some config => .ok (some config)

/-- Loads the pack that the options name and checks it. -/
def report (files : String → Option FileTree) (o : Options) : Except RunError Report :=
  match o.pack with
  | none => .error .noPack
  | some path => do
      let pack ← (Pack.load path (files path)).mapError .load
      let config ← loadConfig files o
      (check ⟨o.rules, config⟩ pack .empty).mapError .check

/-- A report in the form that the options name. -/
def render (o : Options) (r : Report) : String :=
  match o.format.getD .text with
  | .text => r.text
  | .json => r.json.pretty ++ "\n"

/-- The outcome of a run with these options. -/
def runOptions (files : String → Option FileTree) (o : Options) : Outcome :=
  if o.list then ⟨0, String.join (Rule.all.map Rule.listing), ""⟩
  else
    match report files o with
    | .error e => ⟨1, "", e.message⟩
    | .ok r => ⟨if r.hasErrors then 1 else 0, render o r, ""⟩

/-- The outcome of a run with these arguments.  `files` looks up a path. -/
def run (files : String → Option FileTree) (args : List String) : Outcome :=
  match Request.ofArgs args with
  | .error e => ⟨2, "", e.message⟩
  | .ok .version => ⟨0, versionLine, ""⟩
  | .ok (.run o) => runOptions files o

end PackLint.CommandLine
