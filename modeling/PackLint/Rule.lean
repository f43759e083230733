import PackLint.Report
import PackLint.Upgrade.Findings

/-! # Rules

    A rule is a check of a pack, with a name to select it by and a description.
    `Settings` select rules; without a selection all of them are run.  `check`
    runs them and refuses a selection that names no rule, before any is run. -/

namespace PackLint

structure Rule where
  name : String
  title : String
  description : String
  /-- Examples of what the rule wants. -/
  good : List String
  /-- Examples of what it finds. -/
  bad : List String
  /-- Adds the findings in a pack to a report, for a configuration if there is one. -/
  run : Pack → Option Json → Report → Report

namespace Rule

/-- Upgrading a pack from 1.16 to 1.17.  There is nothing to configure. -/
def upgrade : Rule where
  name := "update_1_17"
  title := "Data packs made in 1.16 should work in 1.17."
  description :=
    "This rule will report issues and suggestions to help updating 1.16 data packs for 1.17."
  good := ["summon marker ~ ~ ~ \x7b...\x7d"]
  bad := ["summon armor_stand ~ ~ ~ \x7bMarker:1b,...\x7d"]
  run := fun pack _ report => Upgrade.run pack report

/-- All rules. -/
def all : List Rule :=
  [upgrade]

/-- The rule with this name. -/
def find? (name : String) : Option Rule :=
  all.find? fun rule => rule.name == name

/-- The lines that describe a rule in a list of rules. -/
def listing (r : Rule) : String :=
  r.name ++ ": " ++ r.title ++ "\n  " ++ r.description ++ "\n"
    ++ String.join (r.good.map fun command => "  good: " ++ command ++ "\n")
    ++ String.join (r.bad.map fun command => "  bad:  " ++ command ++ "\n")

end Rule

/-- Which rules to run, and their configuration. -/
structure Settings where
  rules : List String
  config : Option Json

namespace Settings

/-- All rules, without a configuration. -/
def default : Settings := ⟨[], none⟩

/-- Selects one more rule. -/
def addRule (s : Settings) (name : String) : Settings :=
  { s with rules := s.rules ++ [name] }

/-- Sets the configuration. -/
def withConfig (s : Settings) (config : Json) : Settings :=
  { s with config := some config }

/-- A rule is run if it is selected, or if none is. -/
def isEnabled (s : Settings) (name : String) : Bool :=
  s.rules.isEmpty || s.rules.contains name

end Settings

inductive CheckError
  /-- A rule was selected that there is not. -/
  | unknownRule (name : String)
deriving DecidableEq, Repr

def CheckError.message : CheckError → String
  | unknownRule name => "Unknown rule " ++ name

/-- Runs the selected rules on a pack and adds their findings to a report. -/
def check (s : Settings) (pack : Pack) (report : Report) : Except CheckError Report :=
  match s.rules.find? fun name => (Rule.find? name).isNone with
  | some name => .error (.unknownRule name)
  | none =>
      .ok ((Rule.all.filter fun rule => s.isEnabled rule.name).foldl
        (fun report rule => rule.run pack s.config report) report)

end PackLint
