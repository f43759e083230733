import PackLint.Proofs.Command.Chain
import PackLint.Upgrade.Walker

/-! # Findings in a function

    The findings in a function are those in its lines, one line after another, and
    the findings in a line are those in the commands of its chain.  An `execute` that
    nests a command has no part in this but by the ids in its own text. -/

namespace PackLint.Upgrade

open Text

variable {commands : List CommandCheck} {texts : List TextCheck}

/-- Functions are checked line by line. -/
theorem functionFindings_append (id : String) (cs ds : List Command) :
    functionFindings commands texts ⟨id, cs ++ ds⟩
      = functionFindings commands texts ⟨id, cs⟩ ++ functionFindings commands texts ⟨id, ds⟩ := by
  simp only [functionFindings, Function.flat, List.flatMap_append, List.filter_append]

/-- A command is checked, and then the one nested in it as if it were the line. -/
theorem functionFindings_cons_of_run? {c n : Command} (h : c.run? = some n) (id : String)
    (cs : List Command) :
    functionFindings commands texts ⟨id, c :: cs⟩
      = commandFindings commands texts id c ++ functionFindings commands texts ⟨id, n :: cs⟩ := by
  have hcommand : c.isCommand = true := by
    rw [Command.isCommand, (Command.kind_and_key?_of_run?_eq_some h).1]
    rfl
  simp only [functionFindings, Function.flat, List.flatMap_cons,
    Command.chain_of_run?_eq_some h, List.cons_append, List.filter_cons, hcommand, if_true]

/-! ## The checks of commands -/

/-- A command that summons nothing has no entity issues. -/
theorem entityIssues_eq_nil {c : Command} (h : ∀ entity, afterSummon entity c.raw.toList = none) :
    entityIssues c = [] := by
  simp only [entityIssues, summonsMarkerArmorStand, summonsInvisibleCloud, summonsCloud, h]
  rfl

/-- An `execute` was not renamed. -/
theorem commandIssues_eq_nil {c : Command} (h : c.key? = some "execute") :
    commandIssues c = [] := by
  rw [commandIssues, renamedCommands, h]
  rfl

/-- An `execute` adds no objective. -/
theorem statisticIssues_eq_nil {c : Command} (h : c.key? = some "execute") :
    statisticIssues c = [] := by
  rw [statisticIssues, addsObjective, h]
  rfl

/-- In an `execute` only ids are found, and those in its own text. -/
theorem commandFindings_of_key?_eq_execute {c : Command} (hkey : c.key? = some "execute")
    (hraw : "execute".toList <+: c.raw.toList) (id : String) :
    commandFindings commandChecks idChecks id c
      = (idIssues c.ownText).map fun issue =>
        .error (.command ⟨.function, id⟩ c.line c.raw) issue.message := by
  have hsummon : ∀ entity, afterSummon entity c.raw.toList = none := by
    intro entity
    obtain ⟨rest, hrest⟩ := hraw
    rw [← hrest]
    rfl
  simp only [commandFindings, commandChecks, idChecks, List.flatMap_cons, List.flatMap_nil,
    entityIssues_eq_nil hsummon, commandIssues_eq_nil hkey, statisticIssues_eq_nil hkey,
    List.nil_append, List.append_nil]

end PackLint.Upgrade
