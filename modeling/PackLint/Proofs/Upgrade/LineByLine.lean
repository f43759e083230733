import PackLint.Proofs.Upgrade.RenamedId

/-! # Findings line by line

    No check looks at the number of a line, which only says where a finding is.  So a line
    has the same findings wherever it stands, but for this number, and what is found in a
    text is what is found in its parts.  Lines without commands move what is found behind
    them, and do nothing else. -/

namespace PackLint

open Text

/-- The location with this done to the number of its line, if it is in one. -/
def Location.mapLine (g : Nat → Nat) : Location → Location
  | command r line raw => command r (g line) raw
  | location => location

/-- The finding with this done to the number of its line, if it is in one. -/
def Finding.mapLine (g : Nat → Nat) (f : Finding) : Finding :=
  { f with location := f.location.mapLine g }

/-- Line numbers can be changed one change after another. -/
theorem Finding.mapLine_mapLine (g h : Nat → Nat) (f : Finding) :
    (f.mapLine g).mapLine h = f.mapLine (h ∘ g) := by
  obtain ⟨severity, message, location, value⟩ := f
  cases location <;> rfl

namespace Upgrade

/-- What is found in a function with this id and this text. -/
def textFindings (id text : String) : List Finding :=
  functionFindings commandChecks idChecks (Function.ofText id text)

/-! ## Lines further down -/

/-- No check of commands looks at the number of the line. -/
theorem check_shift {check : CommandCheck} (hcheck : check ∈ commandChecks) (n : Nat)
    (c : Command) : check (c.shift n) = check c := by
  simp only [commandChecks, List.mem_cons, List.not_mem_nil, or_false] at hcheck
  rcases hcheck with rfl | rfl | rfl
  · rw [entityIssues, Command.raw_shift, Command.args_shift, entityIssues]
  · rw [commandIssues, Command.key?_shift, commandIssues]
  · have hadds : addsObjective (c.shift n) = addsObjective c := by
      rw [addsObjective, Command.key?_shift, Command.args_shift, addsObjective]
    rw [statisticIssues, hadds, Command.raw_shift, statisticIssues]

/-- The findings in a command move with it. -/
theorem commandFindings_shift (id : String) (n : Nat) (c : Command) :
    commandFindings commandChecks idChecks id (c.shift n)
      = (commandFindings commandChecks idChecks id c).map (Finding.mapLine (· + n)) := by
  have hchecks : (commandChecks.flatMap fun check => check (c.shift n))
      = commandChecks.flatMap fun check => check c :=
    List.flatMap_congr fun check hcheck => check_shift hcheck n c
  rw [commandFindings, commandFindings, hchecks, Command.ownText_shift, Command.line_shift,
    Command.raw_shift, List.map_map]
  rfl

/-- The findings in a line move with it. -/
theorem lineFindings_shift (id : String) (n : Nat) (c : Command) :
    lineFindings id (c.shift n) = (lineFindings id c).map (Finding.mapLine (· + n)) := by
  have hcommand : Command.isCommand ∘ Command.shift n = Command.isCommand := by
    funext d
    exact Command.isCommand_shift n d
  rw [lineFindings, Command.chain_shift, List.filter_map, hcommand, List.flatMap_map,
    lineFindings, List.map_flatMap]
  simp only [commandFindings_shift]

/-- The findings in a function move with its lines. -/
theorem functionFindings_map_shift (id : String) (n : Nat) (cs : List Command) :
    functionFindings commandChecks idChecks ⟨id, cs.map (Command.shift n)⟩
      = (functionFindings commandChecks idChecks ⟨id, cs⟩).map (Finding.mapLine (· + n)) := by
  rw [functionFindings_eq_flatMap, functionFindings_eq_flatMap, List.flatMap_map,
    List.map_flatMap]
  simp only [lineFindings_shift]

/-- What is found behind whole lines is found as if they were not there, further down. -/
theorem textFindings_append (id : String) {a : String} (h : WholeLines a.toList) (b : String) :
    textFindings id (a ++ b)
      = textFindings id a
        ++ (textFindings id b).map (Finding.mapLine (· + a.toList.count '\n')) := by
  show functionFindings commandChecks idChecks ⟨id, (Function.ofText id (a ++ b)).commands⟩ = _
  rw [Function.commands_ofText_append id h b, functionFindings_append, functionFindings_map_shift]
  rfl

/-! ## Lines without commands -/

/-- Nothing is found in a line that is no command. -/
theorem lineFindings_of_kind_ne {c : Command} (h : c.kind ≠ .command) (id : String) :
    lineFindings id c = [] := by
  cases c with
  | blank line => rfl
  | comment line raw => rfl
  | plain line raw key args => exact absurd rfl h
  | execute line raw args run => exact absurd rfl h

/-- But for the numbers of the lines, what is found on some lines is what is found on those
    of them that are neither blank nor comments. -/
theorem map_mapLine_functionFindings_readLines (id : String) (number : Nat)
    (ls : List (List Char)) :
    (functionFindings commandChecks idChecks ⟨id, Function.readLines number ls⟩).map
        (Finding.mapLine fun _ => 0)
      = (ls.filter fun l => !Command.isIdle l).flatMap fun l =>
          (lineFindings id (Command.ofChars 0 l)).map (Finding.mapLine fun _ => 0) := by
  have hidle : ∀ l ∈ ls, (!Command.isIdle l) = false →
      (lineFindings id (Command.ofChars 0 l)).map (Finding.mapLine fun _ => 0) = [] := by
    intro l _ hl
    have hkind : (Command.ofChars 0 l).kind ≠ .command := by
      rw [Ne, Command.kind_ofChars_eq_command_iff, Bool.not_eq_false, ← Bool.not_eq_false']
      exact hl
    rw [lineFindings_of_kind_ne hkind, List.map_nil]
  rw [flatMap_filter_of_nil hidle, functionFindings_eq_flatMap]
  clear hidle
  induction ls generalizing number with
  | nil => rfl
  | cons l ls ih =>
      -- the number of the first line is added last, and lost again
      have hnumber : (lineFindings id (Command.ofChars number l)).map (Finding.mapLine fun _ => 0)
          = (lineFindings id (Command.ofChars 0 l)).map (Finding.mapLine fun _ => 0) := by
        rw [← Nat.zero_add number, Command.ofChars_add, lineFindings_shift, List.map_map]
        apply List.map_congr_left
        intro f _
        exact Finding.mapLine_mapLine _ _ f
      rw [Function.readLines, List.flatMap_cons, List.map_append, ih, hnumber, List.flatMap_cons]

/-- Texts that differ in blank lines and comments only have the same findings, but for the
    numbers of their lines. -/
theorem map_mapLine_textFindings_congr (id : String) {s t : String}
    (h : ((lines s.toList).filter fun l => !Command.isIdle l)
      = (lines t.toList).filter fun l => !Command.isIdle l) :
    (textFindings id s).map (Finding.mapLine fun _ => 0)
      = (textFindings id t).map (Finding.mapLine fun _ => 0) := by
  rw [textFindings, Function.ofText, map_mapLine_functionFindings_readLines, h,
    ← map_mapLine_functionFindings_readLines id 1]
  rfl

/-! ## Functions in packs -/

/-- **Functions are checked line by line.**  What stands behind whole lines is read and
    checked as if it stood alone, and then moved down by as many lines.  So blank lines and
    comments have no part in what is found but by the numbers of the lines.  In a run what
    is found in a function stands between findings in which its text has no part.  Line
    feeds behind carriage returns end lines as line feeds do, and all commands of the chain
    of a line have its number. -/
theorem run_checks_line_by_line {metadata : Json} {format : Int}
    (hformat : format? metadata = some format) (id : String) :
    (∀ a b : String, WholeLines a.toList →
        (Function.ofText id (a ++ b)).commands
            = (Function.ofText id a).commands
              ++ (Function.ofText id b).commands.map (Command.shift (a.toList.count '\n'))
          ∧ textFindings id (a ++ b)
            = textFindings id a
              ++ (textFindings id b).map (Finding.mapLine (· + a.toList.count '\n')))
      ∧ (∀ s t : String, ((lines s.toList).filter fun l => !Command.isIdle l)
            = ((lines t.toList).filter fun l => !Command.isIdle l) →
          (textFindings id s).map (Finding.mapLine fun _ => 0)
            = (textFindings id t).map (Finding.mapLine fun _ => 0))
      ∧ (∀ (report : Report) (before after : List Namespace) (owner : String)
          (rs ts : List Resource), ∃ front back, ∀ text : String,
          (run ⟨metadata, before ++ ⟨owner, rs ++ [.function (Function.ofText id text)] ++ ts⟩
              :: after⟩ report).findings
            = front ++ textFindings id text ++ back)
      ∧ (∀ text : String,
          Function.ofText id (String.ofList (withReturns text.toList)) = Function.ofText id text)
      ∧ ∀ (text : String) (k : Nat) (c : Command),
          (Function.ofText id text).commands[k]? = some c → ∀ d ∈ c.chain, d.line = k + 1 := by
  refine ⟨?_, ?_, ?_, Function.ofText_withReturns id, ?_⟩
  · intro a b h
    exact ⟨Function.commands_ofText_append id h b, textFindings_append id h b⟩
  · intro s t h
    exact map_mapLine_textFindings_congr id h
  · intro report before after owner rs ts
    obtain ⟨front, back, hrun⟩ :=
      exists_run_findings_insert hformat report before after owner rs ts .function
    refine ⟨front, back, ?_⟩
    intro text
    rw [hrun [.function (Function.ofText id text)] (List.forall_mem_singleton.mpr rfl),
      List.flatMap_singleton]
    rfl
  · intro text k c hc d hd
    exact Function.line_of_mem_chain hc hd

/-- An `execute` behind two lines, the second of them blank, and a command that a comment
    stands in front of in one text and a blank line behind in another. -/
theorem run_checks_line_by_line_of_moved :
    let metadata : Json := .obj [("pack", .obj [("pack_format", .int 7)])]
    let front := "say hi\n\n"
    let line := "execute as @a run say grass_path"
    let nested := "The id grass_path has been renamed to dirt_path."
    format? metadata = some 7
      ∧ WholeLines front.toList
      ∧ textFindings "m:f" line = [.error (.command ⟨.function, "m:f"⟩ 1 "say grass_path") nested]
      ∧ textFindings "m:f" (front ++ line)
        = [.error (.command ⟨.function, "m:f"⟩ 3 "say grass_path") nested]
      ∧ (textFindings "m:f" "# items\nreplaceitem").map (Finding.mapLine fun _ => 0)
        = (textFindings "m:f" "replaceitem\n\n").map (Finding.mapLine fun _ => 0) := by
  intro metadata front line nested
  have hformat : format? metadata = some 7 := by
    decide
  have hfront : WholeLines front.toList := by
    decide +kernel
  have hline : textFindings "m:f" line
      = [.error (.command ⟨.function, "m:f"⟩ 1 "say grass_path") nested] := by
    decide +kernel
  obtain ⟨happend, hidle, _⟩ := run_checks_line_by_line hformat "m:f"
  refine ⟨hformat, hfront, hline, ?_, ?_⟩
  · rw [(happend front line hfront).2, hline]
    decide +kernel
  · exact hidle _ _ (by decide +kernel)

end Upgrade

end PackLint
