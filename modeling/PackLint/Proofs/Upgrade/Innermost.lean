import PackLint.Proofs.Upgrade.RenamedId
import PackLint.Proofs.Upgrade.Summon

/-! # At most one issue of commands on a line

    Each check of commands is about commands with certain keys.  No two checks are about
    the same key, and none is about `execute`, which is the key of every command that
    nests another.  So on a line only the innermost command has an issue, and one at most. -/

namespace PackLint.Upgrade

open Text

variable {line : Nat} {cs : List Char} {c : Command}

/-! ## Keys -/

/-- The checks of commands, and for each the keys that it is about. -/
def checkedKeys : List (CommandCheck × List String) :=
  [(entityIssues, ["summon"]), (commandIssues, renamedCommands.map Prod.fst),
    (statisticIssues, ["scoreboard"])]

theorem map_fst_checkedKeys : checkedKeys.map Prod.fst = commandChecks := rfl

/-- A text behind `summon` begins with a blank, so `summon` is the key. -/
theorem key?_of_afterSummon {name : String} {rest : List Char}
    (h : afterSummon name (Command.ofChars line cs).raw.toList = some rest) :
    (Command.ofChars line cs).key? = some "summon" := by
  rw [Command.toList_raw_ofChars] at h
  obtain ⟨behind, hbehind, h⟩ := Option.bind_eq_some_iff.mp h
  obtain ⟨_, hblanks, -⟩ := Option.bind_eq_some_iff.mp h
  have htrim : trim cs = "summon".toList ++ behind := afterPhrase_eq_some_iff.mp hbehind
  have hstops : Token.Stops .none behind := by
    cases behind with
    | nil => exact Token.stops_nil
    | cons d behind =>
        rw [afterBlanks] at hblanks
        split at hblanks
        · rename_i hd
          exact Token.stops_none (g := [d]) (List.forall_mem_singleton.mpr hd)
            (List.cons_ne_nil d [])
        · exact absurd hblanks.symm (Option.some_ne_none _)
  have hword : Token.nesting? "summon".toList = some .none := rfl
  have htokens : Token.ofChars 0 (trim cs) = ⟨0, "summon"⟩ :: _ :=
    htrim ▸ Token.ofChars_append_of_nesting? hword hstops
  generalize hc : Command.ofChars line cs = c
  cases hc ▸ Command.reads_ofChars line cs with
  | blank hnil =>
      rw [hnil, Token.ofChars_nil] at htokens
      exact absurd htokens.symm (List.cons_ne_nil _ _)
  | comment hhead =>
      rw [htrim] at hhead
      exact absurd (Option.some.inj hhead) (by decide : 's' ≠ '#')
  | plain htokens' hhead hnested =>
      obtain ⟨rfl, -⟩ := List.cons.inj (htokens'.symm.trans htokens)
      rfl
  | execute htokens' hhead hnested =>
      obtain ⟨rfl, -⟩ := List.cons.inj (htokens'.symm.trans htokens)
      exact absurd (Command.text_of_nestedToken? hnested) (by decide)

/-- Entity issues are found in `summon` only. -/
theorem key?_of_entityIssues (h : entityIssues (Command.ofChars line cs) ≠ []) :
    (Command.ofChars line cs).key? = some "summon" := by
  by_contra hkey
  refine h (entityIssues_eq_nil ?_)
  intro entity
  refine Option.eq_none_iff_forall_ne_some.mpr ?_
  intro rest hrest
  exact hkey (key?_of_afterSummon hrest)

/-- Command issues are found in commands that were renamed only. -/
theorem key?_of_commandIssues (h : commandIssues c ≠ []) :
    ∃ key ∈ renamedCommands.map Prod.fst, c.key? = some key := by
  obtain ⟨issue, hissue⟩ := List.exists_mem_of_ne_nil _ h
  obtain ⟨r, hr, -⟩ := List.mem_map.mp hissue
  obtain ⟨hmem, hkey⟩ := List.mem_filter.mp hr
  exact ⟨r.1, List.mem_map_of_mem hmem, beq_iff_eq.mp hkey⟩

/-- Statistic issues are found in `scoreboard` only. -/
theorem key?_of_statisticIssues (h : statisticIssues c ≠ []) : c.key? = some "scoreboard" := by
  by_contra hkey
  refine h ?_
  rw [statisticIssues, addsObjective, beq_false_of_ne hkey]
  rfl

/-- A command with an issue has a key that the check is about. -/
theorem exists_key?_of_mem_checkedKeys {entry : CommandCheck × List String}
    (hentry : entry ∈ checkedKeys) (h : entry.1 (Command.ofChars line cs) ≠ []) :
    ∃ key ∈ entry.2, (Command.ofChars line cs).key? = some key := by
  simp only [checkedKeys, List.mem_cons, List.not_mem_nil, or_false] at hentry
  rcases hentry with rfl | rfl | rfl
  · exact ⟨"summon", List.mem_singleton_self _, key?_of_entityIssues h⟩
  · exact key?_of_commandIssues h
  · exact ⟨"scoreboard", List.mem_singleton_self _, key?_of_statisticIssues h⟩

/-! ## One command -/

/-- A check of commands has something to say of commands only that nest no other. -/
theorem kind_and_run?_of_mem_commandChecks {check : CommandCheck} (hcheck : check ∈ commandChecks)
    (h : check (Command.ofChars line cs) ≠ []) :
    (Command.ofChars line cs).kind = .command ∧ (Command.ofChars line cs).run? = none := by
  rw [← map_fst_checkedKeys] at hcheck
  obtain ⟨entry, hentry, rfl⟩ := List.mem_map.mp hcheck
  obtain ⟨key, hmem, hkey⟩ := exists_key?_of_mem_checkedKeys hentry h
  have hexecute : ∀ entry ∈ checkedKeys, "execute" ∉ entry.2 := by
    simp [checkedKeys, renamedCommands]
  refine ⟨kind_of_key?_eq_some hkey, Option.eq_none_iff_forall_ne_some.mpr ?_⟩
  intro n hn
  have hkey' := (Command.kind_and_key?_of_run?_eq_some hn).2
  obtain rfl : key = "execute" := Option.some.inj (hkey.symm.trans hkey')
  exact hexecute entry hentry hmem

/-- Of two checks one at least has nothing to say of a command. -/
theorem pairwise_commandChecks (line : Nat) (cs : List Char) :
    commandChecks.Pairwise fun check other =>
      check (Command.ofChars line cs) = [] ∨ other (Command.ofChars line cs) = [] := by
  have hdisjoint : checkedKeys.Pairwise fun entry other => entry.2.Disjoint other.2 := by
    simp [checkedKeys, renamedCommands]
  rw [← map_fst_checkedKeys, List.pairwise_map]
  refine hdisjoint.imp_of_mem ?_
  intro entry other hentry hother hkeys
  by_contra hboth
  obtain ⟨hfirst, hsecond⟩ := not_or.mp hboth
  obtain ⟨key, hmem, hkey⟩ := exists_key?_of_mem_checkedKeys hentry hfirst
  obtain ⟨key', hmem', hkey'⟩ := exists_key?_of_mem_checkedKeys hother hsecond
  obtain rfl : key = key' := Option.some.inj (hkey.symm.trans hkey')
  exact hkeys hmem hmem'

/-- Each check of commands finds at most one issue in a command. -/
theorem length_le_one_of_mem_commandChecks {check : CommandCheck} (hcheck : check ∈ commandChecks)
    (c : Command) : (check c).length ≤ 1 := by
  simp only [commandChecks, List.mem_cons, List.not_mem_nil, or_false] at hcheck
  rcases hcheck with rfl | rfl | rfl
  · rw [entityIssues]
    split
    · exact Nat.le_refl 1
    · split
      · exact Nat.le_refl 1
      · exact Nat.zero_le 1
  · rw [commandIssues, List.length_map]
    exact List.length_filter_le _ renamedCommands
  · rw [statisticIssues]
    split
    · exact Nat.le_refl 1
    · exact Nat.zero_le 1

/-- If each of these functions gives at most one value, and of two of them one gives none, all
    of them together give at most one. -/
theorem length_flatMap_le_one {α β : Type} {f : α → List β} {l : List α}
    (hone : ∀ a ∈ l, (f a).length ≤ 1) (hpair : l.Pairwise fun a b => f a = [] ∨ f b = []) :
    (l.flatMap f).length ≤ 1 := by
  induction l with
  | nil => exact Nat.zero_le 1
  | cons a l ih =>
      obtain ⟨ha, hone⟩ := List.forall_mem_cons.mp hone
      obtain ⟨hothers, hpair⟩ := List.pairwise_cons.mp hpair
      rw [List.flatMap_cons, List.length_append]
      by_cases hnil : f a = []
      · rw [hnil, List.length_nil, Nat.zero_add]
        exact ih hone hpair
      · have hrest : l.flatMap f = [] :=
          List.flatMap_eq_nil_iff.mpr fun b hb => (hothers b hb).resolve_left hnil
        rw [hrest, List.length_nil, Nat.add_zero]
        exact ha

/-- What the checks of commands say of a command. -/
def issuesOfCommand (c : Command) : List Issue :=
  commandChecks.flatMap fun check => check c

/-- As the checks are about different keys, all of them together find at most one issue. -/
theorem length_issuesOfCommand_le_one (line : Nat) (cs : List Char) :
    (issuesOfCommand (Command.ofChars line cs)).length ≤ 1 :=
  length_flatMap_le_one (fun _ hcheck => length_le_one_of_mem_commandChecks hcheck _)
    (pairwise_commandChecks line cs)

/-! ## The chain of a line -/

/-- What the checks of commands say of the commands on a line they say of the innermost
    one, and they say one thing at most. -/
structure SaysOnce (c innermost : Command) : Prop where
  getLast?_chain : c.chain.getLast? = some innermost
  flatMap_chain : c.chain.flatMap issuesOfCommand = issuesOfCommand innermost
  length_le : (issuesOfCommand innermost).length ≤ 1
  /-- Nothing is said of a command that nests another, of a comment or of a blank line. -/
  silent : ∀ d ∈ c.chain, d.run? ≠ none ∨ d.kind ≠ .command → ∀ check ∈ commandChecks, check d = []
  /-- No two checks have something to say of one command. -/
  disjoint : ∀ d ∈ c.chain, commandChecks.Pairwise fun check other => check d = [] ∨ other d = []

/-- Nothing is found in a command that nests another one, nor in what is no command. -/
theorem silent_of_mem_chain {d : Command} (hd : d ∈ (Command.ofChars line cs).chain)
    (h : d.run? ≠ none ∨ d.kind ≠ .command) {check : CommandCheck} (hcheck : check ∈ commandChecks) :
    check d = [] := by
  by_contra hne
  obtain ⟨ds, rfl⟩ := Command.exists_ofChars_of_mem_chain hd
  obtain ⟨hkind, hrun⟩ := kind_and_run?_of_mem_commandChecks hcheck hne
  exact h.elim (fun h => h hrun) (fun h => h hkind)

/-- Where each check finds nothing, nothing is found. -/
theorem issuesOfCommand_eq_nil {d : Command} (h : ∀ check ∈ commandChecks, check d = []) :
    issuesOfCommand d = [] :=
  List.flatMap_eq_nil_iff.mpr h

/-- What is said of the commands of a chain is said of the last one, if nothing is said of a
    command that nests another. -/
theorem flatMap_chain_eq {β : Type} {f : Command → List β} {innermost : Command}
    (hlast : c.chain.getLast? = some innermost) (hf : ∀ d ∈ c.chain, d.run? ≠ none → f d = []) :
    c.chain.flatMap f = f innermost := by
  have hfront : c.chain.dropLast.flatMap f = [] := by
    refine List.flatMap_eq_nil_iff.mpr ?_
    intro d hd
    obtain ⟨n, hn⟩ := Command.exists_run?_of_mem_dropLast_chain hd
    exact hf d (List.dropLast_subset _ hd) (hn ▸ Option.some_ne_none n)
  rw [← List.dropLast_append_getLast? innermost hlast, List.flatMap_append, hfront,
    List.nil_append, List.flatMap_singleton]

/-- What is found in a line is found in its innermost command. -/
theorem exists_saysOnce_ofChars (line : Nat) (cs : List Char) :
    ∃ innermost, SaysOnce (Command.ofChars line cs) innermost := by
  obtain ⟨innermost, hlast⟩ : ∃ d, (Command.ofChars line cs).chain.getLast? = some d :=
    ⟨_, List.getLast?_eq_some_getLast (Command.chain_ne_nil _)⟩
  refine ⟨innermost, hlast, ?_, ?_, ?_, ?_⟩
  · refine flatMap_chain_eq hlast ?_
    intro d hd h
    exact issuesOfCommand_eq_nil fun _ hcheck => silent_of_mem_chain hd (.inl h) hcheck
  · obtain ⟨ds, rfl⟩ := Command.exists_ofChars_of_mem_chain (List.mem_of_getLast? hlast)
    exact length_issuesOfCommand_le_one line ds
  · intro d hd h check hcheck
    exact silent_of_mem_chain hd h hcheck
  · intro d hd
    obtain ⟨ds, rfl⟩ := Command.exists_ofChars_of_mem_chain hd
    exact pairwise_commandChecks line ds

/-- The walk passes over what is no command, and loses nothing by it. -/
theorem functionFindings_singleton {innermost : Command}
    (honce : SaysOnce (Command.ofChars line cs) innermost) (id : String) :
    functionFindings commandChecks [] ⟨id, [Command.ofChars line cs]⟩
      = (issuesOfCommand innermost).map fun issue =>
        .error (.command ⟨.function, id⟩ line innermost.raw) issue.message := by
  have hfindings : ∀ d, commandFindings commandChecks [] id d =
      (issuesOfCommand d).map fun issue =>
        .error (.command ⟨.function, id⟩ d.line d.raw) issue.message := by
    intro d
    rw [commandFindings, List.flatMap_nil, List.append_nil]
    rfl
  have hnil : ∀ d ∈ (Command.ofChars line cs).chain, d.run? ≠ none ∨ d.kind ≠ .command →
      commandFindings commandChecks [] id d = [] := by
    intro d hd h
    rw [hfindings, issuesOfCommand_eq_nil (honce.silent d hd h), List.map_nil]
  have hmem := List.mem_of_getLast? honce.getLast?_chain
  have hlast : commandFindings commandChecks [] id innermost
      = (issuesOfCommand innermost).map fun issue =>
        .error (.command ⟨.function, id⟩ line innermost.raw) issue.message := by
    obtain ⟨ds, hds⟩ := Command.exists_ofChars_of_mem_chain hmem
    have hline : innermost.line = line := hds ▸ Command.line_ofChars
    rw [hfindings, hline]
  have hfilter : functionFindings commandChecks [] ⟨id, [Command.ofChars line cs]⟩
      = (Command.ofChars line cs).chain.flatMap (commandFindings commandChecks [] id) := by
    show (([Command.ofChars line cs].flatMap Command.chain).filter Command.isCommand).flatMap _ = _
    rw [List.flatMap_singleton]
    refine flatMap_filter_of_nil ?_
    intro d hd hcommand
    refine hnil d hd (.inr ?_)
    intro hkind
    rw [Command.isCommand, hkind] at hcommand
    exact absurd hcommand (by decide)
  rw [hfilter, flatMap_chain_eq honce.getLast?_chain fun d hd h => hnil d hd (.inl h), hlast]

/-- **At most one issue of commands on a line, and at the innermost command.**  On each line
    of a function all checks of commands together have one thing to say at most.  They say
    it of the last command of the line's chain, and there the walk through the functions
    reports it. -/
theorem says_once_per_line {text : String} {k : Nat} {line : List Char}
    (hline : (lines text.toList)[k]? = some line) (id : String) :
    ∃ c innermost, (Function.ofText id text).commands[k]? = some c
      ∧ c.line = k + 1
      ∧ c.raw.toList = trim line
      ∧ SaysOnce c innermost
      ∧ functionFindings commandChecks [] ⟨id, [c]⟩
        = (issuesOfCommand innermost).map fun issue =>
          .error (.command ⟨.function, id⟩ (k + 1) innermost.raw) issue.message := by
  obtain ⟨innermost, honce⟩ := exists_saysOnce_ofChars (k + 1) line
  refine ⟨Command.ofChars (k + 1) line, innermost, ?_, Command.line_ofChars,
    Command.toList_raw_ofChars, honce, functionFindings_singleton honce id⟩
  rw [Function.ofText, Function.getElem?_readLines, hline, Option.map_some, Nat.add_comm]

/-- The second line nests an `execute` that summons a cloud, and that is said of it. -/
theorem says_once_per_line_of_nested :
    let text := "say hi\nexecute as @a run execute at @s run summon area_effect_cloud"
    (lines text.toList)[1]?
        = some "execute as @a run execute at @s run summon area_effect_cloud".toList
      ∧ ∃ c innermost, (Function.ofText "m:f" text).commands[1]? = some c
        ∧ SaysOnce c innermost
        ∧ innermost.raw = "summon area_effect_cloud"
        ∧ issuesOfCommand innermost = [.invisibleCloud] := by
  intro text
  have hline : (lines text.toList)[1]?
      = some "execute as @a run execute at @s run summon area_effect_cloud".toList := by
    decide +kernel
  have hchain : (Function.ofText "m:f" text).commands[1]?.map
        (fun c => (c.chain.getLast?.map Command.raw, c.chain.flatMap issuesOfCommand))
      = some (some "summon area_effect_cloud", [.invisibleCloud]) := by
    decide +kernel
  obtain ⟨c, innermost, hc, -, -, honce, -⟩ := says_once_per_line hline "m:f"
  rw [hc, Option.map_some, honce.getLast?_chain, honce.flatMap_chain] at hchain
  obtain ⟨hraw, hissues⟩ := Prod.mk.inj (Option.some.inj hchain)
  exact ⟨hline, c, innermost, hc, honce, Option.some.inj hraw, hissues⟩

end PackLint.Upgrade
