import PackLint.Proofs.Command.Words
import PackLint.Proofs.Resource.Function
import PackLint.Proofs.Upgrade.Findings
import PackLint.Proofs.Upgrade.Function

/-! # Renamed ids in the lines of functions

    A line is checked for renamed ids command by command: each command of its chain
    by its own text.  Since the commands share the words of the line out among them,
    an id is found in the line exactly if it is found in one of them, and as often as
    there are commands that have it. -/

namespace PackLint

open Text

/-- The line is an `execute` that runs in the end what would be a comment. -/
def Command.EndsInNestedComment (c : Command) : Prop :=
  c.run? ≠ none ∧ ∃ d ∈ c.chain.getLast?, d.kind = .comment

/-- A command that nests no other is the last one of its chain. -/
theorem Command.mem_getLast?_chain {c d : Command} (hd : d ∈ c.chain) (h : d.run? = none) :
    d ∈ c.chain.getLast? := by
  rw [← List.dropLast_concat_getLast (chain_ne_nil c)] at hd
  rcases List.mem_append.mp hd with hd | hd
  · obtain ⟨n, hn⟩ := exists_run?_of_mem_dropLast_chain hd
    exact nomatch h.symm.trans hn
  · rw [List.mem_singleton.mp hd]
    exact List.getLast_mem_getLast? _

namespace Upgrade

/-! ## Findings in commands -/

/-- The finding points to a command. -/
def inCommand (f : Finding) : Bool :=
  match f.location with
  | .command .. => true
  | _ => false

/-- The findings in a line of the function with this id, command by command. -/
def lineFindings (id : String) (c : Command) : List Finding :=
  (c.chain.filter Command.isCommand).flatMap (commandFindings commandChecks idChecks id)

/-- The findings in a function are those in its lines. -/
theorem functionFindings_eq_flatMap (f : Function) :
    functionFindings commandChecks idChecks f = f.commands.flatMap (lineFindings f.id) := by
  rw [functionFindings, Function.flat, List.filter_flatMap, List.flatMap_assoc]
  rfl

/-- Of the findings in a resource, all point to commands or none does. -/
theorem filter_inCommand_resourceFindings (r : Resource) :
    (resourceFindings r).filter inCommand
      = if r.kind = .function then resourceFindings r else [] := by
  cases r with
  | function f =>
      rw [Resource.kind, if_pos rfl]
      refine List.filter_eq_self.mpr ?_
      intro finding hfinding
      obtain ⟨c, _, hfinding⟩ := List.mem_flatMap.mp hfinding
      obtain ⟨issue, _, rfl⟩ := List.mem_map.mp hfinding
      rfl
  | document kind d =>
      rw [if_neg (by exact Kind.noConfusion)]
      refine List.filter_eq_nil_iff.mpr ?_
      intro finding hfinding
      rcases List.mem_append.mp hfinding with hfinding | hfinding
      · obtain ⟨check, _, hfinding⟩ := List.mem_flatMap.mp hfinding
        rw [valueFindings] at hfinding
        split at hfinding
        · exact absurd hfinding List.not_mem_nil
        · obtain ⟨issue, _, rfl⟩ := List.mem_map.mp hfinding
          exact Bool.false_ne_true
      · obtain ⟨issue, _, rfl⟩ := List.mem_map.mp hfinding
        exact Bool.false_ne_true
  | tag kind d =>
      rw [if_neg (by exact Kind.noConfusion)]
      refine List.filter_eq_nil_iff.mpr ?_
      intro finding hfinding
      obtain ⟨entry, _, hfinding⟩ := List.mem_flatMap.mp hfinding
      obtain ⟨issue, _, rfl⟩ := List.mem_map.mp hfinding
      exact Bool.false_ne_true

/-- What a walk through all kinds finds in commands it finds in the functions. -/
theorem filter_inCommand_visits (namespaces : List Namespace) :
    ((visits Kind.all namespaces).flatMap resourceFindings).filter inCommand
      = namespaces.flatMap fun ns => ns.functions.flatMap fun f =>
          f.commands.flatMap (lineFindings f.id) := by
  obtain ⟨others, hall, hothers⟩ : ∃ others, Kind.all = .function :: others
      ∧ ∀ kind ∈ others, kind ≠ .function := ⟨_, rfl, by decide⟩
  -- the functions are the first kind, and the other kinds add nothing in commands
  have hkind : ∀ kind, ∀ r ∈ namespaces.flatMap fun ns => ns.ofKind kind, r.kind = kind := by
    intro kind r hr
    obtain ⟨ns, _, hr⟩ := List.mem_flatMap.mp hr
    exact beq_iff_eq.mp (List.mem_filter.mp hr).2
  rw [hall, visits_cons, List.flatMap_append, List.filter_append, List.filter_flatMap,
    List.filter_flatMap]
  have hrest : ((visits others namespaces).flatMap fun r =>
      (resourceFindings r).filter inCommand) = [] := by
    refine List.flatMap_eq_nil_iff.mpr ?_
    intro r hr
    obtain ⟨kind, hmem, hr⟩ := List.mem_flatMap.mp hr
    rw [filter_inCommand_resourceFindings, if_neg (hkind kind r hr ▸ hothers kind hmem)]
  have hfunctions : ((namespaces.flatMap fun ns => ns.ofKind .function).flatMap fun r =>
      (resourceFindings r).filter inCommand)
        = (namespaces.flatMap fun ns => ns.ofKind .function).flatMap resourceFindings := by
    apply List.flatMap_congr
    intro r hr
    rw [filter_inCommand_resourceFindings, if_pos (hkind .function r hr)]
  rw [hrest, hfunctions, List.append_nil, List.flatMap_assoc]
  apply List.flatMap_congr
  intro ns _
  rw [← ns.map_functions, List.flatMap_map]
  apply List.flatMap_congr
  intro f _
  exact functionFindings_eq_flatMap f

/-! ## Findings of a renamed id -/

/-- The finding that a command of the function with this id has a renamed id in it. -/
def renamedIdFinding (r : String × String) (id : String) (c : Command) : Finding :=
  .error (.command ⟨.function, id⟩ c.line c.raw) (Issue.renamedId r.1 r.2).message

/-- The finding says that this id was renamed. -/
def reportsRenamedId (r : String × String) (f : Finding) : Bool :=
  f.message == (Issue.renamedId r.1 r.2).message

/-- An id is reported exactly if the text has it as a word. -/
theorem mem_idIssues_iff {r : String × String} (hr : r ∈ renamedIds) {text : String} :
    .renamedId r.1 r.2 ∈ idIssues text ↔ hasWord r.1.toList text.toList = true := by
  constructor
  · intro h
    obtain ⟨s, hs, heq⟩ := List.mem_map.mp h
    obtain ⟨hold, _⟩ := Issue.renamedId.inj heq
    rw [← hold]
    exact (List.mem_filter.mp hs).2
  · intro h
    exact List.mem_map.mpr ⟨r, List.mem_filter.mpr ⟨hr, h⟩, rfl⟩

/-- No check of commands but the one for ids says that an id was renamed. -/
theorem message_ne_of_mem_commandChecks {r : String × String} (hr : r ∈ renamedIds)
    {c : Command} {issue : Issue} (h : issue ∈ commandChecks.flatMap fun check => check c) :
    issue.message ≠ (Issue.renamedId r.1 r.2).message := by
  have hdiffer : ∀ r ∈ renamedIds, ∀ issue ∈ [Issue.markerArmorStand, .invisibleCloud,
      .renamedCommand "replaceitem" "item replace",
      .renamedStatistic "minecraft.custom:minecraft.play_one_minute"
        "minecraft.custom:minecraft.play_time"],
      issue.message ≠ (Issue.renamedId r.1 r.2).message := by
    decide
  apply hdiffer r hr
  obtain ⟨check, hcheck, hissue⟩ := List.mem_flatMap.mp h
  simp only [commandChecks, List.mem_cons, List.not_mem_nil, or_false] at hcheck
  rcases hcheck with rfl | rfl | rfl
  · rw [entityIssues] at hissue
    split at hissue
    · simp_all
    · split at hissue
      · simp_all
      · exact absurd hissue List.not_mem_nil
  · obtain ⟨s, hs, rfl⟩ := List.mem_map.mp hissue
    obtain rfl := List.mem_singleton.mp (List.mem_of_mem_filter hs)
    simp
  · rw [statisticIssues] at hissue
    split at hissue
    · simp_all
    · exact absurd hissue List.not_mem_nil

/-- Of what is found in a command, one finding says that this id was renamed if the own
    text of the command has it as a word, and none otherwise. -/
theorem filter_reportsRenamedId_commandFindings {r : String × String} (hr : r ∈ renamedIds)
    (id : String) (c : Command) :
    (commandFindings commandChecks idChecks id c).filter (reportsRenamedId r)
      = if hasWord r.1.toList c.ownText.toList then [renamedIdFinding r id c] else [] := by
  -- the checks of commands say other things, and the table has every id once
  let tells : Issue → Bool := fun issue => issue.message == (Issue.renamedId r.1 r.2).message
  have hchecks : (commandChecks.flatMap fun check => check c).filter tells = [] := by
    refine List.filter_eq_nil_iff.mpr ?_
    intro issue hissue heq
    exact message_ne_of_mem_commandChecks hr hissue (beq_iff_eq.mp heq)
  have htells : ∀ s ∈ renamedIds, tells (.renamedId s.1 s.2) = (s == r) := by
    have hdiffer : ∀ r ∈ renamedIds, ∀ s ∈ renamedIds,
        ((Issue.renamedId s.1 s.2).message == (Issue.renamedId r.1 r.2).message) = (s == r) := by
      decide
    exact hdiffer r hr
  have hids : (idIssues c.ownText).filter tells
      = if hasWord r.1.toList c.ownText.toList then [.renamedId r.1 r.2] else [] := by
    have hfilter : (renamedIds.filter fun s => hasWord s.1.toList c.ownText.toList).filter
        (tells ∘ fun s => .renamedId s.1 s.2) = _ :=
      List.filter_congr fun s hs => htells s (List.mem_of_mem_filter hs)
    rw [idIssues, List.filter_map, hfilter, filter_filter_beq (by decide) hr]
    split <;> rfl
  rw [commandFindings, List.filter_map, List.filter_append, idChecks, List.flatMap_singleton]
  show List.map _ (List.filter tells _ ++ List.filter tells _) = _
  rw [hchecks, hids, List.nil_append]
  split <;> rfl

/-- A line is reported to have a renamed id once for each command of its chain that has the
    id as a word in its own text. -/
theorem filter_reportsRenamedId_lineFindings {r : String × String} (hr : r ∈ renamedIds)
    (id : String) (c : Command) :
    (lineFindings id c).filter (reportsRenamedId r)
      = (c.chain.filter fun d => d.isCommand && hasWord r.1.toList d.ownText.toList).map
          (renamedIdFinding r id) := by
  simp only [lineFindings, List.filter_flatMap, filter_reportsRenamedId_commandFindings hr,
    flatMap_ite_singleton, List.filter_filter, Bool.and_comm]

/-! ## Lines of functions -/

/-- Of a line that runs no comment, a command other than a comment has a word in its own
    text exactly if the line is no comment and has the word. -/
theorem exists_isCommand_hasWord_iff {c : Command} (hdivides : c.Divides)
    (hend : ¬c.EndsInNestedComment) {phrase : List Char} (hphrase : phrase ≠ [])
    (hsolid : ∀ a ∈ phrase, isBlank a = false) :
    (∃ d ∈ c.chain, d.isCommand = true ∧ hasWord phrase d.ownText.toList = true)
      ↔ c.kind ≠ .comment ∧ hasWord phrase c.raw.toList = true := by
  rw [hdivides.hasWord_raw_iff hphrase hsolid]
  constructor
  · rintro ⟨d, hd, hcommand, hword⟩
    refine ⟨?_, d, hd, hword⟩
    intro hcomment
    -- a comment is the only command of its chain
    cases c with
    | comment line raw =>
        rw [List.mem_singleton.mp hd] at hcommand
        exact Bool.false_ne_true hcommand
    | _ => exact nomatch hcomment
  · rintro ⟨hcomment, d, hd, hword⟩
    refine ⟨d, hd, ?_, hword⟩
    cases d with
    | blank line =>
        obtain ⟨place, hplace⟩ := hasWord_eq_true_iff.mp hword
        have hle : place + phrase.length ≤ 0 := hplace.place_add_length_le
        have hpos := List.length_pos_of_ne_nil hphrase
        omega
    | comment line raw =>
        refine absurd ⟨?_, _, Command.mem_getLast?_chain hd rfl, rfl⟩ hend
        intro hnone
        rw [Command.chain_of_run?_eq_none hnone] at hd
        rw [← List.mem_singleton.mp hd] at hcomment
        exact hcomment rfl
    | _ => rfl

/-- **No renamed id in a function is lost, and none is reported twice.**  What a run finds
    in commands it finds line by line in the functions.  The commands on a line share the
    words of the line out among them, and for each command that has a renamed id in its own
    text there is one finding.  There is none for comments and blank lines; for a line that
    runs no comment there is one exactly if the line as a whole has the id. -/
theorem run_finds_renamed_ids {pack : Pack} {format : Int}
    (hformat : format? pack.metadata = some format) (report : Report) :
    (run pack report).findings.filter inCommand
        = report.findings.filter inCommand
          ++ (pack.namespaces.flatMap fun ns => ns.functions.flatMap fun f =>
            f.commands.flatMap (lineFindings f.id))
      ∧ ∀ (id text : String) (k : Nat) (line : List Char), (lines text.toList)[k]? = some line →
        ∃ c, (Function.ofText id text).commands[k]? = some c ∧ c.line = k + 1
          ∧ c.raw.toList = trim line
          ∧ (c.kind ≠ .command → lineFindings id c = [])
          ∧ ∀ r ∈ renamedIds,
            Command.SharesWords r.1.toList c
            ∧ (lineFindings id c).filter (reportsRenamedId r)
              = (c.chain.filter fun d => d.isCommand && hasWord r.1.toList d.ownText.toList).map
                  (renamedIdFinding r id)
            ∧ (¬c.EndsInNestedComment →
              ((lineFindings id c).filter (reportsRenamedId r) ≠ []
                ↔ c.kind ≠ .comment ∧ .renamedId r.1 r.2 ∈ idIssues c.raw)) := by
  constructor
  · have hpack : ∀ format, (formatFindings format).filter inCommand = [] := by
      intro format
      refine List.filter_eq_nil_iff.mpr ?_
      intro finding hfinding
      obtain ⟨message, _, rfl⟩ := List.mem_map.mp hfinding
      exact Bool.false_ne_true
    rw [run_findings_of_format? hformat, List.filter_append, List.filter_append, hpack,
      List.append_nil, filter_inCommand_visits]
  · intro id text k line hline
    refine ⟨Command.ofChars (1 + k) line, ?_, ?_, Command.toList_raw_ofChars, ?_, ?_⟩
    · rw [Function.ofText, Function.getElem?_readLines, hline, Option.map_some]
    · rw [Command.line_ofChars, Nat.add_comm]
    · intro hkind
      generalize Command.ofChars (1 + k) line = c at hkind
      cases c with
      | blank line => rfl
      | comment line raw => rfl
      | _ => exact absurd rfl hkind
    · intro r hr
      obtain ⟨hphrase, hsolid⟩ : r.1.toList ≠ [] ∧ ∀ a ∈ r.1.toList, isBlank a = false := by
        have hall : ∀ r ∈ renamedIds, r.1.toList ≠ [] ∧ r.1.toList.any isBlank = false := by
          decide
        obtain ⟨hne, hany⟩ := hall r hr
        exact ⟨hne, fun a ha => Bool.eq_false_iff.mpr (List.any_eq_false.mp hany a ha)⟩
      have hdivides := Command.divides_ofChars (1 + k) line
      refine ⟨hdivides.sharesWords hphrase hsolid, filter_reportsRenamedId_lineFindings hr id _, ?_⟩
      intro hend
      rw [filter_reportsRenamedId_lineFindings hr, mem_idIssues_iff hr,
        ← exists_isCommand_hasWord_iff hdivides hend hphrase hsolid, Ne, List.map_eq_nil_iff,
        List.filter_eq_nil_iff]
      simp only [Bool.and_eq_true, not_forall, not_not, exists_prop]

/-- The id stands in both commands of the line, and each is reported once. -/
theorem run_finds_renamed_ids_of_nested :
    let text := "execute as grass_path run say grass_path"
    let metadata : Json := .obj [("pack", .obj [("pack_format", .int 7)])]
    let function := Function.ofText "m:f" text
    format? metadata = some 7
      ∧ (∃ c, function.commands[0]? = some c ∧ Command.SharesWords "grass_path".toList c)
      ∧ ((run ⟨metadata, [⟨"m", [.function function]⟩]⟩ .empty).findings.filter inCommand).map
          (fun f => (f.message, f.location))
        = [("The id grass_path has been renamed to dirt_path.",
            .command ⟨.function, "m:f"⟩ 1 "execute as grass_path run say grass_path"),
          ("The id grass_path has been renamed to dirt_path.",
            .command ⟨.function, "m:f"⟩ 1 "say grass_path")] := by
  intro text metadata function
  have hformat : format? metadata = some 7 := by
    decide
  obtain ⟨hfindings, hlines⟩ := run_finds_renamed_ids
    (show format? (Pack.mk metadata [⟨"m", [.function function]⟩]).metadata = some 7 from hformat)
    .empty
  refine ⟨hformat, ?_, ?_⟩
  · obtain ⟨c, hc, _, _, _, hids⟩ := hlines "m:f" text 0 text.toList (by decide +kernel)
    exact ⟨c, hc, (hids ("grass_path", "dirt_path") List.mem_cons_self).1⟩
  · rw [hfindings]
    decide +kernel

end Upgrade

end PackLint
