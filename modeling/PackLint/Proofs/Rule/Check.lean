import PackLint.Proofs.Upgrade.Findings
import PackLint.Rule

/-! # Checks that are refused

    A check is refused before any rule is run, so what it adds to a report is nothing or
    all that the rules find.  To see that nothing is left behind by a check that stops,
    `checkInto` goes through it step by step on a report that is kept in any case:
    `run_checkInto` says that it does what `check` does.

    What an accepted check adds does not depend on its settings.  Rules are selected by
    name, and no rule is left out where only names of rules are given, so the names
    neither choose nor repeat anything. -/

namespace PackLint

/-! ## Checks step by step -/

/-- A check under way.  The report stays, also where the check stops. -/
abbrev Checking := ExceptT CheckError (StateM Report)

/-- Stops at a name that no rule has. -/
def Checking.validate (name : String) : Checking Unit :=
  if (Rule.find? name).isNone then throw (.unknownRule name) else pure ()

/-- Lets a rule add what it finds, if it is enabled. -/
def Checking.apply (s : Settings) (pack : Pack) (rule : Rule) : Checking Unit :=
  if s.isEnabled rule.name then modify (rule.run pack s.config) else pure ()

/-- Goes through the names, and then through the rules. -/
def checkInto (s : Settings) (pack : Pack) : Checking Unit := do
  forM s.rules Checking.validate
  forM Rule.all (Checking.apply s pack)

/-- What becomes of a check, and the report behind it. -/
def checkOn (s : Settings) (pack : Pack) (report : Report) :
    Except CheckError Unit × Report :=
  (checkInto s pack).run.run report

/-- Checks a pack with one settings after another, on the same report. -/
def checkAll (settings : List Settings) (pack : Pack) (report : Report) :
    List (Except CheckError Unit) × Report :=
  (settings.mapM fun s => (checkInto s pack).run).run report

/-- The first name that no rule has stops the check. -/
theorem forM_validate (names : List String) :
    forM names Checking.validate
      = match names.find? fun name => (Rule.find? name).isNone with
        | some name => throw (.unknownRule name)
        | none => pure () := by
  induction names with
  | nil => rfl
  | cons name names ih =>
      rw [List.forM_cons, ih, Checking.validate, List.find?_cons]
      cases (Rule.find? name).isNone with
      | true => rfl
      | false => exact pure_bind () _

/-- The rules that are enabled add their findings one after another. -/
theorem forM_apply (s : Settings) (pack : Pack) (rules : List Rule) :
    forM rules (Checking.apply s pack)
      = modify fun report => (rules.filter fun rule => s.isEnabled rule.name).foldl
          (fun report rule => rule.run pack s.config report) report := by
  induction rules with
  | nil => rfl
  | cons rule rules ih =>
      rw [List.forM_cons, ih, Checking.apply, List.filter_cons]
      cases s.isEnabled rule.name with
      | true => rfl
      | false => rfl

/-- Step by step a check comes to the same end, and behind an error the report is the one
    in front of the check. -/
theorem checkOn_eq (s : Settings) (pack : Pack) (report : Report) :
    checkOn s pack report = match check s pack report with
      | .ok report' => (.ok (), report')
      | .error e => (.error e, report) := by
  rw [checkOn, checkInto, forM_validate, forM_apply, check]
  cases s.rules.find? fun name => (Rule.find? name).isNone with
  | some name => rfl
  | none => rfl

/-! ## Names of rules -/

/-- Some rule has this name. -/
def IsRule (name : String) : Prop :=
  ∃ rule ∈ Rule.all, rule.name = name

instance (name : String) : Decidable (IsRule name) :=
  inferInstanceAs (Decidable (∃ rule ∈ Rule.all, rule.name = name))

/-- Only names of rules are given. -/
def Settings.IsAccepted (s : Settings) : Prop :=
  ∀ name ∈ s.rules, IsRule name

instance (s : Settings) : Decidable s.IsAccepted :=
  inferInstanceAs (Decidable (∀ name ∈ s.rules, IsRule name))

/-- A rule is found exactly by the names that rules have. -/
theorem isNone_find?_iff {name : String} : (Rule.find? name).isNone = true ↔ ¬IsRule name := by
  rw [Option.isNone_iff_eq_none, Rule.find?, List.find?_eq_none]
  simp [IsRule]

/-- Settings are accepted, or there is a first name that no rule has. -/
theorem Settings.isAccepted_or_exists (s : Settings) :
    s.IsAccepted ∨ ∃ known name rest, s.rules = known ++ name :: rest
      ∧ (∀ other ∈ known, IsRule other) ∧ ¬IsRule name := by
  cases h : s.rules.find? fun name => !decide (IsRule name) with
  | none =>
      left
      intro name hname
      simpa using List.find?_eq_none.mp h name hname
  | some name =>
      obtain ⟨hname, known, rest, hrules, hknown⟩ := List.find?_eq_some_iff_append.mp h
      right
      refine ⟨known, name, rest, hrules, ?_, by simpa using hname⟩
      intro other hother
      simpa using hknown other hother

/-! ## What rules add -/

/-- What a rule finds in a pack. -/
def Rule.findings (pack : Pack) (rule : Rule) : List Finding :=
  (rule.run pack none .empty).findings

/-- What all rules find in a pack. -/
def allFindings (pack : Pack) : List Finding :=
  Rule.all.flatMap (Rule.findings pack)

/-- The only rule is the upgrade. -/
theorem allFindings_eq (pack : Pack) : allFindings pack = (Upgrade.run pack .empty).findings :=
  List.append_nil _

/-- Findings that are added one after another are added in order. -/
theorem Report.append_append (report : Report) (fs gs : List Finding) :
    (report.append fs).append gs = report.append (fs ++ gs) :=
  congrArg Report.mk (List.append_assoc _ _ _)

theorem Report.append_nil (report : Report) : report.append [] = report :=
  congrArg Report.mk (List.append_nil report.findings)

/-- A rule looks neither at its configuration nor at the report that it adds to. -/
theorem Rule.run_eq_append {rule : Rule} (hrule : rule ∈ all) (pack : Pack)
    (config : Option Json) (report : Report) :
    rule.run pack config report = report.append (rule.findings pack) := by
  obtain rfl := List.mem_singleton.mp hrule
  exact Upgrade.run_eq_append pack report

/-- Rules one after another add their findings one behind the other. -/
theorem foldl_run {rules : List Rule} (hrules : ∀ rule ∈ rules, rule ∈ Rule.all) (pack : Pack)
    (config : Option Json) (report : Report) :
    rules.foldl (fun report rule => rule.run pack config report) report
      = report.append (rules.flatMap (Rule.findings pack)) := by
  induction rules generalizing report with
  | nil => exact report.append_nil.symm
  | cons rule rules ih =>
      have hrule := hrules rule (List.mem_cons_self ..)
      rw [List.foldl_cons, Rule.run_eq_append hrule, List.flatMap_cons,
        ih fun other hother => hrules other (List.mem_cons_of_mem rule hother),
        Report.append_append]

/-- No rule is left out by settings that name only rules. -/
theorem filter_isEnabled_all {s : Settings} (h : s.IsAccepted) :
    (Rule.all.filter fun rule => s.isEnabled rule.name) = Rule.all := by
  refine List.filter_eq_self.mpr ?_
  intro rule hrule
  obtain rfl := List.mem_singleton.mp hrule
  rw [Settings.isEnabled]
  cases hrules : s.rules with
  | nil => rfl
  | cons name rest =>
      obtain ⟨other, hother, hname⟩ := h name (hrules ▸ List.mem_cons_self ..)
      obtain rfl := List.mem_singleton.mp hother
      simp [hname]

/-! ## Checks -/

section Checks

variable {s : Settings} {known rest : List String} {name : String}

/-- A check is refused for the first name that no rule has. -/
theorem check_append_cons (hrules : s.rules = known ++ name :: rest)
    (hknown : ∀ other ∈ known, IsRule other) (hname : ¬IsRule name) (pack : Pack)
    (report : Report) : check s pack report = .error (.unknownRule name) := by
  have hfind : (s.rules.find? fun name => (Rule.find? name).isNone) = some name := by
    refine List.find?_eq_some_iff_append.mpr ⟨isNone_find?_iff.mpr hname, known, rest, hrules, ?_⟩
    intro other hother
    rw [Bool.not_eq_true', Bool.eq_false_iff, Ne, isNone_find?_iff, not_not]
    exact hknown other hother
  rw [check, hfind]

/-- An accepted check adds what all rules find. -/
theorem check_of_isAccepted (h : s.IsAccepted) (pack : Pack) (report : Report) :
    check s pack report = .ok (report.append (allFindings pack)) := by
  have hfind : (s.rules.find? fun name => (Rule.find? name).isNone) = none := by
    refine List.find?_eq_none.mpr ?_
    intro name hname hnone
    exact isNone_find?_iff.mp hnone (h name hname)
  rw [check, hfind, filter_isEnabled_all h]
  exact congrArg Except.ok (foldl_run (fun _ hrule => hrule) pack s.config report)

/-- No check reads the configuration. -/
theorem check_eq_of_config (rules : List String) (config config' : Option Json) (pack : Pack)
    (report : Report) : check ⟨rules, config⟩ pack report = check ⟨rules, config'⟩ pack report := by
  rcases (Settings.mk rules config).isAccepted_or_exists with
    haccepted | ⟨known, name, rest, hrules, hknown, hname⟩
  · have haccepted' : (Settings.mk rules config').IsAccepted := haccepted
    rw [check_of_isAccepted haccepted, check_of_isAccepted haccepted']
  · have hrules' : (Settings.mk rules config').rules = known ++ name :: rest := hrules
    rw [check_append_cons hrules hknown hname, check_append_cons hrules' hknown hname]

/-- A check that is refused leaves the report as it was. -/
theorem checkOn_append_cons (hrules : s.rules = known ++ name :: rest)
    (hknown : ∀ other ∈ known, IsRule other) (hname : ¬IsRule name) (pack : Pack)
    (report : Report) : checkOn s pack report = (.error (.unknownRule name), report) := by
  rw [checkOn_eq, check_append_cons hrules hknown hname]

/-- An accepted check leaves the report with what all rules find. -/
theorem checkOn_of_isAccepted (h : s.IsAccepted) (pack : Pack) (report : Report) :
    checkOn s pack report = (.ok (), report.append (allFindings pack)) := by
  rw [checkOn_eq, check_of_isAccepted h]

end Checks

/-! ## Checks one after another -/

/-- The first check is made, and the others on the report that it leaves. -/
theorem checkAll_cons (s : Settings) (settings : List Settings) (pack : Pack)
    (report : Report) :
    checkAll (s :: settings) pack report
      = ((checkOn s pack report).1 :: (checkAll settings pack (checkOn s pack report).2).1,
        (checkAll settings pack (checkOn s pack report).2).2) := by
  rw [checkAll, List.mapM_cons]
  rfl

/-- Of the checks of a pack on one report, each comes to the end that it comes to by itself,
    and each that is accepted adds the same findings. -/
theorem checkAll_eq (settings : List Settings) (pack : Pack) (report : Report) :
    checkAll settings pack report
      = (settings.map fun s => (checkOn s pack .empty).1,
        report.append ((settings.filter fun s => s.IsAccepted).flatMap
          fun _ => allFindings pack)) := by
  induction settings generalizing report with
  | nil => exact congrArg (Prod.mk []) report.append_nil.symm
  | cons s settings ih =>
      rw [checkAll_cons, ih, List.map_cons]
      rcases s.isAccepted_or_exists with h | ⟨known, name, rest, hrules, hknown, hname⟩
      · rw [List.filter_cons, if_pos (decide_eq_true h), List.flatMap_cons,
          checkOn_of_isAccepted h, checkOn_of_isAccepted h, Report.append_append]
      · have h : ¬s.IsAccepted := fun h => hname (h name (hrules ▸ by simp))
        rw [List.filter_cons, if_neg (by simpa using h), checkOn_append_cons hrules hknown hname,
          checkOn_append_cons hrules hknown hname]

/-- **A check is refused with nothing done, or adds what the pack alone decides.**  The first
    name that no rule has is what it is refused for, and then the report is as it was.  If
    there is none, the same findings are added for all settings, behind those that are there.
    So checks of a pack on one report add these findings as often as they are accepted. -/
theorem check_refuses_or_appends (pack : Pack) :
    (∀ (s : Settings) (report : Report) (known rest : List String) (name : String),
        s.rules = known ++ name :: rest → (∀ other ∈ known, IsRule other) → ¬IsRule name →
        check s pack report = .error (.unknownRule name)
          ∧ checkOn s pack report = (.error (.unknownRule name), report))
      ∧ (∀ (s : Settings) (report : Report), (∀ name ∈ s.rules, IsRule name) →
        check s pack report = .ok (report.append (allFindings pack))
          ∧ checkOn s pack report = (.ok (), report.append (allFindings pack)))
      ∧ ∀ (settings : List Settings) (report : Report),
        checkAll settings pack report
          = (settings.map fun s => (checkOn s pack .empty).1,
            report.append ((settings.filter fun s => s.IsAccepted).flatMap
              fun _ => allFindings pack)) := by
  refine ⟨?_, ?_, fun settings report => checkAll_eq settings pack report⟩
  · intro s report known rest name hrules hknown hname
    exact ⟨check_append_cons hrules hknown hname pack report,
      checkOn_append_cons hrules hknown hname pack report⟩
  · intro s report h
    exact ⟨check_of_isAccepted h pack report, checkOn_of_isAccepted h pack report⟩

/-- A known name in front of an unknown one is no reason to run its rule, and two of them
    are no reason to run it twice.  The pack has an old format and a function with a command
    that was removed. -/
theorem check_refuses_or_appends_unknown_behind_known :
    let pack : Pack := ⟨.obj [("pack", .obj [("pack_format", .int 6)])],
      [⟨"m", [.function (Function.ofText "m:f" "replaceitem")]⟩]⟩
    let found : List Finding :=
      [.error .pack
        "The data pack format must be set to 7 in order to be compatible with Minecraft 1.17.",
        .error (.command ⟨.function, "m:f"⟩ 1 "replaceitem")
          "The command /replaceitem has been removed. Use /item replace instead."]
    let report : Report := ⟨[.error .pack "earlier"]⟩
    let refused : Settings := ⟨["update_1_17", "update_1_99"], none⟩
    let repeated : Settings := ⟨["update_1_17", "update_1_17"], some .null⟩
    checkOn refused pack report = (.error (.unknownRule "update_1_99"), report)
      ∧ checkOn repeated pack report = (.ok (), report.append found)
      ∧ (checkAll [repeated, refused, .default] pack report).2
        = report.append (found ++ found) := by
  intro pack found report refused repeated
  obtain ⟨hrefuses, happends, hall⟩ := check_refuses_or_appends pack
  have hfindings : allFindings pack = found := by
    decide +kernel
  have hfilter : ([repeated, refused, .default].filter fun s => s.IsAccepted)
      = [repeated, .default] := rfl
  refine ⟨?_, ?_, ?_⟩
  · exact (hrefuses refused report ["update_1_17"] [] "update_1_99" rfl (by decide) (by decide)).2
  · rw [(happends repeated report (by decide)).2, hfindings]
  · rw [hall, hfilter, hfindings]
    rfl

end PackLint
