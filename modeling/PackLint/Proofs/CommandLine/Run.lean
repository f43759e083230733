import PackLint.CommandLine.Run
import PackLint.Proofs.CommandLine.Arguments
import PackLint.Proofs.Pack.Load
import PackLint.Proofs.Report
import PackLint.Proofs.Rule.Check
import PackLint.Proofs.Upgrade.Gate

/-! # What a run prints

    A run that fails prints nothing.  A run that does not prints its findings, all of them
    in their order, in the form that is asked for, and its exit status tells whether one of
    them is an error.  The form has no part in the status, and what a configuration says has
    no part in anything.

    The argument is that a run reads its arguments for a job and a form, and that what is
    reported depends on the job alone: `Job.Asks.run_eq`. -/

namespace PackLint.CommandLine

/-! ## Jobs -/

/-- The arguments ask for the job, and for its output in this form: text, if they name
    none. -/
def Job.Asks (job : Job) (form : OutputFormat) (args : List String) : Prop :=
  ∃ given verbose, Request.ofArgs args = .ok (.run (job.options given verbose))
    ∧ given.getD .text = form

/-- The configuration of the job, read from its file if it names one. -/
inductive Job.Configures (files : String → Option FileTree) (job : Job) : Option Json → Prop
  | absent (h : job.config = none) : Configures files job none
  | read {path text : String} {config : Json} (hpath : job.config = some path)
      (htext : (files path).bind FileTree.text? = some text)
      (hjson : Json.ofText? text = some config) : Configures files job (some config)

/-- What keeps a job from being done. -/
inductive Job.Fails (files : String → Option FileTree) (job : Job) : Prop
  | load {e : LoadError} (h : Pack.load job.pack (files job.pack) = .error e)
  | unreadable {path : String} (hpath : job.config = some path)
      (htext : (files path).bind FileTree.text? = none)
  | invalidJson {path text : String} (hpath : job.config = some path)
      (htext : (files path).bind FileTree.text? = some text) (hjson : Json.ofText? text = none)
  | unknownRule {name : String} (hname : name ∈ job.rules) (hrule : ¬IsRule name)

/-- The check of the pack gives these findings. -/
def Job.Finds (files : String → Option FileTree) (job : Job) (fs : List Finding) : Prop :=
  ∃ pack config, Pack.load job.pack (files job.pack) = .ok pack ∧ job.Configures files config
    ∧ check ⟨job.rules, config⟩ pack .empty = .ok ⟨fs⟩

/-- How findings are printed: each in a text with an empty line behind it, and then how many
    there are of each severity, or all in an array. -/
def printed : OutputFormat → List Finding → String
  | .text, fs =>
      String.join (fs.map fun f => f.text ++ "\n\n")
        ++ Report.summaryLine (fs.countP fun f => f.severity = .error)
          (fs.countP fun f => f.severity = .warning) ++ "\n"
  | .json, fs => (Json.arr (fs.map Finding.json)).pretty ++ "\n"

/-- The tokens of some findings: those of the array of their objects. -/
def findingTokens (fs : List Finding) : List Json.Token :=
  (Json.arr (fs.map Finding.json)).tokens

/-- The text is the array of the objects of these findings, in their order.  It consists of
    the tokens of the array, and what reads JSON reads these tokens from it. -/
structure WritesFindings (fs : List Finding) (output : String) : Prop where
  isLayout : Json.IsLayout output.toList (findingTokens fs)
  tokens?_eq : (∀ f ∈ fs, f.location.LineFits) →
    Json.tokens? output.toList = some (findingTokens fs)

/-- What is reported for a job.  The form of its output has no part in it. -/
def Job.report (files : String → Option FileTree) (job : Job) : Except RunError Report :=
  CommandLine.report files (job.options none false)

/-- How a run ends that is to print in this form what is reported. -/
def outcome (form : OutputFormat) : Except RunError Report → Outcome
  | .error e => ⟨1, "", e.message⟩
  | .ok r => ⟨if r.hasErrors then 1 else 0, printed form r.findings, ""⟩

section Jobs

variable {files files' : String → Option FileTree} {job job' : Job}
  {given : Option OutputFormat} {verbose : Bool} {fs : List Finding}

/-! ## What becomes of a job -/

/-- The configuration is read exactly if the job names none, or names JSON. -/
theorem loadConfig_eq_ok_iff {config : Option Json} :
    loadConfig files (job.options none false) = .ok config ↔ job.Configures files config := by
  constructor
  · intro h
    cases hpath : job.config with
    | none =>
        simp only [loadConfig, Job.options, hpath] at h
        cases h
        exact .absent hpath
    | some path =>
        cases htext : (files path).bind FileTree.text? with
        | none =>
            simp only [loadConfig, Job.options, hpath, htext] at h
            exact nomatch h
        | some text =>
            cases hjson : Json.ofText? text with
            | none =>
                simp only [loadConfig, Job.options, hpath, htext, hjson] at h
                exact nomatch h
            | some value =>
                simp only [loadConfig, Job.options, hpath, htext, hjson] at h
                cases h
                exact .read hpath htext hjson
  · intro h
    cases h with
    | absent hpath => simp only [loadConfig, Job.options, hpath]
    | read hpath htext hjson => simp only [loadConfig, Job.options, hpath, htext, hjson]

/-- What is reported for a job are its findings. -/
theorem Job.report_eq_ok_iff : job.report files = .ok ⟨fs⟩ ↔ job.Finds files fs := by
  constructor
  · intro h
    obtain ⟨pack, hload, h⟩ := bind_eq_ok.mp h
    obtain ⟨config, hconfig, hcheck⟩ := bind_eq_ok.mp h
    exact ⟨pack, config, mapError_eq_ok.mp hload, loadConfig_eq_ok_iff.mp hconfig,
      mapError_eq_ok.mp hcheck⟩
  · rintro ⟨pack, config, hload, hconfig, hcheck⟩
    refine bind_eq_ok.mpr ⟨pack, mapError_eq_ok.mpr hload, ?_⟩
    exact bind_eq_ok.mpr ⟨config, loadConfig_eq_ok_iff.mpr hconfig, mapError_eq_ok.mpr hcheck⟩

/-- A job that has findings has not failed. -/
theorem Job.Finds.not_fails (h : job.Finds files fs) : ¬job.Fails files := by
  obtain ⟨pack, config, hload, hconfig, hcheck⟩ := h
  intro hfails
  cases hfails with
  | load hload' => exact nomatch hload.symm.trans hload'
  | unreadable hpath htext =>
      cases hconfig with
      | absent hnone => exact nomatch hnone.symm.trans hpath
      | read hpath' htext' hjson =>
          cases hpath.symm.trans hpath'
          exact nomatch htext.symm.trans htext'
  | invalidJson hpath htext hjson =>
      cases hconfig with
      | absent hnone => exact nomatch hnone.symm.trans hpath
      | read hpath' htext' hjson' =>
          cases hpath.symm.trans hpath'
          cases htext.symm.trans htext'
          exact nomatch hjson.symm.trans hjson'
  | @unknownRule name hname hrule =>
      rcases (Settings.mk job.rules config).isAccepted_or_exists with
        haccepted | ⟨known, name', rest, hrules, hknown, hname'⟩
      · exact hrule (haccepted name hname)
      · rw [check_append_cons hrules hknown hname'] at hcheck
        exact nomatch hcheck

/-- A job fails or has findings. -/
theorem Job.exists_finds (h : ¬job.Fails files) : ∃ fs, job.Finds files fs := by
  cases hload : Pack.load job.pack (files job.pack) with
  | error e => exact absurd (.load hload) h
  | ok pack =>
      have hconfig : ∃ config, job.Configures files config := by
        cases hpath : job.config with
        | none => exact ⟨none, .absent hpath⟩
        | some path =>
            cases htext : (files path).bind FileTree.text? with
            | none => exact absurd (.unreadable hpath htext) h
            | some text =>
                cases hjson : Json.ofText? text with
                | none => exact absurd (.invalidJson hpath htext hjson) h
                | some config => exact ⟨some config, .read hpath htext hjson⟩
      obtain ⟨config, hconfig⟩ := hconfig
      have haccepted : (Settings.mk job.rules config).IsAccepted := by
        intro name hname
        by_contra hrule
        exact h (.unknownRule hname hrule)
      exact ⟨allFindings pack, pack, config, hload, hconfig,
        check_of_isAccepted haccepted pack .empty⟩

/-! ## What is printed -/

/-- Every finding is an error or a warning. -/
theorem countP_error_add_countP_warning (fs : List Finding) :
    (fs.countP fun f => f.severity = .error) + (fs.countP fun f => f.severity = .warning)
      = fs.length := by
  induction fs with
  | nil => rfl
  | cons f fs ih =>
      cases hseverity : f.severity with
      | error => simp [hseverity]; omega
      | warning => simp [hseverity]; omega

/-- The summary counts the errors and the warnings. -/
theorem summary_eq (fs : List Finding) :
    Report.summary ⟨fs⟩ = Report.summaryLine (fs.countP fun f => f.severity = .error)
      (fs.countP fun f => f.severity = .warning) := by
  have herrors : Report.errorCount ⟨fs⟩ = fs.countP fun f => f.severity = .error := rfl
  have hwarnings : Report.size ⟨fs⟩ - Report.errorCount ⟨fs⟩
      = fs.countP fun f => f.severity = .warning := by
    rw [herrors, Report.size, ← countP_error_add_countP_warning fs]
    omega
  rw [Report.summary, hwarnings, herrors]

/-- What is rendered is what the form prints. -/
theorem render_eq_printed :
    render (job.options given verbose) ⟨fs⟩ = printed (given.getD .text) fs := by
  have hgiven : (job.options given verbose).format = given := rfl
  rw [render, hgiven]
  cases given.getD .text with
  | text =>
      show Report.text ⟨fs⟩ = _
      rw [Report.text, summary_eq]
      rfl
  | json => rfl

/-- The array that is printed is the one of the findings. -/
theorem writesFindings_printed (fs : List Finding) : WritesFindings fs (printed .json fs) := by
  have hprinted : (printed .json fs).toList
      = Json.prettyText 0 (.arr (fs.map Finding.json)) ++ ['\n'] := by
    rw [printed, String.toList_append, Json.pretty, String.toList_ofList]
    rfl
  have hlayout : Json.IsLayout (printed .json fs).toList (findingTokens fs) := by
    rw [hprinted]
    exact (Json.isLayout_prettyText 0 _).append_space (List.forall_mem_singleton.mpr rfl)
  refine ⟨hlayout, ?_⟩
  intro hlines
  have hnumbers : (Report.mk fs).json.AllNumbers Json.Token.IsExact :=
    Report.allNumbers_json fun f hf => (hlines f hf).lineIs
  exact hnumbers.tokens?_eq hlayout

/-- A run that is asked for a job ends as what is reported for the job says. -/
theorem Job.Asks.run_eq {form : OutputFormat} {args : List String} (h : job.Asks form args) :
    run files args = outcome form (job.report files) := by
  obtain ⟨given, verbose, hargs, rfl⟩ := h
  have hreport : CommandLine.report files (job.options given verbose) = job.report files := rfl
  have hrun : run files args = runOptions files (job.options given verbose) := by
    rw [run, hargs]
  rw [hrun, runOptions, hreport, if_neg (show ¬(job.options given verbose).list = true from
    Bool.false_ne_true)]
  cases job.report files with
  | error e => rfl
  | ok r =>
      show Outcome.mk _ (render _ _) _ = Outcome.mk _ (printed _ _) _
      rw [render_eq_printed]

/-- The exit status does not depend on the form of the output. -/
theorem status_outcome (form form' : OutputFormat) (reported : Except RunError Report) :
    (outcome form reported).status = (outcome form' reported).status := by
  cases reported with
  | error e => rfl
  | ok r => rfl

/-- The exit status is one exactly if there is an error among the findings. -/
theorem status_outcome_ok (form : OutputFormat) (fs : List Finding) :
    (outcome form (.ok ⟨fs⟩)).status
      = if ∀ f ∈ fs, f.severity ≠ .error then 0 else 1 := by
  show (if Report.hasErrors ⟨fs⟩ = true then 1 else 0) = _
  by_cases herror : ∀ f ∈ fs, f.severity ≠ .error
  · have hnone : ¬Report.hasErrors ⟨fs⟩ = true := by simpa [Report.hasErrors] using herror
    rw [if_pos herror, if_neg hnone]
  · have hsome : Report.hasErrors ⟨fs⟩ = true := by simpa [Report.hasErrors] using herror
    rw [if_neg herror, if_pos hsome]

/-- A job that fails has no report. -/
theorem Job.report_of_fails (h : job.Fails files) : ∃ e, job.report files = .error e := by
  cases hreport : job.report files with
  | error e => exact ⟨e, rfl⟩
  | ok r => exact absurd h (report_eq_ok_iff.mp hreport).not_fails

/-- With its configuration, a job loads the pack and checks it. -/
theorem Job.report_of_configures {config : Option Json} (h : job.Configures files config) :
    job.report files = (do
      let pack ← (Pack.load job.pack (files job.pack)).mapError .load
      (check ⟨job.rules, config⟩ pack .empty).mapError .check) := by
  show ((Pack.load job.pack (files job.pack)).mapError RunError.load >>= fun pack =>
      loadConfig files (job.options none false) >>= fun config =>
        (check ⟨job.rules, config⟩ pack .empty).mapError RunError.check) = _
  rw [loadConfig_eq_ok_iff.mpr h]
  rfl

/-- A configuration that can be read is as good as any other, and as none. -/
theorem Job.report_eq_of_configures {config config' : Option Json} (hpack : job'.pack = job.pack)
    (hrules : job'.rules = job.rules) (hfiles : files' job.pack = files job.pack)
    (h : job.Configures files config) (h' : job'.Configures files' config') :
    job'.report files' = job.report files := by
  rw [report_of_configures h, report_of_configures h', hpack, hrules, hfiles]
  cases Pack.load job.pack (files job.pack) with
  | error e => rfl
  | ok pack =>
      show (check ⟨job.rules, config'⟩ pack .empty).mapError RunError.check
        = (check ⟨job.rules, config⟩ pack .empty).mapError RunError.check
      rw [check_eq_of_config]

/-! ## Both forms -/

/-- **The form of the output** has a part in what a run prints about its findings, and in
    nothing else.

    A job that fails prints nothing and has the status 1.  The status of any other job is 0
    if none of its findings is an error, and 1 if one is, and its findings are printed, all
    of them in their order; as JSON, in a text from which the tokens of the array of their
    objects are read back.  What its configuration says, or that there is one, changes
    nothing. -/
theorem run_formats_agree (files : String → Option FileTree) (job : Job) :
    (job.Fails files → ∀ form args, job.Asks form args →
      (run files args).status = 1 ∧ (run files args).output = "")
    ∧ (¬job.Fails files → ∃ fs, job.Finds files fs
      ∧ (fs.countP fun f => f.severity = .error) + (fs.countP fun f => f.severity = .warning)
        = fs.length
      ∧ ∀ form args, job.Asks form args →
        (run files args).status = (if ∀ f ∈ fs, f.severity ≠ .error then 0 else 1)
        ∧ (run files args).output = printed form fs
        ∧ (form = .json → WritesFindings fs (run files args).output))
    ∧ (∀ form form' args args', job.Asks form args → job.Asks form' args' →
      (run files args).status = (run files args').status)
    ∧ (∀ files' (job' : Job) config config', job'.pack = job.pack → job'.rules = job.rules →
      files' job.pack = files job.pack → job.Configures files config →
      job'.Configures files' config' →
      ∀ form args args', job.Asks form args → job'.Asks form args' →
        run files args = run files' args')
    ∧ (job.pack ≠ "" → job.config ≠ some "" → ∀ given verbose,
      job.Asks (given.getD .text) (job.arguments given verbose)) := by
  refine ⟨?fails, ?finds, ?status, ?config, ?asks⟩
  case fails =>
    intro hfails form args hasks
    obtain ⟨e, hreport⟩ := Job.report_of_fails hfails
    rw [hasks.run_eq, hreport]
    exact ⟨rfl, rfl⟩
  case finds =>
    intro hfails
    obtain ⟨fs, hfinds⟩ := Job.exists_finds hfails
    refine ⟨fs, hfinds, countP_error_add_countP_warning fs, ?_⟩
    intro form args hasks
    rw [hasks.run_eq, Job.report_eq_ok_iff.mpr hfinds]
    refine ⟨status_outcome_ok form fs, rfl, ?_⟩
    rintro rfl
    exact writesFindings_printed fs
  case status =>
    intro form form' args args' hasks hasks'
    rw [hasks.run_eq, hasks'.run_eq]
    exact status_outcome form form' _
  case config =>
    intro files' job' config config' hpack hrules hfiles h h' form args args' hasks hasks'
    rw [hasks.run_eq, hasks'.run_eq, Job.report_eq_of_configures hpack hrules hfiles h h']
  case asks =>
    intro hpack hconfig given verbose
    exact ⟨given, verbose, Request.ofArgs_arguments hpack hconfig given verbose, rfl⟩

end Jobs

/-! ## A pack of an old format -/

/-- A pack of format 6 without resources, and a configuration. -/
def outdatedFiles (path : String) : Option FileTree :=
  if path = "pack" then
    some (.directory
      [("pack.mcmeta", .file "\x7b\"pack\": \x7b\"pack_format\": 6\x7d\x7d".toUTF8)])
  else if path = "config.json" then some (.file "\x7b\x7d".toUTF8)
  else none

/-- The pack has a format that can be upgraded, and no namespaces. -/
theorem exists_load_outdatedFiles : ∃ metadata,
    Pack.load "pack" (outdatedFiles "pack") = .ok ⟨metadata, []⟩
      ∧ Upgrade.format? metadata = some 6 := by
  have hmetadata : (Json.ofText? "\x7b\"pack\": \x7b\"pack_format\": 6\x7d\x7d").bind
      Upgrade.format? = some 6 := by decide +kernel
  obtain ⟨metadata, htext, hformat⟩ := Option.bind_eq_some_iff.mp hmetadata
  have hload : loadMetadata (.directory
      [("pack.mcmeta", .file "\x7b\"pack\": \x7b\"pack_format\": 6\x7d\x7d".toUTF8)])
      = .ok metadata := by
    simp only [loadMetadata, FileTree.entry?, List.lookup_cons, beq_self_eq_true,
      FileTree.text?, fromUTF8?_toUTF8, htext]
  refine ⟨metadata, ?_, hformat⟩
  show (loadMetadata _ >>= fun metadata => _) = _
  rw [hload]
  rfl

/-- The only finding in a pack without namespaces is about its format. -/
theorem allFindings_of_format_six {metadata : Json} (h : Upgrade.format? metadata = some 6) :
    allFindings ⟨metadata, []⟩ = [Upgrade.outdatedFormat] := by
  have hformat : Upgrade.formatFindings 6 = [Upgrade.outdatedFormat] := by decide
  rw [allFindings_eq, Upgrade.run, h, ← hformat]
  rfl

/-- The job finds that the format is outdated. -/
theorem finds_outdatedFiles :
    Job.Finds outdatedFiles ⟨"pack", ["update_1_17"], none⟩ [Upgrade.outdatedFormat] := by
  obtain ⟨metadata, hload, hformat⟩ := exists_load_outdatedFiles
  have haccepted : (Settings.mk ["update_1_17"] none).IsAccepted := by decide
  refine ⟨_, none, hload, .absent rfl, ?_⟩
  rw [check_of_isAccepted haccepted, allFindings_of_format_six hformat]
  rfl

/-- The configuration of the job is JSON. -/
theorem exists_configures_outdatedFiles (rules : List String) :
    ∃ config, Job.Configures outdatedFiles ⟨"pack", rules, some "config.json"⟩ (some config) := by
  obtain ⟨config, hjson⟩ : ∃ config, Json.ofText? "\x7b\x7d" = some config :=
    Option.isSome_iff_exists.mp (by decide +kernel)
  have hfile : outdatedFiles "config.json" = some (.file "\x7b\x7d".toUTF8) := by
    rw [outdatedFiles, if_neg (by decide), if_pos rfl]
  refine ⟨config, .read rfl ?_ hjson⟩
  rw [hfile]
  exact fromUTF8?_toUTF8 "\x7b\x7d"

/-- One finding in both forms, a configuration that changes nothing, and a rule that there is
    not behind one that there is. -/
theorem run_formats_agree_outdated :
    (run outdatedFiles ["--rule=update_1_17", "--", "pack"]).output
        = "error: The data pack format must be set to 7 in order to be compatible with "
          ++ "Minecraft 1.17.\n\n1 error, 0 warnings\n"
      ∧ (run outdatedFiles ["--rule=update_1_17", "--format=json", "--verbose", "--", "pack"]).output
        = "[\n  \x7b\n    \"severity\": \"error\",\n    \"message\": \"The data pack format must be "
          ++ "set to 7 in order to be compatible with Minecraft 1.17.\",\n    \"location\": \x7b\n"
          ++ "      \"type\": \"pack\"\n    \x7d\n  \x7d\n]\n"
      ∧ WritesFindings [Upgrade.outdatedFormat]
        (run outdatedFiles
          ["--rule=update_1_17", "--format=json", "--verbose", "--", "pack"]).output
      ∧ (run outdatedFiles ["--rule=update_1_17", "--", "pack"]).status = 1
      ∧ (run outdatedFiles ["--rule=update_1_17", "--", "pack"]).status
        = (run outdatedFiles
            ["--rule=update_1_17", "--format=json", "--verbose", "--", "pack"]).status
      ∧ run outdatedFiles ["--rule=update_1_17", "--", "pack"]
        = run outdatedFiles ["--rule=update_1_17", "--config=config.json", "--", "pack"]
      ∧ (run outdatedFiles ["--rule=update_1_17", "--rule=other", "--", "pack"]).status = 1
      ∧ (run outdatedFiles ["--rule=update_1_17", "--rule=other", "--", "pack"]).output = "" := by
  let job : Job := ⟨"pack", ["update_1_17"], none⟩
  let configured : Job := { job with config := some "config.json" }
  let refused : Job := { job with rules := ["update_1_17", "other"] }
  obtain ⟨config, hread⟩ := exists_configures_outdatedFiles job.rules
  have habsent : job.Configures outdatedFiles none := .absent rfl
  have hfinds : job.Finds outdatedFiles [Upgrade.outdatedFormat] := finds_outdatedFiles
  have hfails : refused.Fails outdatedFiles :=
    .unknownRule (List.mem_cons_of_mem _ (List.mem_singleton_self "other")) (by decide)
  obtain ⟨-, hprints, hstatus, hconfig, hasks⟩ := run_formats_agree outdatedFiles job
  obtain ⟨-, -, -, -, hasks'⟩ := run_formats_agree outdatedFiles configured
  obtain ⟨hrefused, -, -, -, hasks''⟩ := run_formats_agree outdatedFiles refused
  have hpack : "pack" ≠ "" := by decide
  have htext : job.Asks .text ["--rule=update_1_17", "--", "pack"] :=
    hasks hpack (by decide) none false
  have hjson : job.Asks .json
      ["--rule=update_1_17", "--format=json", "--verbose", "--", "pack"] :=
    hasks hpack (by decide) (some .json) true
  have hread' : configured.Asks .text
      ["--rule=update_1_17", "--config=config.json", "--", "pack"] :=
    hasks' hpack (by decide) none false
  have hother : refused.Asks .text ["--rule=update_1_17", "--rule=other", "--", "pack"] :=
    hasks'' hpack (by decide) none false
  obtain ⟨fs, hfs, -, hprints⟩ := hprints hfinds.not_fails
  obtain rfl : fs = [Upgrade.outdatedFormat] := by
    have hreports := (Job.report_eq_ok_iff.mpr hfs).symm.trans (Job.report_eq_ok_iff.mpr hfinds)
    exact congrArg Report.findings (Except.ok.inj hreports)
  refine ⟨?_, ?_, (hprints .json _ hjson).2.2 rfl, ?_, ?_, ?_, ?_⟩
  · refine (hprints .text _ htext).2.1.trans ?_
    decide +kernel
  · refine (hprints .json _ hjson).2.1.trans ?_
    decide +kernel
  · exact (hprints .text _ htext).1
  · exact hstatus .text .json _ _ htext hjson
  · exact hconfig outdatedFiles configured none (some config) rfl rfl rfl habsent hread .text _ _
      htext hread'
  · exact hrefused hfails .text _ hother

end PackLint.CommandLine
