import PackLint.CommandLine.Options

/-! # Arguments for options

    A job is what a command line asks for, but for the form of its output.  For every job,
    and every form, there are arguments that are read as just these options: each value
    stands in the argument of its option, so no value is taken for an option. -/

namespace PackLint.CommandLine

/-- What is to be done: a pack to check, the rules to select and a configuration. -/
structure Job where
  pack : String
  rules : List String
  config : Option String

/-- The options of a job, with the form of the output if it is given. -/
def Job.options (job : Job) (format : Option OutputFormat) (verbose : Bool) : Options :=
  ⟨some job.pack, job.rules, job.config, format, false, verbose⟩

/-! ## Arguments -/

/-- The name of a form. -/
def OutputFormat.name : OutputFormat → String
  | text => "text"
  | json => "json"

/-- An option with its value in one argument. -/
def ValueOption.argument (option : ValueOption) (value : String) : String :=
  option.name ++ "=" ++ value

/-- The arguments for the options of a job. -/
def Job.switches (job : Job) (format : Option OutputFormat) (verbose : Bool) : List String :=
  job.rules.map (ValueOption.argument .rule)
    ++ (job.config.toList.map (ValueOption.argument .config)
      ++ (format.toList.map (fun form => ValueOption.argument .format form.name)
        ++ if verbose then ["--verbose"] else []))

/-- The arguments for a job.  Its path stands behind two dashes. -/
def Job.arguments (job : Job) (format : Option OutputFormat) (verbose : Bool) :
    List String :=
  job.switches format verbose ++ ["--", job.pack]

/-- An option that stands in one argument with its value takes this value, whatever it
    looks like. -/
theorem Options.takeArg_argument (o : Options) (option : ValueOption) (value : String) :
    o.takeArg (option.argument value) = (o.takeValue option value).map .ready := by
  have htext : (option.argument value).toList = option.name.toList ++ '=' :: value.toList := by
    rw [ValueOption.argument, String.toList_append, String.toList_append, List.append_assoc]
    rfl
  have hlong : o.takeLong (option.name.toList.drop 2) (some value.toList)
      = (o.takeValue option (String.ofList value.toList)).map .ready := by
    cases option <;> rfl
  rw [String.ofList_toList] at hlong
  rw [takeArg, htext]
  cases option with
  | rule => exact hlong
  | config => exact hlong
  | format => exact hlong

/-! ## Reading arguments -/

/-- Behind these arguments the options are those, and the next argument may be an option. -/
def Options.Reads (o : Options) (args : List String) (o' : Options) : Prop :=
  args.foldlM Progress.next (.ready o) = .ok (.ready o')

namespace Options.Reads

variable {o o' o'' : Options} {args args' : List String}

theorem nil (o : Options) : o.Reads [] o :=
  rfl

/-- Arguments are read one after another. -/
theorem append (h : o.Reads args o') (h' : o'.Reads args' o'') : o.Reads (args ++ args') o'' := by
  rw [Reads, List.foldlM_append, h]
  exact h'

/-- One argument is read in one step. -/
theorem single {arg : String} (h : Progress.next (.ready o) arg = .ok (.ready o')) :
    o.Reads [arg] o' := by
  rw [Reads, List.foldlM_cons, h]
  rfl

/-- An option with its value is read in one step. -/
theorem argument {option : ValueOption} {value : String}
    (h : o.takeValue option value = .ok o') : o.Reads [option.argument value] o' := by
  refine single ?_
  rw [Progress.next, takeArg_argument, h]
  rfl

/-- Each name of a rule is added behind those that were given. -/
theorem rules (o : Options) (names : List String) :
    o.Reads (names.map (ValueOption.argument .rule)) { o with rules := o.rules ++ names } := by
  induction names generalizing o with
  | nil =>
      rw [List.append_nil]
      exact nil o
  | cons name names ih =>
      have hfirst : o.Reads [ValueOption.argument .rule name]
          { o with rules := o.rules ++ [name] } := argument rfl
      have hboth := hfirst.append (ih _)
      rw [List.append_assoc] at hboth
      exact hboth

/-- The path of a configuration can be given once, and is kept. -/
theorem config {given : Option String} (hnone : o.config = none) (hgiven : given ≠ some "") :
    o.Reads (given.toList.map (ValueOption.argument .config)) { o with config := given } := by
  cases given with
  | none =>
      show o.Reads [] _
      rw [← hnone]
      exact nil o
  | some path =>
      have hpath : path.isEmpty = false := by simpa using hgiven
      refine argument ?_
      simp [takeValue, hnone, hpath]

/-- A form of output can be given once, and is kept. -/
theorem format {given : Option OutputFormat} (hnone : o.format = none) :
    o.Reads (given.toList.map fun form => ValueOption.argument .format form.name)
      { o with format := given } := by
  cases given with
  | none =>
      show o.Reads [] _
      rw [← hnone]
      exact nil o
  | some form =>
      refine argument ?_
      cases form with
      | text => simp [takeValue, hnone, OutputFormat.name]
      | json => simp [takeValue, hnone, OutputFormat.name]

/-- The switch can be given once. -/
theorem verbose {given : Bool} (hfalse : o.verbose = false) :
    o.Reads (if given then ["--verbose"] else []) { o with verbose := given } := by
  cases given with
  | false =>
      show o.Reads [] _
      rw [← hfalse]
      exact nil o
  | true =>
      refine single ?_
      show o.takeVerbose.map Progress.ready = _
      rw [takeVerbose, hfalse]
      rfl

end Options.Reads

/-- The switches of a job give its rules, its configuration and its form of output. -/
theorem Options.reads_switches {job : Job} (hconfig : job.config ≠ some "")
    (format : Option OutputFormat) (verbose : Bool) :
    Options.initial.Reads (job.switches format verbose)
      ⟨none, job.rules, job.config, format, false, verbose⟩ := by
  have hrules : Options.initial.Reads _ ⟨none, job.rules, none, none, false, false⟩ :=
    .rules .initial job.rules
  have hpath : Options.Reads ⟨none, job.rules, none, none, false, false⟩ _
      ⟨none, job.rules, job.config, none, false, false⟩ := .config rfl hconfig
  have hformat : Options.Reads ⟨none, job.rules, job.config, none, false, false⟩ _
      ⟨none, job.rules, job.config, format, false, false⟩ := .format rfl
  have hverbose : Options.Reads ⟨none, job.rules, job.config, format, false, false⟩ _
      ⟨none, job.rules, job.config, format, false, verbose⟩ := .verbose rfl
  exact hrules.append (hpath.append (hformat.append hverbose))

/-- Behind two dashes an argument is a path. -/
theorem foldlM_next_dashes (o : Options) (path : String) :
    ["--", path].foldlM Progress.next (.ready o) = (o.takePath path).map .path := by
  rw [List.foldlM_cons]
  show [path].foldlM Progress.next (.path o) = _
  rw [List.foldlM_cons]
  exact bind_pure ((o.takePath path).map Progress.path)

/-- For every job there are arguments that ask for it, in every form. -/
theorem Request.ofArgs_arguments {job : Job} (hpack : job.pack ≠ "")
    (hconfig : job.config ≠ some "") (format : Option OutputFormat) (verbose : Bool) :
    ofArgs (job.arguments format verbose) = .ok (.run (job.options format verbose)) := by
  have hswitches : (job.switches format verbose).foldlM Progress.next (.ready .initial)
      = .ok (.ready ⟨none, job.rules, job.config, format, false, verbose⟩) :=
    Options.reads_switches hconfig format verbose
  have hempty : job.pack.isEmpty = false := by simpa using hpack
  have hpath : Options.takePath ⟨none, job.rules, job.config, format, false, verbose⟩ job.pack
      = .ok (job.options format verbose) := by
    rw [Options.takePath, hempty]
    rfl
  have hall : (job.arguments format verbose).foldlM Progress.next (.ready .initial)
      = .ok (.path (job.options format verbose)) := by
    rw [Job.arguments, List.foldlM_append, hswitches]
    refine (foldlM_next_dashes _ job.pack).trans ?_
    rw [hpath]
    rfl
  rw [ofArgs, hall]
  rfl

end PackLint.CommandLine
