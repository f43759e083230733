import PackLint.Json.Pointer
import PackLint.Pack.Basic
import PackLint.Report
import PackLint.Upgrade.Issue

/-! # Walkers

    A walker looks through the resources of one kind in every namespace of a pack.
    Which checks it makes there depends on the kind: of commands and of the texts
    of commands, of values in documents and of the texts of documents, or of the
    entries of tags.  A walk adds each finding to the report as it is made, and
    counts the findings that it adds. -/

namespace PackLint.Upgrade

/-- A check of a command. -/
abbrev CommandCheck := Command → List Issue

/-- A check of a text. -/
abbrev TextCheck := String → List Issue

/-- A check of a value in a document: of the root, or of the object that is the
    member of the root with this name. -/
structure ValueCheck where
  member? : Option String
  issues : Json → List Issue

/-- The value that a check looks at, with its pointer.  A member that is no object is
    passed over. -/
def ValueCheck.place? (check : ValueCheck) (content : Json) : Option (String × Json) :=
  match check.member? with
  | none => some ("", content)
  | some key => (content.object? key).map fun v => (Json.Pointer.join "" key, v)

/-- The checks of commands. -/
def commandChecks : List CommandCheck :=
  [entityIssues, commandIssues, statisticIssues]

/-- The check of texts for ids. -/
def idChecks : List TextCheck :=
  [idIssues]

/-- The checks of texts for ids and for members of predicates. -/
def idAndConditionChecks : List TextCheck :=
  [idIssues, conditionIssues]

inductive Walker
  /-- Text checks see the own text of a command only: a nested command is checked
      by itself. -/
  | functions (commands : List CommandCheck) (texts : List TextCheck)
  | documents (kind : DocumentKind) (values : List ValueCheck) (texts : List TextCheck)
  /-- Every entry is checked by itself. -/
  | tags (kind : TagKind) (texts : List TextCheck)

namespace Walker

/-- The kind of the resources that a walker looks through. -/
def kind : Walker → Kind
  | functions _ _ => .function
  | documents kind _ _ => .document kind
  | tags kind _ => .tag kind

/-- All walkers, in the order in which they walk. -/
def all : List Walker :=
  [.functions commandChecks idChecks,
    .documents .dimensionType [⟨none, dimensionTypeIssues⟩] [],
    .documents .dimension [⟨some "type", dimensionTypeIssues⟩] idChecks,
    .documents .advancement [] idAndConditionChecks,
    .documents .predicate [] idAndConditionChecks,
    .documents .lootTable [] idAndConditionChecks,
    .documents .recipe [] idChecks,
    .documents .itemModifier [] idChecks,
    .tags .block idChecks,
    .tags .item idChecks,
    .documents .configuredFeature [] idChecks,
    .documents .surfaceBuilder [] idChecks,
    .documents .processorList [] idChecks]

end Walker

/-! ## Findings in one resource -/

/-- The findings in a command of a function. -/
def commandFindings (commands : List CommandCheck) (texts : List TextCheck) (id : String)
    (c : Command) : List Finding :=
  (commands.flatMap (fun check => check c)
      ++ texts.flatMap fun check => check c.ownText).map fun issue =>
    .error (.command ⟨.function, id⟩ c.line c.raw) issue.message

/-- The findings in a function with this id, command by command. -/
def functionFindings (commands : List CommandCheck) (texts : List TextCheck)
    (f : Function) : List Finding :=
  (f.flat.filter Command.isCommand).flatMap (commandFindings commands texts f.id)

/-- The findings of a check in the values of a document. -/
def valueFindings (r : ResourceRef) (content : Json) (check : ValueCheck) : List Finding :=
  match check.place? content with
  | none => []
  | some (pointer, v) =>
      (check.issues v).map fun issue => .error (.node r pointer) issue.message

/-- The findings in a document: in its values, and in its text. -/
def documentFindings (kind : DocumentKind) (values : List ValueCheck)
    (texts : List TextCheck) (d : Document) : List Finding :=
  let r : ResourceRef := ⟨.document kind, d.id⟩
  values.flatMap (valueFindings r d.content)
    ++ (texts.flatMap fun check => check d.raw).map fun issue =>
      .error (.resource r) issue.message

/-- The findings in a tag with this id and these entries, entry by entry. -/
def tagFindings (kind : TagKind) (texts : List TextCheck) (id : String)
    (entries : List String) : List Finding :=
  entries.flatMap fun entry =>
    (texts.flatMap fun check => check entry).map fun issue =>
      { Finding.error (.resource ⟨.tag kind, id⟩) issue.message with value := some entry }

/-! ## Walks -/

/-- A walk under way: the report, and the number of findings that it has added. -/
structure Walk where
  report : Report
  count : Nat
deriving DecidableEq, Repr

namespace Walk

/-- Adds a finding. -/
def add (walk : Walk) (f : Finding) : Walk :=
  ⟨walk.report.push f, walk.count + 1⟩

/-- Adds findings one after another. -/
def addAll (walk : Walk) (fs : List Finding) : Walk :=
  fs.foldl add walk

end Walk

namespace Walker

/-- Looks through a namespace. -/
def visit (walker : Walker) (walk : Walk) (ns : Namespace) : Walk :=
  match walker with
  | functions commands texts =>
      ns.functions.foldl (fun walk f => walk.addAll (functionFindings commands texts f)) walk
  | documents kind values texts =>
      (ns.documents kind).foldl
        (fun walk d => walk.addAll (documentFindings kind values texts d)) walk
  | tags kind texts =>
      (ns.tags kind).foldl
        (fun walk d => walk.addAll (tagFindings kind texts d.id d.tagEntries)) walk

/-- Looks through all namespaces. -/
def walk (walker : Walker) (namespaces : List Namespace) (report : Report) : Walk :=
  namespaces.foldl walker.visit ⟨report, 0⟩

end Walker

/-- Lets all walkers walk, one after another. -/
def walkAll (namespaces : List Namespace) (report : Report) : Walk :=
  Walker.all.foldl
    (fun total walker =>
      let walk := walker.walk namespaces total.report
      ⟨walk.report, total.count + walk.count⟩)
    ⟨report, 0⟩

end PackLint.Upgrade
