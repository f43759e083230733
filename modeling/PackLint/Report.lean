import PackLint.Finding

/-! # Reports

    A report collects findings in the order in which they are made. -/

namespace PackLint

structure Report where
  findings : List Finding
deriving DecidableEq, Repr

namespace Report

/-- The report without findings. -/
def empty : Report := ⟨[]⟩

/-- Adds a finding at the end. -/
def push (r : Report) (f : Finding) : Report :=
  ⟨r.findings ++ [f]⟩

/-- Adds findings at the end. -/
def append (r : Report) (fs : List Finding) : Report :=
  ⟨r.findings ++ fs⟩

/-- The number of findings. -/
def size (r : Report) : Nat :=
  r.findings.length

def isEmpty (r : Report) : Bool :=
  r.findings.isEmpty

/-- Some finding is an error. -/
def hasErrors (r : Report) : Bool :=
  r.findings.any fun f => f.severity == .error

/-- The number of findings that are errors. -/
def errorCount (r : Report) : Nat :=
  r.findings.countP fun f => f.severity == .error

/-- A number of things, in the plural unless it is one. -/
def counted (n : Nat) (thing : String) : String :=
  toString n ++ " " ++ thing ++ (if n = 1 then "" else "s")

/-- The line that sums a report up. -/
def summaryLine (errors warnings : Nat) : String :=
  counted errors "error" ++ ", " ++ counted warnings "warning"

/-- The line that sums this report up: what is no error is a warning. -/
def summary (r : Report) : String :=
  summaryLine r.errorCount (r.size - r.errorCount)

/-- Every finding with an empty line behind it, and the summary. -/
def text (r : Report) : String :=
  String.join (r.findings.map fun f => f.text ++ "\n\n") ++ r.summary ++ "\n"

/-- The findings as a JSON array. -/
def json (r : Report) : Json :=
  .arr (r.findings.map Finding.json)

end Report

end PackLint
