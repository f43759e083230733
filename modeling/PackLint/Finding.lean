import PackLint.Json.Writer
import PackLint.Resource.Id

/-! # Findings

    A finding is a problem of a data pack: how severe it is, what it is, and where.
    It has three forms: one line for a log, a few lines for a terminal, and a JSON
    object for other programs. -/

namespace PackLint

inductive Severity
  | error
  | warning
deriving DecidableEq, Repr

def Severity.name : Severity → String
  | error => "error"
  | warning => "warning"

/-- A resource by its kind and id. -/
structure ResourceRef where
  kind : Kind
  id : String
deriving DecidableEq, Repr

/-- Where a finding points to. -/
inductive Location
  /-- The pack as a whole. -/
  | pack
  | resource (r : ResourceRef)
  /-- A value inside of a document, by its pointer. -/
  | node (r : ResourceRef) (pointer : String)
  /-- A command of a function, by its line and text. -/
  | command (r : ResourceRef) (line : Nat) (raw : String)
deriving DecidableEq, Repr

/-- The resource that a location is in. -/
def Location.resource? : Location → Option ResourceRef
  | pack => none
  | resource r | node r _ | command r _ _ => some r

structure Finding where
  severity : Severity
  message : String
  location : Location
  /-- A value of the resource that the finding is about, such as an entry of a tag. -/
  value : Option String
deriving DecidableEq, Repr

/-- A finding that is an error, about no value in particular. -/
def Finding.error (location : Location) (message : String) : Finding :=
  ⟨.error, message, location, none⟩

/-! ## One line -/

def ResourceRef.line (r : ResourceRef) : String :=
  r.kind.name ++ " " ++ r.id

def Location.line : Location → String
  | pack => "pack"
  | resource r => r.line
  | node r pointer =>
      r.line ++ " at " ++ (if pointer.isEmpty then "(root)" else pointer)
  | command r line _ => r.line ++ " line " ++ toString line

/-- The finding in one line. -/
def Finding.line (f : Finding) : String :=
  let value := match f.value with
    | some value => " entry " ++ value
    | none => ""
  f.severity.name ++ ": " ++ f.message ++ " [" ++ f.location.line ++ value ++ "]"

/-! ## Text -/

/-- The path of the file of a resource, or its id if that names no file. -/
def ResourceRef.path (r : ResourceRef) : String :=
  match ResourceId.pathOf? r.id r.kind with
  | .ok path => "data/" ++ path
  | .error _ => r.id

/-- The lines that say where a finding points to. -/
def Location.text : Location → String
  | pack => ""
  | resource r => "\n  --> " ++ r.path ++ " (" ++ r.line ++ ")"
  | node r pointer =>
      "\n  --> " ++ r.path ++ " (" ++ r.line ++ ") at "
        ++ (if pointer.isEmpty then "/" else pointer)
  | command r line raw =>
      "\n  --> " ++ r.path ++ ":" ++ toString line ++ " (" ++ r.line ++ ")\n   | " ++ raw

/-- The finding in lines for a terminal.  About the pack as a whole it says only
    what the problem is. -/
def Finding.text (f : Finding) : String :=
  let value := match f.location, f.value with
    | .pack, _ | _, none => ""
    | _, some value => "\n   = entry: " ++ value
  f.severity.name ++ ": " ++ f.message ++ f.location.text ++ value

/-! ## JSON -/

def ResourceRef.members (r : ResourceRef) : List (String × Json) :=
  [("kind", .str r.kind.reportName), ("id", .str r.id)]

def Location.json : Location → Json
  | pack => .obj [("type", .str "pack")]
  | resource r => .obj (("type", .str "resource") :: r.members)
  | node r pointer =>
      .obj [("type", .str "json_node"), ("resource", .obj r.members),
        ("pointer", .str pointer)]
  | command r line raw =>
      .obj [("type", .str "command"), ("resource", .obj r.members),
        ("line", .int line), ("raw", .str raw)]

/-- The finding as a JSON object.  Without a value it has no member for one. -/
def Finding.json (f : Finding) : Json :=
  .obj ([("severity", .str f.severity.name), ("message", .str f.message),
    ("location", f.location.json)] ++ (f.value.map fun v => ("value", .str v)).toList)

end PackLint
