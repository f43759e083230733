import PackLint.Command.Basic
import PackLint.Json.Basic
import PackLint.Upgrade.Pattern

/-! # Issues of the upgrade

    What a pack made for 1.16 has to change for 1.17.  An issue is found in one
    command, in one text, or in one JSON value. -/

namespace PackLint.Upgrade

open Text

inductive Issue
  /-- An armor stand is summoned as a marker. -/
  | markerArmorStand
  /-- An area effect cloud is summoned that cannot be seen. -/
  | invisibleCloud
  | renamedCommand (old new : String)
  | renamedStatistic (old new : String)
  | renamedId (old new : String)
  /-- A member with one value gave way to a list. -/
  | listedMember (what old new : String)
  /-- A dimension type lacks an integer. -/
  | missingInteger (name : String)
deriving DecidableEq, Repr

def Issue.message : Issue → String
  | markerArmorStand =>
      "Armor stands with Marker:1b can be replaced by the marker entity, which is not ticked."
  | invisibleCloud =>
      "Area effect clouds without any effects or particles can be replaced by the marker entity, which is not ticked."
  | renamedCommand old new =>
      "The command /" ++ old ++ " has been removed. Use /" ++ new ++ " instead."
  | renamedStatistic old new =>
      "The statistic " ++ old ++ " has been renamed to " ++ new ++ "."
  | renamedId old new => "The id " ++ old ++ " has been renamed to " ++ new ++ "."
  | listedMember what old new =>
      "The \"" ++ old ++ "\" field of " ++ what ++ " predicates has been replaced by the \""
        ++ new ++ "\" list."
  | missingInteger name =>
      "Dimension types must have the integer property \"" ++ name ++ "\"."

/-! ## Commands -/

/-- The number of arguments from which on `summon` may be given data. -/
def argsWithData : Nat := 5

/-- An entity that only marks a place. -/
def entityIssues (c : Command) : List Issue :=
  let text := c.raw.toList
  if summonsMarkerArmorStand text then [.markerArmorStand]
  else if summonsInvisibleCloud text
      || (summonsCloud text && c.args.length < argsWithData) then [.invisibleCloud]
  else []

/-- The commands that were renamed. -/
def renamedCommands : List (String × String) :=
  [("replaceitem", "item replace")]

/-- A command that was renamed. -/
def commandIssues (c : Command) : List Issue :=
  (renamedCommands.filter fun r => c.key? == some r.1).map fun r => .renamedCommand r.1 r.2

/-- An objective is added. -/
def addsObjective (c : Command) : Bool :=
  c.key? == some "scoreboard" && c.args[0]? == some "objectives" && c.args[1]? == some "add"

/-- An objective for a statistic that was renamed. -/
def statisticIssues (c : Command) : List Issue :=
  if addsObjective c && namesPlayTime c.raw.toList then
    [.renamedStatistic "minecraft.custom:minecraft.play_one_minute"
      "minecraft.custom:minecraft.play_time"]
  else []

/-! ## Texts -/

/-- The ids that were renamed. -/
def renamedIds : List (String × String) :=
  [("grass_path", "dirt_path")]

/-- Ids that were renamed, where they stand as words. -/
def idIssues (text : String) : List Issue :=
  (renamedIds.filter fun r => hasWord r.1.toList text.toList).map fun r =>
    .renamedId r.1 r.2

/-- The members of predicates that gave way to lists. -/
def listedMembers : List (String × String × String) :=
  [("block", "block", "blocks"), ("item", "item", "items")]

/-- Members of predicates that gave way to lists. -/
def conditionIssues (text : String) : List Issue :=
  (listedMembers.filter fun m => hasStringMember m.2.1 text.toList).map fun m =>
    .listedMember m.1 m.2.1 m.2.2

/-! ## JSON values -/

/-- The integers that a dimension type must have. -/
def requiredIntegers : List String :=
  ["min_y", "height"]

/-- Integers that a dimension type lacks.  What is no object is no dimension type. -/
def dimensionTypeIssues (v : Json) : List Issue :=
  if v.isObject then
    (requiredIntegers.filter fun name => (v.integer? name).isNone).map .missingInteger
  else []

end PackLint.Upgrade
