import PackLint.Upgrade.Walker

/-! # Findings of the upgrade

    The findings in a pack are those about its format, and then what the walkers
    find in its resources.  A pack without a format is not looked into. -/

namespace PackLint.Upgrade

/-- The format of a pack. -/
def format? (metadata : Json) : Option Int :=
  (metadata.object? "pack").bind (Json.integer? "pack_format")

/-- The oldest format that can be upgraded. -/
def oldestFormat : Int := 6

/-- The format of 1.17. -/
def targetFormat : Int := 7

/-- The findings about the format of a pack. -/
def formatFindings (format : Int) : List Finding :=
  let unsupported :=
    if format < oldestFormat then
      ["This rule does not support data pack format " ++ toString format
        ++ ". Consider updating it to be compatible with format " ++ toString oldestFormat
        ++ " first."]
    else if targetFormat < format then
      ["The specified data pack is made for a newer format (" ++ toString format
        ++ ") and should not be used with this rule."]
    else []
  let outdated :=
    if format = targetFormat then []
    else
      ["The data pack format must be set to " ++ toString targetFormat
        ++ " in order to be compatible with Minecraft 1.17."]
  (unsupported ++ outdated).map (Finding.error .pack)

/-- Adds the findings in a pack to a report. -/
def run (pack : Pack) (report : Report) : Report :=
  match format? pack.metadata with
  | none => report
  | some format =>
      (walkAll pack.namespaces (report.append (formatFindings format))).report

end PackLint.Upgrade
