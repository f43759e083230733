import PackLint.CommandLine.Run

/-! # The program

    Reads from disk what the arguments name, runs, and prints. -/

namespace PackLint

open CommandLine

/-- The node at a path on disk. -/
partial def readTree (path : String) : IO FileTree := do
  let place ← IO.FS.realPath path
  if ← place.isDir then
    let entries ← place.readDir
    let nodes ← entries.toList.mapM fun entry => do
      pure (entry.fileName, ← readTree entry.path.toString)
    pure (.directory nodes)
  else
    pure (.file (← IO.FS.readBinFile path))

/-- The node at a path on disk, if there is one. -/
def findTree (path : String) : IO (Option FileTree) := do
  try
    pure (some (← readTree path))
  catch _ =>
    pure none

/-- The nodes at the paths that a request names. -/
def findAll : Except UsageError Request → IO (List (String × FileTree))
  | .ok (.run o) => do
      let paths := o.pack.toList ++ o.config.toList
      paths.filterMapM fun path => do
        pure ((← findTree path).map fun tree => (path, tree))
  | _ => pure []

end PackLint

open PackLint PackLint.CommandLine in
def main (args : List String) : IO UInt32 := do
  let nodes ← findAll (Request.ofArgs args)
  let outcome := run (fun path => nodes.lookup path) args
  IO.print outcome.output
  unless outcome.complaint.isEmpty do
    IO.eprintln outcome.complaint
  pure outcome.status.toUInt32
