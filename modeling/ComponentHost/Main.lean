import ComponentHost.CommandLine

/-!
The program: it looks at the files that a command line needs, runs it on what it found, and prints the
report.
-/
set_option autoImplicit false

namespace ComponentHost.CommandLine

/-- Adds what is at a place, if anything is. -/
def look (fs : FileSystem) (place : List String) : IO FileSystem := do
  let path := "/" ++ "/".intercalate place
  try
    if ← (← IO.FS.realPath path).isDir then return fs.makeDirs place
    else return fs.write place (← IO.FS.readBinFile path).toList
  catch _ => return fs

def lookAt (fs : FileSystem) (paths : List Path) : IO FileSystem :=
  (paths.flatMap (places (FileSystem.placeOf fs.cwd))).eraseDups.foldlM look fs

def snapshot (args : Args) : IO FileSystem := do
  let cwd : Path := ⟨(← IO.currentDir).toString⟩
  let start : FileSystem := { cwd, nodes := [] }
  let start := start.makeDirs (FileSystem.placeOf cwd)
  let first ← lookAt start (wanted start args)
  lookAt first (wanted first args)

def allSteps : Nat := 1000000000000000000

end ComponentHost.CommandLine

open ComponentHost in
def main (words : List String) : IO UInt32 := do
  let fs ← match CommandLine.read words with
    | .run args => CommandLine.snapshot args
    | _ => pure { cwd := ⟨"/"⟩, nodes := [] }
  let report := CommandLine.run fs CommandLine.allSteps words
  IO.print report.output
  report.errors.forM IO.eprintln
  return report.exitCode
