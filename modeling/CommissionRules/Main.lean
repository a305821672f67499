import CommissionRules.CommandLine

/-!
# The program

Reads the files that the arguments name, runs the command line on them, and prints the report with
the time that it took.
-/

open CommissionRules CommandLine

def readFiles : List String → IO (List (String × String))
  | [] => return []
  | path :: rest => do
      let others ← readFiles rest
      try
        let text ← IO.FS.readFile path
        return (path, text) :: others
      catch _ => return others

def main (args : List String) : IO UInt32 := do
  let start ← IO.monoMsNow
  let paths := match readArguments args with
    | .ok invocation => invocation.paths
    | .error _ => []
  let files ← readFiles paths
  let report := run (fun path => files.lookup path) args
  let stdout ← IO.getStdout
  let stderr ← IO.getStderr
  for line in report.lines do
    let now ← IO.monoMsNow
    stdout.putStrLn (line.render (now - start))
  stderr.putStr report.errors
  return report.code.toUInt32
