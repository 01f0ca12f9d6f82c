import CallImpact.CommandLine
import CallImpact.Scenario

/-!
# The program

Runs a command line on a host and a world that a JSON document on the standard input describes,
and writes what the command prints.
-/

open CallImpact

/-- All lines of a stream. -/
partial def readAll (stream : IO.FS.Stream) (read : String) : IO String := do
  let line ← stream.getLine
  if line.isEmpty then return read else readAll stream (read ++ line)

/-- Runs the command line that the arguments make. -/
def main (words : List String) : IO UInt32 := do
  let text ← readAll (← IO.getStdin) ""
  let document := (Json.parse? text.length text).getD .null
  let root := "/work"
  let settings := Scenario.settingsOf (root ++ "/data") (document.field "config")
  let host := Scenario.hostOf root (fun n => Text.padZeros 6 n) document
  let world := Scenario.configuredWorldOf settings document
  let config := ["--config", joinPath root Scenario.configPath]
  let (ended, _) := (CommandLine.run (config ++ words) host world).run
  (← IO.getStdout).putStr ended.out.text
  (← IO.getStderr).putStr (CommandLine.Printed.lines ended.err).text
  return UInt32.ofNat ended.code
