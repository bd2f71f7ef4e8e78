import SqlStore.CommandLine.Session

/-!
# The program

Reads the input if no query is given and prints the transcript.
-/
open SqlStore.CommandLine

def main (arguments : List String) : IO UInt32 := do
  let invocation := Invocation.ofArguments arguments
  let input ← if invocation.readsInput then (← IO.getStdin).readBinToEnd else pure ByteArray.empty
  let transcript := Transcript.ofInvocation invocation input
  (← IO.getStdout).putStr transcript.output
  (← IO.getStderr).putStr transcript.diagnostics
  return transcript.exitCode
