import InlineArrays.CommandLine

/-!
# The program

Reads a scenario file, compiles it and prints the outcome; the exit code tells whether it failed.
-/

open InlineArrays

def main (args : List String) : IO UInt32 := do
  let some command := CommandLine.read? {} args | IO.eprintln CommandLine.usage; return 2
  let some file := command.input | IO.eprintln CommandLine.usage; return 2
  let transcript := command.execute (← IO.FS.readFile file)
  transcript.output.forM fun line ↦ IO.println line
  transcript.errors.forM fun line ↦ IO.eprintln line
  return if transcript.failed then 1 else 0
