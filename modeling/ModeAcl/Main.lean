import ModeAcl.Session

/-!
Runs a session: every line of the input is a command line.
-/

namespace ModeAcl.Main

/-- Read lines and show what they do, until the input ends. -/
partial def loop (input output errors : IO.FS.Stream) (fs : FileSystem) : IO Unit := do
  let line ← input.getLine
  if line.isEmpty then return
  let (shown, fs) := Session.step line fs
  output.putStr shown.output
  output.flush
  errors.putStr shown.errors
  errors.flush
  loop input output errors fs

end ModeAcl.Main

def main : IO Unit := do
  ModeAcl.Main.loop (← IO.getStdin) (← IO.getStdout) (← IO.getStderr) ModeAcl.Session.initial
