import AddingMachine.CommandLine

/-!
# The program

Reads the arguments, the log filter in the environment and, if there are no expressions among the
arguments, the input; writes what the run leaves behind.
-/

namespace AddingMachine

partial def readAll (stream : IO.FS.Stream) (start : ByteArray) : IO ByteArray := do
  let chunk ← stream.read 65536
  if chunk.isEmpty then return start
  readAll stream (start ++ chunk)

def perform (request : Request) : IO UInt32 := do
  let logFilter ← IO.getEnv "RUST_LOG"
  let input ← if request.expressions.isEmpty then readAll (← IO.getStdin) .empty else pure .empty
  let finished := request.carryOut logFilter input.data.toList
  (← IO.getStdout).write ⟨finished.out.toArray⟩
  (← IO.getStderr).write ⟨finished.err.toArray⟩
  return finished.exitCode.toUInt32

end AddingMachine

/-- Runs the calculator on the arguments of the command line. -/
def main (arguments : List String) : IO UInt32 := do
  match AddingMachine.Request.ofArguments arguments with
  | .ok request => AddingMachine.perform request
  | .error refusal =>
    let stream ← if refusal.exitCode = 0 then IO.getStdout else IO.getStderr
    stream.putStrLn refusal.message
    return refusal.exitCode.toUInt32
