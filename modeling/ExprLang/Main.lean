/-
The command itself: reads the file if one is asked for, and writes the response.
-/
import ExprLang.Response

namespace ExprLang

/-- The bytes of a file, unless it cannot be read. -/
def readFile? (name : String) : IO (Option ByteArray) := do
  try
    let bytes ← IO.FS.readBinFile name
    return some bytes
  catch _ => return none

end ExprLang

open ExprLang in
/-- Reads the arguments, then the file if one is asked for, and writes the response. -/
def main (arguments : List String) : IO UInt32 := do
  let request := Request.ofArguments arguments
  let file ← match request.fileName? with
    | some name => readFile? name
    | none => pure none
  let response := request.respond file
  let stdout ← IO.getStdout
  let stderr ← IO.getStderr
  stdout.write (ByteArray.mk response.stdout.toArray)
  stdout.flush
  stderr.write (ByteArray.mk response.stderr.toArray)
  return UInt32.ofNat response.exitCode
