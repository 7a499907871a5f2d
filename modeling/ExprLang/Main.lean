import ExprLang.CommandLine

/-!
# The program

Reads what the command line needs and writes what it answers.
-/

namespace ExprLang.Main

attribute [local instance (high)] instPowNat

/-- The message of a failure of the operating system: its description and its number, which some
calls report negated. -/
def systemMessage (details : String) (code : UInt32) : String :=
  let number := if code.toNat < 2 ^ (31 : Nat) then code.toNat else 2 ^ (32 : Nat) - code.toNat
  s!"{details.capitalize} (os error {number})"

def openFile (name : String) : IO FileContent := do
  try
    let bytes ← IO.FS.readBinFile name
    return .ok bytes
  catch failure =>
    match failure with
    | .noFileOrDirectory .. => return FileContent.missing
    | .inappropriateType _ code details | .permissionDenied _ code details =>
      return .error (systemMessage details code)
    | other => return .error (toString other)

/-- All bytes of the input. -/
partial def readInput (stream : IO.FS.Stream) (bytes : ByteArray) : IO ByteArray := do
  let chunk ← stream.read 65536
  if chunk.isEmpty then return bytes
  else readInput stream (bytes ++ chunk)

def run (args : List String) : IO UInt32 := do
  let needed := match CommandLine.parse args with
    | .request request => (request.file?, decide (request.task = CommandLine.Task.repl))
    | _ => (none, false)
  let file ← match needed.1 with
    | some name => openFile name
    | none => pure FileContent.missing
  let input ← if needed.2 then readInput (← IO.getStdin) .empty else pure .empty
  let answer := CommandLine.answer args (fun _ => file) input
  IO.print answer.out
  IO.eprint answer.err
  return answer.exit.toUInt32

end ExprLang.Main

def main (args : List String) : IO UInt32 :=
  ExprLang.Main.run args
