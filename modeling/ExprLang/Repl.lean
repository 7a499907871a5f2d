import ExprLang.Engine

/-!
# The read-eval-print loop

Each line is an expression; its answer is its value and its static type. A line `:quit` or `:exit`
ends the loop, and blank lines are passed over. Lines come as bytes, and one that is not valid
UTF-8 ends the loop with a failure.
-/

namespace ExprLang.Repl

/-- Compiles and runs a line, and writes its value and its static type. -/
def evalLine (engine : Engine) (line : String) : Except Diagnostic (String × Engine) := do
  let (unit, engine) ← engine.compile line
  let (value, engine) ← engine.invoke unit
  return (s!"{value.text} : {unit.root.ty.render}", engine)

structure Transcript where
  out : List String := []
  err : List String := []
  failed : Bool := false

def stripEnding (line : List UInt8) : List UInt8 :=
  if line.getLast? = some 13 then line.dropLast else line

/-- The lines of an input, without their endings. What follows the last line feed is a line only
if it is not empty. -/
def linesOf (bytes : List UInt8) : List (List UInt8) :=
  go [] bytes
where
  /-- Collects the bytes of the current line, last first. -/
  go (current : List UInt8) : List UInt8 → List (List UInt8)
    | [] => if current.isEmpty then [] else [current.reverse]
    | byte :: rest =>
      if byte = 10 then stripEnding current.reverse :: go [] rest else go (byte :: current) rest

def runLines (engine : Engine) : List (List UInt8) → Transcript
  | [] => {}
  | line :: rest =>
    match String.fromUTF8? ⟨line.toArray⟩ with
    | none =>
      { err := [(Failure.file "stream did not contain valid UTF-8").render], failed := true }
    | some text =>
      let trimmed := trimBlanks text
      if trimmed = ":quit" ∨ trimmed = ":exit" then {}
      else if trimmed = "" then runLines engine rest
      else
        match evalLine engine trimmed with
        | .ok (answer, engine) =>
          let later := runLines engine rest
          { later with out := answer :: later.out }
        | .error report =>
          let later := runLines engine rest
          { later with err := report.render :: later.err }

def run (engine : Engine) (input : ByteArray) : Transcript :=
  runLines engine (linesOf input.toList)

end ExprLang.Repl
