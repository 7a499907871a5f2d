import ExprLang.Fault
import ExprLang.Form.Piece

/-!
# Reading forms

A reader turns the pieces of a text into forms. Open combos are kept on a stack, innermost first, so
reading is one pass over the pieces. After a form or an error the rest of the input can be read on:
an error leaves the input behind the piece that caused it.
-/

namespace ExprLang

/-- How a text is read: the name of its source unit, whether a closer has to be of the kind of its
opener, and how deep brackets may nest. -/
structure Reader where
  file : String := "<input>"
  strict : Bool := false
  maxDepth : Nat := 256
  deriving DecidableEq, Repr

/-- Input that is still to be read: its pieces, the place that reading has reached and the place of
its end. -/
structure Input where
  lexemes : List Lexeme
  position : Position
  finish : Position
  deriving DecidableEq, Repr

namespace Input

def ofText (text : String) : Input :=
  let start : Position := {}
  ⟨ExprLang.lexemes start text.toList, start, start.advance text.toList⟩

def atEnd (input : Input) : Bool :=
  input.lexemes.isEmpty

/-- The input from its next piece on, or its end if only blanks are left. -/
def skipBlanks (input : Input) : Input :=
  match input.lexemes with
  | [] => { input with position := input.finish }
  | next :: _ => { input with position := next.start }

end Input

/-- A combo whose closer has not been read: where it was opened and its children so far, last
first. -/
structure OpenCombo where
  bracket : Bracket
  opened : Location
  children : List Form

namespace OpenCombo

def push (combo : OpenCombo) (form : Form) : OpenCombo :=
  { combo with children := form :: combo.children }

def close (combo : OpenCombo) : Form :=
  .combo combo.bracket combo.children.reverse combo.opened

end OpenCombo

namespace Reader

/-- Reads on with the given combos open, innermost first, until a form is complete outside of all
of them or reading fails. Answers the form and the input behind it. -/
def readWith (reader : Reader) (finish : Position) :
    List OpenCombo → List Lexeme → Except Diagnostic Form × Input
  | stack, [] =>
    let fault : Fault := match stack with
      | [] => .endOfInput
      | combo :: _ => .endInsideCombo combo.bracket combo.opened
    (.error (fault.reportAt (finish.inFile reader.file)), ⟨[], finish, finish⟩)
  | stack, ⟨piece, start, stop⟩ :: rest =>
    let loc := start.inFile reader.file
    let behind : Input := ⟨rest, stop, finish⟩
    let fail (fault : Fault) : Except Diagnostic Form × Input := (.error (fault.reportAt loc), behind)
    match piece with
    | .unterminated _ => fail (.unterminatedString (finish.inFile reader.file))
    | .opener bracket =>
      if reader.maxDepth ≤ stack.length then fail (.bracketsTooDeep reader.maxDepth)
      else readWith reader finish (⟨bracket, loc, []⟩ :: stack) rest
    | .atom text =>
      let form := .atom (String.ofList text) loc
      match stack with
      | [] => (.ok form, behind)
      | outer :: below => readWith reader finish (outer.push form :: below) rest
    | .closer bracket =>
      match stack with
      | [] => fail (.closerWithoutOpener bracket)
      | inner :: below =>
        if reader.strict && inner.bracket != bracket then
          fail (.closerOfOtherKind inner.bracket bracket inner.opened)
        else
          match below with
          | [] => (.ok inner.close, behind)
          | outer :: below => readWith reader finish (outer.push inner.close :: below) rest

/-- Reads the next form. Answers it, or the report of a failure, and the input behind it. -/
def readForm (reader : Reader) (input : Input) : Except Diagnostic Form × Input :=
  reader.readWith input.finish [] input.lexemes

/-- Reading with combos open takes a piece whenever there is one. -/
theorem length_readWith_le (reader : Reader) (finish : Position) (stack : List OpenCombo)
    (pieces : List Lexeme) :
    (reader.readWith finish stack pieces).2.lexemes.length ≤ pieces.length - 1 := by
  induction pieces generalizing stack with
  | nil => simp [readWith]
  | cons lexeme rest ih =>
    obtain ⟨piece, start, stop⟩ := lexeme
    have further (combos : List OpenCombo) :
        (reader.readWith finish combos rest).2.lexemes.length ≤ rest.length :=
      Nat.le_trans (ih combos) (Nat.sub_le ..)
    cases piece <;> simp only [readWith, List.length_cons, Nat.add_sub_cancel] <;> (repeat' split) <;>
      first | exact Nat.le_refl _ | exact further _

/-- Reading a form takes a piece whenever there is one. -/
theorem length_readForm_lt (reader : Reader) {input : Input} (left : ¬ input.atEnd = true) :
    (reader.readForm input).2.lexemes.length < input.lexemes.length := by
  have shorter := reader.length_readWith_le input.finish [] input.lexemes
  have positive : 0 < input.lexemes.length := by
    simpa [Input.atEnd, List.length_pos_iff] using left
  exact Nat.lt_of_le_of_lt shorter (by omega)

def readForms (reader : Reader) (input : Input) : Except Diagnostic (List Form) :=
  if left : input.atEnd then .ok []
  else
    match read : reader.readForm input with
    | (.error report, _) => .error report
    | (.ok form, behind) => do
      have : behind.lexemes.length < input.lexemes.length := by
        simpa [read] using reader.length_readForm_lt left
      let forms ← reader.readForms behind
      return form :: forms
termination_by input.lexemes.length

/-- Reads the first form of a text; what follows it is not looked at. -/
def readFirst (reader : Reader) (text : String) : Except Diagnostic Form :=
  (reader.readForm (.ofText text)).1

def readAll (reader : Reader) (text : String) : Except Diagnostic (List Form) :=
  reader.readForms (.ofText text)

/-- Reads a text that has to hold exactly one form. -/
def readOnly (reader : Reader) (text : String) : Except Diagnostic Form :=
  match reader.readForm (.ofText text) with
  | (.error report, _) => .error report
  | (.ok form, behind) =>
    match behind.lexemes with
    | [] => .ok form
    | next :: _ => .error (Fault.secondForm.reportAt (next.start.inFile reader.file))

end Reader

end ExprLang
