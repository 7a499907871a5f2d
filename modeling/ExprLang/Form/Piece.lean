import ExprLang.Form.Basic
import ExprLang.Text.Blank

/-!
# Pieces of source text

The lexical layer: source text is a sequence of pieces with blanks between them. A piece is a
bracket, a string (from a quote at its start through the next quote; there are no escapes) or a
maximal run of characters that are neither blank nor brackets. A quote inside a run opens nothing.
`lexemes` lists the pieces of a text with the positions where each starts and stops.
-/

namespace ExprLang

structure Position where
  line : Nat := 1
  column : Nat := 1
  deriving DecidableEq, Repr

namespace Position

/-- The place behind a character: a line feed starts a line, a carriage return has no width and
every other character has width one. -/
def after (position : Position) (c : Char) : Position :=
  if c = '\n' then ⟨position.line + 1, 1⟩
  else if c = '\r' then position
  else ⟨position.line, position.column + 1⟩

/-- The place behind a stretch of text. -/
def advance (position : Position) (text : List Char) : Position :=
  text.foldl after position

def inFile (position : Position) (file : String) : Location :=
  ⟨file, position.line, position.column⟩

@[simp] theorem advance_nil (position : Position) : position.advance [] = position := rfl

theorem advance_append (position : Position) (first second : List Char) :
    position.advance (first ++ second) = (position.advance first).advance second :=
  List.foldl_append

end Position

inductive Piece where
  | opener (bracket : Bracket)
  | closer (bracket : Bracket)
  | atom (text : List Char)
  /-- A string whose closing quote is missing; it reaches to the end of the input. -/
  | unterminated (text : List Char)
  deriving DecidableEq, Repr

namespace Piece

def text : Piece → List Char
  | .opener bracket => [bracket.opener]
  | .closer bracket => [bracket.closer]
  | .atom text | .unterminated text => text

def isBracket (c : Char) : Bool :=
  (Bracket.ofOpener? c).isSome || (Bracket.ofCloser? c).isSome

/-- Whether a character can stand in a run. -/
def isRunChar (c : Char) : Bool :=
  !isBlank c && !isBracket c

/-- Whether a character can stand between the quotes of a string. -/
def isStringChar (c : Char) : Bool :=
  c != '"'

/-- The piece that starts with a given character that is not blank, and the text behind it. -/
def split (c : Char) (rest : List Char) : Piece × List Char :=
  match Bracket.ofOpener? c, Bracket.ofCloser? c with
  | some bracket, _ => (.opener bracket, rest)
  | none, some bracket => (.closer bracket, rest)
  | none, none =>
    if c = '"' then
      let body := rest.takeWhile isStringChar
      match rest.dropWhile isStringChar with
      | [] => (.unterminated (c :: body), [])
      | quote :: behind => (.atom (c :: (body ++ [quote])), behind)
    else
      (.atom (c :: rest.takeWhile isRunChar), rest.dropWhile isRunChar)

theorem opener_of_ofOpener? {c : Char} {bracket : Bracket}
    (found : Bracket.ofOpener? c = some bracket) : bracket.opener = c := by
  unfold Bracket.ofOpener? at found
  split at found <;> cases found <;> rfl

theorem closer_of_ofCloser? {c : Char} {bracket : Bracket}
    (found : Bracket.ofCloser? c = some bracket) : bracket.closer = c := by
  unfold Bracket.ofCloser? at found
  split at found <;> cases found <;> rfl

/-- Splitting loses nothing: the text of the piece and the text behind it are the whole. -/
theorem text_append_split (c : Char) (rest : List Char) :
    (split c rest).1.text ++ (split c rest).2 = c :: rest := by
  unfold split
  split
  next bracket opens => simp [text, opener_of_ofOpener? opens]
  next bracket closes => simp [text, closer_of_ofCloser? closes]
  next =>
    split
    next =>
      have whole := List.takeWhile_append_dropWhile (p := isStringChar) (l := rest)
      split
      next ends => simpa [text, ends] using whole
      next quote behind ends => simpa [text, ends] using whole
    next => simp [text, List.takeWhile_append_dropWhile]

/-- A piece starts with its first character. -/
theorem text_split_eq_cons (c : Char) (rest : List Char) :
    ∃ more, (split c rest).1.text = c :: more := by
  unfold split
  split
  next bracket opens => exact ⟨[], by simp [text, opener_of_ofOpener? opens]⟩
  next bracket closes => exact ⟨[], by simp [text, closer_of_ofCloser? closes]⟩
  next =>
    split
    next =>
      split
      next => exact ⟨_, rfl⟩
      next => exact ⟨_, rfl⟩
    next => exact ⟨_, rfl⟩

/-- What is behind a piece is no longer than what follows its first character. -/
theorem length_split (c : Char) (rest : List Char) :
    (split c rest).2.length ≤ rest.length := by
  have whole := congrArg List.length (text_append_split c rest)
  obtain ⟨more, starts⟩ := text_split_eq_cons c rest
  simp only [starts, List.length_append, List.length_cons] at whole
  omega

end Piece

/-- A piece with the places where it starts and where it stops. -/
structure Lexeme where
  piece : Piece
  start : Position
  stop : Position
  deriving DecidableEq, Repr

/-- What is behind the first piece of a text is shorter than the text. -/
theorem length_split_lt {text rest : List Char} {c : Char}
    (unread : text.dropWhile isBlank = c :: rest) :
    (Piece.split c rest).2.length < text.length := by
  have shorter := Piece.length_split c rest
  have dropped := (List.dropWhile_suffix (l := text) isBlank).length_le
  rw [unread, List.length_cons] at dropped
  omega

/-- The pieces of a text whose first character is at the given place. -/
def lexemes (position : Position) (text : List Char) : List Lexeme :=
  match unread : text.dropWhile isBlank with
  | [] => []
  | c :: rest =>
    let start := position.advance (text.takeWhile isBlank)
    let piece := (Piece.split c rest).1
    let stop := start.advance piece.text
    have := length_split_lt unread
    ⟨piece, start, stop⟩ :: lexemes stop (Piece.split c rest).2
termination_by text.length

end ExprLang
