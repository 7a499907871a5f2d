import ExprLang.Diagnostic

/-!
# Forms

The trees that source text is read into. An atom keeps its text verbatim; a combo has a bracket and
children. `Form.render` writes a tree back with one blank between children, and `Form.same` compares
two trees and ignores where they were found.
-/

namespace ExprLang

inductive Bracket where
  | paren | square | curly
  deriving DecidableEq, Repr

namespace Bracket

def opener : Bracket → Char
  | .paren => '('
  | .square => '['
  | .curly => '{'

def closer : Bracket → Char
  | .paren => ')'
  | .square => ']'
  | .curly => '}'

def ofOpener? : Char → Option Bracket
  | '(' => some .paren
  | '[' => some .square
  | '{' => some .curly
  | _ => none

def ofCloser? : Char → Option Bracket
  | ')' => some .paren
  | ']' => some .square
  | '}' => some .curly
  | _ => none

end Bracket

/-- A tree of source text: an atom with its text, or a combo of children in brackets. -/
inductive Form where
  | atom (text : String) (loc : Location)
  | combo (bracket : Bracket) (children : List Form) (loc : Location)
  deriving Inhabited, Repr

namespace Form

/-- The place of a form's first character. -/
def loc : Form → Location
  | .atom _ loc => loc
  | .combo _ _ loc => loc

mutual

/-- The text of a tree: the opener, the children with one blank between two, and the closer. -/
def render : Form → List Char
  | .atom text _ => text.toList
  | .combo bracket children _ => bracket.opener :: (renderAll children ++ [bracket.closer])

def renderAll : List Form → List Char
  | [] => []
  | [form] => render form
  | form :: rest => render form ++ ' ' :: renderAll rest

end

def display (form : Form) : String :=
  String.ofList form.render

mutual

/-- Whether two trees have the same atoms and brackets, wherever they were found. -/
def same : Form → Form → Bool
  | .atom a _, .atom b _ => a == b
  | .combo a as _, .combo b bs _ => a == b && sameAll as bs
  | .atom .., .combo .. | .combo .., .atom .. => false
termination_by structural form => form

def sameAll : List Form → List Form → Bool
  | [], [] => true
  | a :: as, b :: bs => same a b && sameAll as bs
  | [], _ :: _ | _ :: _, [] => false
termination_by structural forms => forms

end

end Form

end ExprLang
