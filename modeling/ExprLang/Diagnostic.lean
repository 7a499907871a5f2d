/-!
# Diagnostics

What the language reports when a text cannot be read, typed or run: a code, which decides the kind,
a message, the place it speaks of and notes. `Diagnostic.render` is the one text form of a report.
-/

namespace ExprLang

/-- A position in a source unit. Lines and columns start at one. -/
structure Location where
  file : String
  line : Nat
  column : Nat
  deriving DecidableEq, Inhabited, Repr

def Location.render (loc : Location) : String :=
  s!"{loc.file}:{loc.line}:{loc.column}"

namespace Diagnostic

/-- The stage of the language that a report comes from. -/
inductive Kind where
  | lexer | parser | type | runtime
  deriving DecidableEq, Repr

def Kind.name : Kind → String
  | .lexer => "Lexer"
  | .parser => "Parser"
  | .type => "Type"
  | .runtime => "Runtime"

/-- What went wrong, as a class that a host can act on. -/
inductive Code where
  | unterminatedString | unexpectedEndOfFile | unexpectedEndOfCombo | unbalancedCloser
  | mismatchedCloser | trailingContent
  | emptyForm | arityMismatch | unsupportedForm | malformedForm | invalidLiteral | unresolvedType
  | undefinedVariable | noMatchingConstructor | noMatchingIndexer | tooDeeplyNested
  | noCommonBaseType | typeMismatch | operatorNotDefined | invalidConversion
  | divideByZero | overflow | indexOutOfRange | keyNotFound | duplicateKey | invalidCast
  | nullReference | unboundVariable | host
  deriving DecidableEq, Repr

def Code.kind : Code → Kind
  | .unterminatedString | .unexpectedEndOfFile | .unexpectedEndOfCombo | .unbalancedCloser
  | .mismatchedCloser | .trailingContent => .lexer
  | .emptyForm | .arityMismatch | .unsupportedForm | .malformedForm | .invalidLiteral
  | .unresolvedType | .undefinedVariable | .noMatchingConstructor | .noMatchingIndexer
  | .tooDeeplyNested => .parser
  | .noCommonBaseType | .typeMismatch | .operatorNotDefined | .invalidConversion => .type
  | .divideByZero | .overflow | .indexOutOfRange | .keyNotFound | .duplicateKey | .invalidCast
  | .nullReference | .unboundVariable | .host => .runtime

def Code.names : List (Code × String) :=
  [(.unterminatedString, "UnterminatedString"), (.unexpectedEndOfFile, "UnexpectedEndOfFile"),
   (.unexpectedEndOfCombo, "UnexpectedEndOfCombo"), (.unbalancedCloser, "UnbalancedCloser"),
   (.mismatchedCloser, "MismatchedCloser"), (.trailingContent, "TrailingContent"),
   (.emptyForm, "EmptyForm"), (.arityMismatch, "ArityMismatch"),
   (.unsupportedForm, "UnsupportedForm"), (.malformedForm, "MalformedForm"),
   (.invalidLiteral, "InvalidLiteral"), (.unresolvedType, "UnresolvedType"),
   (.undefinedVariable, "UndefinedVariable"), (.noMatchingConstructor, "NoMatchingConstructor"),
   (.noMatchingIndexer, "NoMatchingIndexer"), (.tooDeeplyNested, "TooDeeplyNested"),
   (.noCommonBaseType, "NoCommonBaseType"), (.typeMismatch, "TypeMismatch"),
   (.operatorNotDefined, "OperatorNotDefined"), (.invalidConversion, "InvalidConversion"),
   (.divideByZero, "DivideByZero"), (.overflow, "Overflow"),
   (.indexOutOfRange, "IndexOutOfRange"), (.keyNotFound, "KeyNotFound"),
   (.duplicateKey, "DuplicateKey"), (.invalidCast, "InvalidCast"),
   (.nullReference, "NullReference"), (.unboundVariable, "UnboundVariable"), (.host, "Host")]

def Code.name (code : Code) : String :=
  (Code.names.lookup code).getD ""

def Code.ofName? (name : String) : Option Code :=
  (Code.names.find? fun entry => entry.2 == name).map (·.1)

end Diagnostic

/-- A report: its code, its message, the place it speaks of, if it has one, and notes. -/
structure Diagnostic where
  code : Diagnostic.Code
  message : String
  location : Option Location := none
  notes : List String := []
  deriving DecidableEq, Repr

namespace Diagnostic

def kind (report : Diagnostic) : Kind :=
  report.code.kind

/-- The text of a report: a line with kind, code, message and place, then a line for each note. -/
def render (report : Diagnostic) : String :=
  let head := s!"{report.kind.name} error ({report.code.name}): {report.message}"
  let place := match report.location with
    | some loc => s!" at {loc.render}"
    | none => ""
  let notes := report.notes.map fun note => s!"\n  note: {note}"
  head ++ place ++ String.join notes

end Diagnostic

end ExprLang
