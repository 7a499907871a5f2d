import ExprLang.Form.Basic
import ExprLang.Ty

/-!
# Faults

Every way in which reading, typing or running can fail, as a cause with its particulars.
`Fault.code` and `Fault.message` are the only places that decide how a cause is reported, and
`Fault.reportAt` turns a cause into a diagnostic at a location.
-/

namespace ExprLang

inductive Fault where
  -- reading
  | unterminatedString (inputEnd : Location)
  | endOfInput
  | endInsideCombo (bracket : Bracket) (opened : Location)
  | closerWithoutOpener (bracket : Bracket)
  | closerOfOtherKind (opener closer : Bracket) (opened : Location)
  | secondForm
  | bracketsTooDeep (limit : Nat)
  -- typing: shape of forms
  | expressionTooDeep (limit : Nat)
  | emptyForm
  | headNotAtom
  | unknownHead (name : String)
  | arity (head : String) (expected found : Nat)
  | arityAtLeast (head : String) (least found : Nat)
  | unpairedMapLiteral (found : Nat)
  | parametersNotAList
  | notAParameter (form : Form)
  | parameterNameNotAtom
  | duplicateParameter (name : String)
  | notATypeName (form : Form)
  -- typing: names and literals
  | integerOutOfRange (text : String) (ty : Ty)
  | invalidLiteral (text : String) (ty : Ty)
  | unknownType (name : String)
  | undefinedVariable (name : String)
  -- typing: rules
  | noConstructor (ty : Ty) (args : List Ty)
  | noIndexer (ty : Ty) (args : List Ty)
  | emptyCollection
  | noCommonBase (types : List Ty)
  | conditionNotBool (ty : Ty)
  | branchesDiffer (yes no : Ty)
  | unaryUndefined (symbol : String) (ty : Ty)
  | binaryUndefined (symbol : String) (left right : Ty)
  | asValueType (ty : Ty)
  | castRejected (source target : Ty)
  -- running
  | divisionByZero
  | overflow
  | listIndex (index : Int) (size : Nat)
  | stringIndex (index : Int) (text : String)
  | keyMissing (key : String)
  | keyRepeated (key : String)
  | conditionValue (actual : String)
  | operatorInapplicable (symbol : String) (operands : List String)
  | indexerInapplicable (target : String)
  | castFailed (actual target : Ty)
  | conversionFailed (value : String) (target : Ty)
  | nullTarget
  | nullToValueType (target : Ty)
  | valueless (name : String)
  | host (message : String)
  -- calling and asking for results
  | argumentCount (expected found : Nat)
  | argumentType (name : String) (expected : Ty) (actual : String)
  | resultIncompatible (ty expected : Ty)
  | resultUnobtainable (ty : Ty) (requested : String)
  | resultOfOtherType (actual requested : String)
  | globalOfOtherType (name : String) (ty value : Ty)

namespace Fault

open Diagnostic (Code)

def code : Fault → Code
  | .unterminatedString _ => .unterminatedString
  | .endOfInput => .unexpectedEndOfFile
  | .endInsideCombo .. => .unexpectedEndOfCombo
  | .closerWithoutOpener _ => .unbalancedCloser
  | .closerOfOtherKind .. => .mismatchedCloser
  | .secondForm => .trailingContent
  | .bracketsTooDeep _ | .expressionTooDeep _ => .tooDeeplyNested
  | .emptyForm => .emptyForm
  | .headNotAtom | .unknownHead _ => .unsupportedForm
  | .arity .. | .arityAtLeast .. | .unpairedMapLiteral _ | .argumentCount .. => .arityMismatch
  | .parametersNotAList | .notAParameter _ | .parameterNameNotAtom | .duplicateParameter _
  | .notATypeName _ => .malformedForm
  | .integerOutOfRange .. | .invalidLiteral .. => .invalidLiteral
  | .unknownType _ => .unresolvedType
  | .undefinedVariable _ => .undefinedVariable
  | .noConstructor .. => .noMatchingConstructor
  | .noIndexer .. => .noMatchingIndexer
  | .emptyCollection | .noCommonBase _ => .noCommonBaseType
  | .conditionNotBool _ | .branchesDiffer .. | .conditionValue _ | .argumentType ..
  | .resultIncompatible .. | .resultUnobtainable .. | .resultOfOtherType ..
  | .globalOfOtherType .. => .typeMismatch
  | .unaryUndefined .. | .binaryUndefined .. | .operatorInapplicable .. => .operatorNotDefined
  | .asValueType _ | .castRejected .. => .invalidConversion
  | .divisionByZero => .divideByZero
  | .overflow => .overflow
  | .listIndex .. | .stringIndex .. => .indexOutOfRange
  | .keyMissing _ => .keyNotFound
  | .keyRepeated _ => .duplicateKey
  | .indexerInapplicable _ | .castFailed .. | .conversionFailed .. => .invalidCast
  | .nullTarget | .nullToValueType _ => .nullReference
  | .valueless _ => .unboundVariable
  | .host _ => .host

def message : Fault → String
  | .unterminatedString _ => "unterminated string literal"
  | .endOfInput => "unexpected end of file"
  | .endInsideCombo bracket _ => s!"unexpected end of input inside `{bracket.opener}`"
  | .closerWithoutOpener bracket => s!"`{bracket.closer}` without a matching opener"
  | .closerOfOtherKind opener closer _ =>
    s!"`{closer.closer}` closes a combo opened with `{opener.opener}`"
  | .secondForm => "unexpected input after the first complete form"
  | .bracketsTooDeep limit => s!"brackets nest deeper than {limit} levels"
  | .expressionTooDeep limit => s!"expression nests deeper than {limit} levels"
  | .emptyForm => "empty form `()` has no meaning"
  | .headNotAtom =>
    "a form must start with an operator name; applying an expression is not supported"
  | .unknownHead name => s!"unsupported form `{name}`"
  | .arity head expected found =>
    s!"`{head}` expects {expected} operand(s) but received {found}"
  | .arityAtLeast head least found =>
    s!"`{head}` expects at least {least} operand(s) but received {found}"
  | .unpairedMapLiteral found =>
    s!"mapping literal needs alternating keys and values, found {found} forms"
  | .parametersNotAList =>
    "lambda parameters must be a parenthesized list of `(type name)` pairs"
  | .notAParameter form => s!"expected a `(type name)` parameter, found `{form.display}`"
  | .parameterNameNotAtom => "parameter name must be an atom"
  | .duplicateParameter name => s!"duplicate parameter `{name}`"
  | .notATypeName form => s!"expected a type name, found `{form.display}`"
  | .integerOutOfRange text ty => s!"integer literal `{text}` is out of range for `{ty.render}`"
  | .invalidLiteral text ty => s!"invalid `{ty.render}` literal `{text}`"
  | .unknownType name => s!"unknown type `{name}`"
  | .undefinedVariable name => s!"undefined variable `{name}`"
  | .noConstructor ty args => s!"`{ty.render}` has no constructor taking ({Ty.renderAll args})"
  | .noIndexer ty args => s!"no indexer on `{ty.render}` accepts ({Ty.renderAll args})"
  | .emptyCollection => "cannot infer an element type for an empty literal"
  | .noCommonBase types => s!"no common base type for ({Ty.renderAll types})"
  | .conditionNotBool ty => s!"condition must be `bool`, found `{ty.render}`"
  | .branchesDiffer yes no =>
    s!"conditional branches have different types `{yes.render}` and `{no.render}`"
  | .unaryUndefined symbol ty => s!"operator `{symbol}` is not defined for `{ty.render}`"
  | .binaryUndefined symbol left right =>
    s!"operator `{symbol}` is not defined for `{left.render}` and `{right.render}`"
  | .asValueType ty => s!"`as` requires a reference type, found `{ty.render}`"
  | .castRejected source target => s!"cannot cast `{source.render}` to `{target.render}`"
  | .divisionByZero => "division by zero"
  | .overflow => "arithmetic overflow"
  | .listIndex index size => s!"index {index} is out of range for a list of {size} elements"
  | .stringIndex index text => s!"index {index} is out of range for string `{text}`"
  | .keyMissing key => s!"key `{key}` is not present in the map"
  | .keyRepeated key => s!"an entry with key `{key}` already exists"
  | .conditionValue actual => s!"condition evaluated to `{actual}`"
  | .operatorInapplicable symbol operands =>
    let types := ", ".intercalate operands
    s!"operator `{symbol}` cannot be applied to ({types})"
  | .indexerInapplicable target => s!"indexer does not apply to a `{target}` value"
  | .castFailed actual target => s!"cannot cast a `{actual.render}` value to `{target.render}`"
  | .conversionFailed value target => s!"cannot convert `{value}` to `{target.render}`"
  | .nullTarget => "indexer target is null"
  | .nullToValueType target => s!"cannot convert null to `{target.render}`"
  | .valueless name => s!"`{name}` has no value in this context"
  | .host message => message
  | .argumentCount expected found =>
    s!"lambda expects {expected} argument(s) but received {found}"
  | .argumentType name expected actual =>
    s!"parameter `{name}` expects `{expected.render}` but received `{actual}`"
  | .resultIncompatible ty expected =>
    s!"expression of type `{ty.render}` is not compatible with `{expected.render}`"
  | .resultUnobtainable ty requested =>
    s!"expression of type `{ty.render}` cannot produce a `{requested}`"
  | .resultOfOtherType actual requested =>
    s!"produced a `{actual}` value where `{requested}` was requested"
  | .globalOfOtherType name ty value =>
    s!"global `{name}` has type `{ty.render}`, cannot assign a `{value.render}` value"

/-- The notes of a cause: where the input ended, or where the combo was opened. -/
def notes : Fault → List String
  | .unterminatedString inputEnd => [s!"input ended at {inputEnd.render}"]
  | .endInsideCombo _ opened | .closerOfOtherKind _ _ opened =>
    [s!"combo opened at {opened.render}"]
  | _ => []

def report (fault : Fault) : Diagnostic :=
  ⟨fault.code, fault.message, none, fault.notes⟩

def reportAt (fault : Fault) (loc : Location) : Diagnostic :=
  ⟨fault.code, fault.message, some loc, fault.notes⟩

end Fault

end ExprLang
