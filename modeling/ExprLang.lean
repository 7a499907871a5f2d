import ExprLang.Text.Blank
import ExprLang.Main
import ExprLang.Host.Recipe
import ExprLang.Proofs.TypeSoundness
import ExprLang.Proofs.Phases
import ExprLang.Proofs.Form.RoundTrip
import ExprLang.Proofs.Elaboration.Height
import ExprLang.Proofs.Elaboration.Limits
import ExprLang.Proofs.Engine.Globals
import ExprLang.Proofs.Lexical.Scoping
import ExprLang.Proofs.Form.Strictness
import ExprLang.Proofs.Engine.Places
import ExprLang.Proofs.Likeness.History
import ExprLang.Proofs.Elaboration.Failure
import ExprLang.Proofs.Elaboration.Literals
import ExprLang.Proofs.Form.Incremental
import ExprLang.Proofs.Form.Seams
import ExprLang.Proofs.Engine.Files
import ExprLang.Proofs.Elaboration.Occurrences
import ExprLang.Proofs.Scope.Nest
import ExprLang.Proofs.Registry.Acyclic
import ExprLang.Proofs.Registry.Endless
import ExprLang.Proofs.Binary.Widening
import ExprLang.Proofs.Eval.Upcasts
import ExprLang.Proofs.Value.Equality
import ExprLang.Proofs.Value.Hashing
import ExprLang.Proofs.Engine.Keys
import ExprLang.Proofs.Engine.Lookups
import ExprLang.Proofs.Eval.Arithmetic
import ExprLang.Proofs.Eval.Conversions
import ExprLang.Proofs.Eval.OperatorRules
import ExprLang.Proofs.Literal.Grammar
import ExprLang.Proofs.Literal.Numerals
import ExprLang.Proofs.Extract.Lossless
import ExprLang.Proofs.Eval.Connectives
import ExprLang.Proofs.Elaboration.Depths
import ExprLang.Proofs.Elaboration.Chains
import ExprLang.Proofs.Engine.Chains
import ExprLang.Proofs.Eval.Entries
import ExprLang.Proofs.Engine.Collections
import ExprLang.Proofs.Eval.TypeTests
import ExprLang.Proofs.Form.Positions
import ExprLang.Proofs.Form.Progress
import ExprLang.Proofs.Elaboration.Aliases
import ExprLang.Proofs.Engine.Aliases
import ExprLang.Proofs.Engine.Calls
