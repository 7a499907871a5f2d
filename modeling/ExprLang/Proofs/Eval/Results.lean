import ExprLang.Eval.Evaluate

/-!
# Where results come from

An expression is evaluated by way of its operands. Operators and conversions make data or answer one
of their operands, and lookups answer what a collection or a frame holds. So what holds of all data
and of the operands holds of the result.
-/

namespace ExprLang

/-- The expressions that are evaluated for the value of an expression, in the same frame. -/
def Expr.operands : Expr → List Expr
  | .constant .. | .variable .. | .lambda .. | .typeOf .. | .defaultOf .. => []
  | .unary _ _ operand | .typeIs _ _ operand | .typeAs _ _ operand | .convert _ _ operand =>
    [operand]
  | .binary _ _ left right => [left, right]
  | .conditional _ condition yes no => [condition, yes, no]
  | .construct _ _ args => args
  | .index _ _ target args => target :: args
  | .list _ _ items => items
  | .map _ _ _ entries => entries.map (·.1) ++ entries.map (·.2)

variable {holds : Value → Prop} {value left right : Value}

theorem Value.holds_of_map_datum {outcome : Except Fault Datum}
    (data : ∀ leaf, holds (.datum leaf)) (made : outcome.map .datum = .ok value) : holds value := by
  cases outcome with
  | error fault => cases made
  | ok leaf =>
    cases made
    exact data leaf

theorem UnaryOp.holds_of_apply {op : UnaryOp} {operand : Value} (data : ∀ leaf, holds (.datum leaf))
    (made : op.apply operand = .ok value) : holds value := by
  unfold apply at made
  split at made
  · split at made
    · exact Value.holds_of_map_datum data made
    · cases made
  · cases made

theorem BinaryOp.holds_of_apply {op : BinaryOp} (data : ∀ leaf, holds (.datum leaf))
    (leftHolds : holds left) (rightHolds : holds right) (made : op.apply left right = .ok value) :
    holds value := by
  unfold apply at made
  split at made
  · cases made
    exact data _
  · cases made
    exact data _
  · cases made
    split
    · exact rightHolds
    · exact leftHolds
  · split at made
    · split at made
      · exact Value.holds_of_map_datum data made
      · cases made
    · cases made

theorem Setting.holds_of_convert {setting : Setting} {source target : Ty}
    (data : ∀ leaf, holds (.datum leaf)) (operand : holds left)
    (made : setting.convert left source target = .ok value) : holds value := by
  unfold convert at made
  split at made
  · split at made
    · cases made
    · cases made
      exact data _
  · split at made
    · unfold Convert.numericValue at made
      split at made
      · exact Value.holds_of_map_datum data made
      · cases made
    · split at made
      · cases made
        exact operand
      · cases made

theorem Value.holds_of_findEntry? {key : Value} {entries : List (Value × Value)}
    (held : ∀ entry ∈ entries, holds entry.2) (found : findEntry? key entries = some value) :
    holds value := by
  unfold findEntry? at found
  obtain ⟨entry, hit, rfl⟩ := Option.map_eq_some_iff.mp found
  exact held entry (List.mem_of_find?_eq_some hit)

theorem Frame.mem_slots_of_lookup {V : Type} {frame : Frame V} {binding : Nat} {value : V}
    (found : frame.lookup binding = some value) : (binding, value) ∈ frame.slots := by
  obtain ⟨before, behind, split, -⟩ := List.lookup_eq_some_iff.mp found
  rw [split]
  simp

end ExprLang
