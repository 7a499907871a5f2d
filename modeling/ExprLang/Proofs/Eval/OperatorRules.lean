import ExprLang.Proofs.Eval.Operators

/-!
# Agreement of typing and evaluation of operators

Wherever the typing rules give an operator a result type, the operator gives a value that suits this
type on all operands that suit the types of the rule, except for zero divisors, decimals that overflow
and one hole: a sum of strings of which one is null has the type `string` and no value. The hole is
the only way to the report that an operator is not defined at run time
(`BinaryOp.inapplicable_iff`).
-/

namespace ExprLang

/-- A zero as a divisor, of an integer type or of decimals. -/
inductive Value.IsZeroDivisor : Value → Prop where
  | integer (kind : IntKind) : IsZeroDivisor (.datum (.integer kind 0))
  | decimal {d : Decimal} (zero : d.isZero = true) : IsZeroDivisor (.datum (.decimal d))

namespace BinaryOp

variable {op : BinaryOp} {a b : Datum} {left right : Value}

/-! ## Zero divisors -/

theorem wordArithmetic_error {kind : IntKind} {m n : kind.Word} {fault : Fault}
    (failed : op.wordArithmetic kind m n = .error fault) : op.divides = true ∧ n = 0 := by
  unfold wordArithmetic at failed
  split at failed
  · next zero => simpa using zero
  · cases failed

theorem decimalArithmetic_divisionByZero {m n : Decimal}
    (failed : op.decimalArithmetic m n = .error .divisionByZero) :
    op.divides = true ∧ n.isZero = true := by
  unfold decimalArithmetic at failed
  split at failed
  · next zero => simpa using zero
  · dsimp only at failed
    split at failed <;> cases failed

/-- Arithmetic divides by zero only if it divides and the divisor is zero. -/
theorem arithmetic_divisionByZero (failed : op.arithmetic a b = some (.error .divisionByZero)) :
    op.divides = true ∧ (Value.datum b).IsZeroDivisor := by
  unfold arithmetic at failed
  split at failed
  · next kind m other n =>
    split at failed
    · next same =>
      subst same
      cases outcome : op.wordArithmetic other m n with
      | ok made => simp [outcome, Except.map] at failed
      | error fault =>
        obtain ⟨divides, rfl⟩ := wordArithmetic_error outcome
        exact ⟨divides, .integer other⟩
    · cases failed
  · cases failed
  · cases failed
  · next m n =>
    cases outcome : op.decimalArithmetic m n with
    | ok made => simp [outcome, Except.map] at failed
    | error fault =>
      simp only [outcome, Except.map, Option.some.injEq, Except.error.injEq] at failed
      subst failed
      obtain ⟨divides, zero⟩ := decimalArithmetic_divisionByZero outcome
      exact ⟨divides, .decimal zero⟩
  · split at failed <;> cases failed
  · cases failed

/-- Only arithmetic fails on data that an operator is made for. -/
theorem family_of_error {fault : Fault} (failed : op.applyData a b = some (.error fault)) :
    op.applyData = op.arithmetic := by
  cases op with
  | add | subtract | multiply | divide | modulo => rfl
  | less | lessEqual | greater | greaterEqual =>
    simp only [applyData, comparison, Option.map_eq_some_iff] at failed
    obtain ⟨order, -, made⟩ := failed
    cases made
  | leftShift | rightShift =>
    simp only [applyData, shift] at failed
    split at failed <;> cases failed
  | and | or | exclusiveOr | andAlso | orElse =>
    simp only [applyData, bitwise] at failed
    split at failed
    · cases failed
    · split at failed
      · cases failed
      · split at failed <;> cases failed
    · cases failed
  | equal | notEqual | coalesce => cases failed

/-- An operator fails by itself where it is not made for its operands, and otherwise on data. -/
theorem apply_error {fault : Fault} (failed : op.apply left right = .error fault) :
    fault = op.inapplicable left right ∨
      ∃ a b, left = .datum a ∧ right = .datum b ∧ op.applyData a b = some (.error fault) := by
  unfold apply at failed
  split at failed
  · cases failed
  · cases failed
  · cases failed
  · split at failed
    · next a b =>
      split at failed
      · next outcome applied =>
        cases outcome with
        | ok made => cases failed
        | error other =>
          cases failed
          exact .inr ⟨a, b, rfl, rfl, applied⟩
      · cases failed
        exact .inl rfl
    · cases failed
      exact .inl rfl

/-- An operator divides by zero only if it divides and the divisor is zero. -/
theorem apply_divisionByZero (failed : op.apply left right = .error .divisionByZero) :
    op.divides = true ∧ right.IsZeroDivisor := by
  rcases apply_error failed with inapplicable | ⟨a, b, rfl, rfl, applied⟩
  · cases inapplicable
  · rw [family_of_error applied] at applied
    exact arithmetic_divisionByZero applied

/-! ## Agreement -/

variable {registry : Registry} {leftTy rightTy result : Ty}

/-- What a typing rule of a binary operator promises about two values: a value that suits the result
type, a division by zero, an overflow of decimals, or the hole, a sum of strings with a null. -/
inductive Agrees (registry : Registry) (op : BinaryOp) (leftTy rightTy result : Ty)
    (left right : Value) : Prop where
  | value {made : Value} (done : op.apply left right = .ok made)
    (suits : made.Suits registry result) : Agrees registry op leftTy rightTy result left right
  | divisionByZero (failed : op.apply left right = .error .divisionByZero)
    (divides : op = .divide ∨ op = .modulo) (zero : right.IsZeroDivisor) :
    Agrees registry op leftTy rightTy result left right
  | overflow (failed : op.apply left right = .error .overflow)
    (decimals : leftTy = .decimal ∧ rightTy = .decimal) :
    Agrees registry op leftTy rightTy result left right
  | nullString (failed : op.apply left right = .error (op.inapplicable left right))
    (sum : op = .add) (strings : leftTy = .string ∧ rightTy = .string)
    (null : left = .null ∨ right = .null) : Agrees registry op leftTy rightTy result left right

theorem divides_iff : op.divides = true ↔ op = .divide ∨ op = .modulo := by
  cases op <;> simp [divides]

/-- An operator that overflows has two decimals. -/
theorem decimals_of_overflow (rule : Typing.binaryTy? registry op .decimal rightTy = some result)
    (failed : op.apply left right = .error .overflow) : rightTy = .decimal := by
  cases rule_of_binaryTy? rule with
  | equality equality => rcases equality with rfl | rfl <;> cases failed
  | coalesce => cases failed
  | comparison | bitwise | arithmetic => rfl
  | shift family integer => cases integer

/-- The rules and the evaluation of a binary operator agree on a host-based registry. -/
theorem agrees_of_suits (hostBased : registry.HostBased)
    (rule : Typing.binaryTy? registry op leftTy rightTy = some result)
    (leftSuits : left.Suits registry leftTy) (rightSuits : right.Suits registry rightTy) :
    op.Agrees registry leftTy rightTy result left right := by
  cases outcome_of_suits hostBased leftSuits rightSuits rule with
  | datum done shown => exact .value done (Value.suits_datum shown)
  | operand done leftBelow rightBelow =>
    refine .value done ?_
    split
    · exact rightSuits.weaken hostBased rightBelow
    · exact leftSuits.weaken hostBased leftBelow
  | fails failed fails =>
    cases fails with
    | divisionByZero =>
      obtain ⟨divides, zero⟩ := apply_divisionByZero failed
      exact .divisionByZero failed (divides_iff.mp divides) zero
    | overflow decimal =>
      subst decimal
      exact .overflow failed ⟨rfl, decimals_of_overflow rule failed⟩
    | nullString sum strings null => exact .nullString failed sum strings null

/-- There is no sum with a null. -/
theorem apply_add_null (null : left = .null ∨ right = .null) :
    add.apply left right = .error (add.inapplicable left right) := by
  rcases null with rfl | rfl
  · cases right with
    | datum b => cases b <;> rfl
    | list | map | function | object => rfl
  · cases left with
    | datum a => cases a <;> rfl
    | list | map | function | object => rfl

/-- An operator with a rule is not defined at run time exactly for a sum of strings with a null. -/
theorem inapplicable_iff (hostBased : registry.HostBased)
    (rule : Typing.binaryTy? registry op leftTy rightTy = some result)
    (leftSuits : left.Suits registry leftTy) (rightSuits : right.Suits registry rightTy) :
    (∃ fault, op.apply left right = .error fault ∧ fault.code = .operatorNotDefined) ↔
      op = .add ∧ leftTy = .string ∧ (left = .null ∨ right = .null) := by
  constructor
  · rintro ⟨fault, failed, code⟩
    cases agrees_of_suits hostBased rule leftSuits rightSuits with
    | value done => cases done.symm.trans failed
    | divisionByZero other =>
      cases other.symm.trans failed
      cases code
    | overflow other =>
      cases other.symm.trans failed
      cases code
    | nullString _ sum strings null => exact ⟨sum, strings.1, null⟩
  · rintro ⟨rfl, rfl, null⟩
    exact ⟨_, apply_add_null null, rfl⟩

end BinaryOp

/-- **The tables of operators agree but for one hole.** On a host-based registry every operator that a
typing rule gives a result type gives a value that suits it, on all operands that suit the types of
the rule, or it divides by a zero, or decimals overflow. The hole is a sum of two strings of which one
is null: it alone is reported as an operator that is not defined. -/
theorem operator_tables_agree {registry : Registry} (hostBased : registry.HostBased) :
    (∀ {op : UnaryOp} {ty result : Ty} {value : Value},
      Typing.unaryTy? op ty = some result → value.Suits registry ty →
      (∃ made, op.apply value = .ok made ∧ made.Suits registry result) ∨
        op.apply value = .error .overflow ∧ ty = .decimal) ∧
    ∀ {op : BinaryOp} {leftTy rightTy result : Ty} {left right : Value},
      Typing.binaryTy? registry op leftTy rightTy = some result →
      left.Suits registry leftTy → right.Suits registry rightTy →
      op.Agrees registry leftTy rightTy result left right ∧
        ((∃ fault, op.apply left right = .error fault ∧ fault.code = .operatorNotDefined) ↔
          op = .add ∧ leftTy = .string ∧ (left = .null ∨ right = .null)) := by
  constructor
  · intro op ty result value rule suits
    rcases op.apply_suits hostBased suits rule with ⟨datum, done, shown⟩ | failed
    · exact .inl ⟨_, done, Value.suits_datum shown⟩
    · exact .inr failed
  · intro op leftTy rightTy result left right rule leftSuits rightSuits
    exact ⟨BinaryOp.agrees_of_suits hostBased rule leftSuits rightSuits,
      BinaryOp.inapplicable_iff hostBased rule leftSuits rightSuits⟩

/-- Without host types `7 / 2` agrees with its rule. -/
theorem operator_tables_agree_quotient :
    BinaryOp.divide.Agrees {} .int .int .int (.datum (.int 7)) (.datum (.int 2)) := by
  have hostBased : Registry.HostBased {} :=
    Registry.hostBased_of_declared fun _ _ _ declared => by cases declared
  exact ((operator_tables_agree hostBased).2 rfl (Value.suits_datum rfl) (Value.suits_datum rfl)).1

/-- The sum `(+ (as string null) "a")` compiles with the type `string`, and its operands give values
that suit `string`. It is reported at run time as an operator that is not defined. -/
theorem sum_with_null_string :
    let loc : Location := ⟨"sum", 1, 1⟩
    let null : Form := .combo .paren [.atom "as" loc, .atom "string" loc, .atom "null" loc] loc
    let sum : Form := .combo .paren [.atom "+" loc, null, .atom "\"a\"" loc] loc
    ∃ left right ty, Elaborator.elaborate {} {} sum 1 = .ok (.binary ⟨ty, loc⟩ .add left right, 1) ∧
      ty = .string ∧ Typing.binaryTy? {} .add left.ty right.ty = some .string ∧
      (Setting.mk {} ⟨[]⟩).evaluate (.empty 0) left 1 = .ok (.null, 1) ∧
      Value.null.Suits {} left.ty ∧
      (Setting.mk {} ⟨[]⟩).evaluate (.empty 0) right 1 = .ok (.string "a", 1) ∧
      (Value.string "a").Suits {} right.ty ∧
      ∃ report, (Setting.mk {} ⟨[]⟩).evaluate (.empty 0) (.binary ⟨ty, loc⟩ .add left right) 1 =
          .error report ∧ report.code = .operatorNotDefined :=
  ⟨_, _, _, rfl, rfl, rfl, rfl, ⟨rfl, nofun⟩, rfl, Value.suits_datum rfl, _, rfl, rfl⟩

end ExprLang
