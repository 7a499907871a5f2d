import ExprLang.Proofs.Eval.WellTyped

/-!
# Operators on well-typed operands

The typing rules of the operators and their evaluation agree: on operands of types for which a rule
gives a result type, an operator gives a value of that type or fails in one of few ways. An operator
divides by zero only if it divides, it overflows only on decimals, and it is inapplicable in the one
case that the rules leave open, the sum of strings of which one is null
(`BinaryOp.outcome_of_suits`).
-/

namespace ExprLang

namespace Ty

theorem isInteger_iff {ty : Ty} : ty.isInteger = true ↔ ∃ kind, ty = .integer kind := by
  unfold isInteger
  split
  next kind => simp
  next other =>
    simp only [Bool.false_eq_true, false_iff, not_exists]
    exact other

/-- The arithmetic types one by one. -/
theorem arithmetic_cases {ty : Ty} (arithmetic : ty.isArithmetic = true) :
    (∃ kind, ty = .integer kind) ∨ ty = .float ∨ ty = .double ∨ ty = .decimal := by
  unfold isArithmetic at arithmetic
  split at arithmetic <;> simp_all

theorem isValueType_of_isInteger {ty : Ty} (integer : ty.isInteger = true) :
    ty.isValueType = true := by
  obtain ⟨kind, rfl⟩ := isInteger_iff.mp integer
  rfl

theorem isValueType_of_isArithmetic {ty : Ty} (arithmetic : ty.isArithmetic = true) :
    ty.isValueType = true := by
  rcases arithmetic_cases arithmetic with ⟨kind, rfl⟩ | rfl | rfl | rfl <;> rfl

end Ty

namespace Datum

/-! ## Data by type -/

variable {datum : Datum}

theorem eq_bool (shown : datum.ty? = some .bool) : ∃ b, datum = .bool b := by
  cases datum <;> cases shown
  exact ⟨_, rfl⟩

theorem eq_integer {kind : IntKind} (shown : datum.ty? = some (.integer kind)) :
    ∃ word, datum = .integer kind word := by
  cases datum <;> cases shown
  exact ⟨_, rfl⟩

theorem eq_float (shown : datum.ty? = some .float) : ∃ x, datum = .float x := by
  cases datum <;> cases shown
  exact ⟨_, rfl⟩

theorem eq_double (shown : datum.ty? = some .double) : ∃ x, datum = .double x := by
  cases datum <;> cases shown
  exact ⟨_, rfl⟩

theorem eq_decimal (shown : datum.ty? = some .decimal) : ∃ d, datum = .decimal d := by
  cases datum <;> cases shown
  exact ⟨_, rfl⟩

end Datum

/-- An outcome is a datum of a type or an allowed fault. -/
def Yields (ty : Ty) (allowed : Fault → Prop) : Except Fault Datum → Prop
  | .ok datum => datum.ty? = some ty
  | .error fault => allowed fault

namespace UnaryOp

variable {op : UnaryOp} {datum : Datum} {ty result : Ty}

/-- A step up or down keeps the type and overflows only on decimals. -/
theorem step_yields {up : Bool} (arithmetic : ty.isArithmetic = true)
    (shown : datum.ty? = some ty) :
    ∃ outcome, step up datum = some outcome ∧
      Yields ty (fun fault => fault = .overflow ∧ ty = .decimal) outcome := by
  rcases Ty.arithmetic_cases arithmetic with ⟨kind, rfl⟩ | rfl | rfl | rfl
  · obtain ⟨word, rfl⟩ := Datum.eq_integer shown
    exact ⟨_, rfl, rfl⟩
  · obtain ⟨x, rfl⟩ := Datum.eq_float shown
    exact ⟨_, rfl, rfl⟩
  · obtain ⟨x, rfl⟩ := Datum.eq_double shown
    exact ⟨_, rfl, rfl⟩
  · obtain ⟨d, rfl⟩ := Datum.eq_decimal shown
    refine ⟨_, rfl, ?_⟩
    split
    · rfl
    · exact ⟨rfl, rfl⟩

/-- The operand types for which a unary operator has a rule. The result is of the same type. -/
theorem unaryTy?_cases (rule : Typing.unaryTy? op ty = some result) :
    result = ty ∧ ((op = .not ∧ ty = .bool) ∨
      ((op = .not ∨ op = .complement) ∧ ty.isInteger = true) ∨
      ((op = .increment ∨ op = .decrement) ∧ ty.isArithmetic = true)) := by
  cases op with
  | not =>
    simp only [Typing.unaryTy?, Bool.or_eq_true, beq_iff_eq, Option.ite_none_right_eq_some,
      Option.some.injEq] at rule
    obtain ⟨bool | integer, rfl⟩ := rule
    · exact ⟨rfl, .inl ⟨rfl, bool⟩⟩
    · exact ⟨rfl, .inr (.inl ⟨.inl rfl, integer⟩)⟩
  | complement =>
    simp only [Typing.unaryTy?, Option.ite_none_right_eq_some, Option.some.injEq] at rule
    exact ⟨rule.2.symm, .inr (.inl ⟨.inr rfl, rule.1⟩)⟩
  | increment =>
    simp only [Typing.unaryTy?, Option.ite_none_right_eq_some, Option.some.injEq] at rule
    exact ⟨rule.2.symm, .inr (.inr ⟨.inl rfl, rule.1⟩)⟩
  | decrement =>
    simp only [Typing.unaryTy?, Option.ite_none_right_eq_some, Option.some.injEq] at rule
    exact ⟨rule.2.symm, .inr (.inr ⟨.inr rfl, rule.1⟩)⟩

theorem applyDatum_yields (rule : Typing.unaryTy? op ty = some result)
    (shown : datum.ty? = some ty) :
    ∃ outcome, op.applyDatum datum = some outcome ∧
      Yields result (fun fault => fault = .overflow ∧ ty = .decimal) outcome := by
  obtain ⟨rfl, ⟨rfl, rfl⟩ | ⟨op, integer⟩ | ⟨op, arithmetic⟩⟩ := unaryTy?_cases rule
  · obtain ⟨b, rfl⟩ := Datum.eq_bool shown
    exact ⟨_, rfl, rfl⟩
  · obtain ⟨kind, rfl⟩ := Ty.isInteger_iff.mp integer
    obtain ⟨word, rfl⟩ := Datum.eq_integer shown
    rcases op with rfl | rfl <;> exact ⟨_, rfl, rfl⟩
  · rcases op with rfl | rfl <;> exact step_yields arithmetic shown

/-- The operands of unary operators are of value types. -/
theorem isValueType_of_unaryTy? (rule : Typing.unaryTy? op ty = some result) :
    ty.isValueType = true := by
  obtain ⟨-, ⟨-, rfl⟩ | ⟨-, integer⟩ | ⟨-, arithmetic⟩⟩ := unaryTy?_cases rule
  · rfl
  · exact Ty.isValueType_of_isInteger integer
  · exact Ty.isValueType_of_isArithmetic arithmetic

variable {registry : Registry} {value : Value}

/-- A unary operator on an operand of a type with a rule gives a value of the type that the rule
says, or a decimal overflows. -/
theorem apply_suits (hostBased : registry.HostBased) (operand : value.Suits registry ty)
    (rule : Typing.unaryTy? op ty = some result) :
    (∃ datum, op.apply value = .ok (.datum datum) ∧ datum.ty? = some result) ∨
      (op.apply value = .error .overflow ∧ ty = .decimal) := by
  obtain ⟨datum, rfl, shown⟩ := operand.exists_datum hostBased (isValueType_of_unaryTy? rule)
  obtain ⟨outcome, applied, yields⟩ := applyDatum_yields rule shown
  simp only [apply, applied]
  cases outcome with
  | ok made => exact .inl ⟨made, rfl, yields⟩
  | error fault =>
    obtain ⟨rfl, decimal⟩ := yields
    exact .inr ⟨rfl, decimal⟩

end UnaryOp

namespace BinaryOp

variable {op : BinaryOp} {left right : Datum} {ty : Ty}

/-! ## Families of binary operators on data -/

theorem comparison_yields {allowed : Fault → Prop} (arithmetic : ty.isArithmetic = true)
    (leftShown : left.ty? = some ty) (rightShown : right.ty? = some ty) :
    ∃ outcome, op.comparison left right = some outcome ∧ Yields .bool allowed outcome := by
  rcases Ty.arithmetic_cases arithmetic with ⟨kind, rfl⟩ | rfl | rfl | rfl
  · obtain ⟨a, rfl⟩ := Datum.eq_integer leftShown
    obtain ⟨b, rfl⟩ := Datum.eq_integer rightShown
    simp only [comparison, order?, ↓reduceDIte, Option.map_some, Option.some.injEq, exists_eq_left']
    rfl
  · obtain ⟨a, rfl⟩ := Datum.eq_float leftShown
    obtain ⟨b, rfl⟩ := Datum.eq_float rightShown
    exact ⟨_, rfl, rfl⟩
  · obtain ⟨a, rfl⟩ := Datum.eq_double leftShown
    obtain ⟨b, rfl⟩ := Datum.eq_double rightShown
    exact ⟨_, rfl, rfl⟩
  · obtain ⟨a, rfl⟩ := Datum.eq_decimal leftShown
    obtain ⟨b, rfl⟩ := Datum.eq_decimal rightShown
    exact ⟨_, rfl, rfl⟩

theorem shift_yields {allowed : Fault → Prop} (integer : ty.isInteger = true)
    (leftShown : left.ty? = some ty) (rightShown : right.ty? = some .int) :
    ∃ outcome, op.shift left right = some outcome ∧ Yields ty allowed outcome := by
  obtain ⟨kind, rfl⟩ := Ty.isInteger_iff.mp integer
  obtain ⟨word, rfl⟩ := Datum.eq_integer leftShown
  obtain ⟨count, rfl⟩ := Datum.eq_integer rightShown
  exact ⟨_, rfl, rfl⟩

theorem bitwise_bool_yields {allowed : Fault → Prop} (leftShown : left.ty? = some .bool)
    (rightShown : right.ty? = some .bool) :
    ∃ outcome, op.bitwise left right = some outcome ∧ Yields .bool allowed outcome := by
  obtain ⟨a, rfl⟩ := Datum.eq_bool leftShown
  obtain ⟨b, rfl⟩ := Datum.eq_bool rightShown
  exact ⟨_, rfl, rfl⟩

theorem bitwise_integer_yields {allowed : Fault → Prop} (eager : op ≠ .andAlso ∧ op ≠ .orElse)
    (integer : ty.isInteger = true) (leftShown : left.ty? = some ty)
    (rightShown : right.ty? = some ty) :
    ∃ outcome, op.bitwise left right = some outcome ∧ Yields ty allowed outcome := by
  obtain ⟨kind, rfl⟩ := Ty.isInteger_iff.mp integer
  obtain ⟨a, rfl⟩ := Datum.eq_integer leftShown
  obtain ⟨b, rfl⟩ := Datum.eq_integer rightShown
  simp only [bitwise, beq_iff_eq, Bool.or_eq_true, eager.1, eager.2, or_self, ↓reduceIte,
    ↓reduceDIte, Option.some.injEq, exists_eq_left']
  rfl

/-- The faults of arithmetic: division by zero where the operator divides, overflow of decimals. -/
def ArithmeticFault (op : BinaryOp) (ty : Ty) (fault : Fault) : Prop :=
  (fault = .divisionByZero ∧ op.divides = true) ∨ (fault = .overflow ∧ ty = .decimal)

theorem arithmetic_yields (arithmetic : ty.isArithmetic = true) (leftShown : left.ty? = some ty)
    (rightShown : right.ty? = some ty) :
    ∃ outcome, op.arithmetic left right = some outcome ∧
      Yields ty (op.ArithmeticFault ty) outcome := by
  rcases Ty.arithmetic_cases arithmetic with ⟨kind, rfl⟩ | rfl | rfl | rfl
  · obtain ⟨a, rfl⟩ := Datum.eq_integer leftShown
    obtain ⟨b, rfl⟩ := Datum.eq_integer rightShown
    simp only [BinaryOp.arithmetic, ↓reduceDIte, Option.some.injEq, exists_eq_left']
    unfold wordArithmetic
    split
    next zero =>
      simp only [Bool.and_eq_true] at zero
      exact .inl ⟨rfl, zero.1⟩
    · rfl
  · obtain ⟨a, rfl⟩ := Datum.eq_float leftShown
    obtain ⟨b, rfl⟩ := Datum.eq_float rightShown
    exact ⟨_, rfl, rfl⟩
  · obtain ⟨a, rfl⟩ := Datum.eq_double leftShown
    obtain ⟨b, rfl⟩ := Datum.eq_double rightShown
    exact ⟨_, rfl, rfl⟩
  · obtain ⟨a, rfl⟩ := Datum.eq_decimal leftShown
    obtain ⟨b, rfl⟩ := Datum.eq_decimal rightShown
    refine ⟨_, rfl, ?_⟩
    unfold decimalArithmetic
    split
    next zero =>
      simp only [Bool.and_eq_true] at zero
      exact .inl ⟨rfl, zero.1⟩
    · dsimp only
      split
      · rfl
      · exact .inr ⟨rfl, rfl⟩

/-! ## Binary operators on values -/

/-- The rules of the binary operators by what the operators do with values. -/
inductive Rule (registry : Registry) : BinaryOp → Ty → Ty → Ty → Prop where
  | equality {op : BinaryOp} {left right : Ty} (equality : op = .equal ∨ op = .notEqual) :
    Rule registry op left right .bool
  | coalesce {left right ty : Ty} (leftBelow : registry.isAssignable left ty = true)
    (rightBelow : registry.isAssignable right ty = true) : Rule registry .coalesce left right ty
  | comparison {op : BinaryOp} {ty : Ty} (family : op.applyData = op.comparison)
    (arithmetic : ty.isArithmetic = true) : Rule registry op ty ty .bool
  | shift {op : BinaryOp} {ty : Ty} (family : op.applyData = op.shift)
    (integer : ty.isInteger = true) : Rule registry op ty .int ty
  | logical {op : BinaryOp} (family : op.applyData = op.bitwise) :
    Rule registry op .bool .bool .bool
  | bitwise {op : BinaryOp} {ty : Ty} (family : op.applyData = op.bitwise)
    (eager : op ≠ .andAlso ∧ op ≠ .orElse) (integer : ty.isInteger = true) :
    Rule registry op ty ty ty
  | arithmetic {op : BinaryOp} {ty : Ty} (family : op.applyData = op.arithmetic)
    (arithmetic : ty.isArithmetic = true) : Rule registry op ty ty ty
  | concatenation : Rule registry .add .string .string .string

variable {registry : Registry} {leftTy rightTy result : Ty}

/-- The type of a null coalescing lies above the types of both operands. -/
theorem isAssignable_of_coalesce
    (rule : Typing.binaryTy? registry .coalesce leftTy rightTy = some result) :
    registry.isAssignable leftTy result = true ∧ registry.isAssignable rightTy result = true := by
  simp only [Typing.binaryTy?, Option.ite_none_left_eq_some] at rule
  obtain ⟨-, rule⟩ := rule
  split at rule
  next below =>
    cases rule
    exact ⟨registry.isAssignable_refl leftTy, below⟩
  · split at rule
    next below =>
      cases rule
      exact ⟨below, registry.isAssignable_refl rightTy⟩
    · cases rule

theorem rule_of_binaryTy? (rule : Typing.binaryTy? registry op leftTy rightTy = some result) :
    Rule registry op leftTy rightTy result := by
  cases op with
  | less | lessEqual | greater | greaterEqual =>
    simp only [Typing.binaryTy?, Bool.and_eq_true, beq_iff_eq, Option.ite_none_right_eq_some,
      Option.some.injEq] at rule
    obtain ⟨⟨rfl, arithmetic⟩, rfl⟩ := rule
    exact .comparison rfl arithmetic
  | leftShift | rightShift =>
    simp only [Typing.binaryTy?, Bool.and_eq_true, beq_iff_eq, Option.ite_none_right_eq_some,
      Option.some.injEq] at rule
    obtain ⟨⟨integer, rfl⟩, rfl⟩ := rule
    exact .shift rfl integer
  | coalesce =>
    obtain ⟨leftBelow, rightBelow⟩ := isAssignable_of_coalesce rule
    exact .coalesce leftBelow rightBelow
  | equal | notEqual =>
    simp only [Typing.binaryTy?, Option.ite_none_right_eq_some, Option.some.injEq] at rule
    obtain ⟨-, rfl⟩ := rule
    exact .equality (by simp)
  | and | or | exclusiveOr =>
    simp only [Typing.binaryTy?, Bool.and_eq_true, Bool.or_eq_true, beq_iff_eq,
      Option.ite_none_right_eq_some, Option.some.injEq] at rule
    obtain ⟨⟨rfl, rfl | integer⟩, rfl⟩ := rule
    · exact .logical rfl
    · exact .bitwise rfl (by simp) integer
  | andAlso | orElse =>
    simp only [Typing.binaryTy?, Bool.and_eq_true, beq_iff_eq, Option.ite_none_right_eq_some,
      Option.some.injEq] at rule
    obtain ⟨⟨rfl, rfl⟩, rfl⟩ := rule
    exact .logical rfl
  | add =>
    simp only [Typing.binaryTy?, Bool.and_eq_true, Bool.or_eq_true, beq_iff_eq,
      Option.ite_none_right_eq_some, Option.some.injEq] at rule
    obtain ⟨⟨rfl, arithmetic | rfl⟩, rfl⟩ := rule
    · exact .arithmetic rfl arithmetic
    · exact .concatenation
  | subtract | multiply | divide | modulo =>
    simp only [Typing.binaryTy?, Bool.and_eq_true, beq_iff_eq, Option.ite_none_right_eq_some,
      Option.some.injEq] at rule
    obtain ⟨⟨rfl, arithmetic⟩, rfl⟩ := rule
    exact .arithmetic rfl arithmetic

/-- How an operator can fail on operands that are well typed of two types. -/
inductive Fails (op : BinaryOp) (leftTy rightTy : Ty) (left right : Value) : Fault → Prop where
  | divisionByZero (divides : op.divides = true) :
    Fails op leftTy rightTy left right .divisionByZero
  | overflow (decimal : leftTy = .decimal) : Fails op leftTy rightTy left right .overflow
  | nullString (sum : op = .add) (strings : leftTy = .string ∧ rightTy = .string)
      (null : left = .null ∨ right = .null) :
    Fails op leftTy rightTy left right (op.inapplicable left right)

theorem ArithmeticFault.fails {fault : Fault} {leftValue rightValue : Value}
    (failed : op.ArithmeticFault leftTy fault) :
    op.Fails leftTy rightTy leftValue rightValue fault := by
  rcases failed with ⟨rfl, divides⟩ | ⟨rfl, decimal⟩
  · exact .divisionByZero divides
  · exact .overflow decimal

theorem apply_of_applyData {outcome : Except Fault Datum}
    (applied : op.applyData left right = some outcome) :
    op.apply (.datum left) (.datum right) = outcome.map .datum := by
  cases op with
  | equal | notEqual | coalesce => cases applied
  | _ => simp only [apply, applied]

variable {supplied : Closure Value → Prop} {leftValue rightValue : Value}

/-- What an operator with a rule does with two values: it gives a datum of the result type, null
coalescing gives one of the operands, or the operator fails in one of the ways that the rule leaves. -/
inductive Outcome (registry : Registry) (op : BinaryOp) (leftTy rightTy result : Ty)
    (left right : Value) : Prop where
  | datum {datum : Datum} (done : op.apply left right = .ok (.datum datum))
    (shown : datum.ty? = some result) : Outcome registry op leftTy rightTy result left right
  | operand (done : op.apply left right = .ok (if left.isNull then right else left))
    (leftBelow : registry.isAssignable leftTy result = true)
    (rightBelow : registry.isAssignable rightTy result = true) :
    Outcome registry op leftTy rightTy result left right
  | fails {fault : Fault} (failed : op.apply left right = .error fault)
    (fails : op.Fails leftTy rightTy left right fault) :
    Outcome registry op leftTy rightTy result left right

/-- On operands of value types it is enough to look at the data. -/
theorem outcome_of_yields (hostBased : registry.HostBased)
    (leftSuits : leftValue.Suits registry leftTy)
    (rightSuits : rightValue.Suits registry rightTy) (leftNumber : leftTy.isValueType = true)
    (rightNumber : rightTy.isValueType = true)
    (yields : ∀ left right, left.ty? = some leftTy → right.ty? = some rightTy →
      ∃ outcome, op.applyData left right = some outcome ∧
        Yields result (op.ArithmeticFault leftTy) outcome) :
    op.Outcome registry leftTy rightTy result leftValue rightValue := by
  obtain ⟨left, rfl, leftShown⟩ := leftSuits.exists_datum hostBased leftNumber
  obtain ⟨right, rfl, rightShown⟩ := rightSuits.exists_datum hostBased rightNumber
  obtain ⟨outcome, applied, yields⟩ := yields left right leftShown rightShown
  have done := apply_of_applyData applied
  cases outcome with
  | ok made => exact .datum done yields
  | error fault => exact .fails done yields.fails

/-- The sum of two strings, of which each may be null. -/
theorem outcome_concatenation (hostBased : registry.HostBased)
    (leftSuits : leftValue.Suits registry .string) (rightSuits : rightValue.Suits registry .string) :
    add.Outcome registry .string .string .string leftValue rightValue := by
  rcases leftSuits.null_or_string hostBased with rfl | ⟨a, rfl⟩
  · refine .fails ?_ (.nullString rfl ⟨rfl, rfl⟩ (.inl rfl))
    rcases rightSuits.null_or_string hostBased with rfl | ⟨b, rfl⟩ <;> rfl
  · rcases rightSuits.null_or_string hostBased with rfl | ⟨b, rfl⟩
    · exact .fails rfl (.nullString rfl ⟨rfl, rfl⟩ (.inr rfl))
    · exact .datum rfl rfl

/-- A binary operator on operands of types with a rule does what the rule promises. -/
theorem outcome_of_suits (hostBased : registry.HostBased)
    (leftSuits : leftValue.Suits registry leftTy)
    (rightSuits : rightValue.Suits registry rightTy)
    (rule : Typing.binaryTy? registry op leftTy rightTy = some result) :
    op.Outcome registry leftTy rightTy result leftValue rightValue := by
  cases rule_of_binaryTy? rule with
  | equality equality => rcases equality with rfl | rfl <;> exact .datum rfl rfl
  | coalesce leftBelow rightBelow => exact .operand rfl leftBelow rightBelow
  | comparison family arithmetic =>
    have number := Ty.isValueType_of_isArithmetic arithmetic
    refine outcome_of_yields hostBased leftSuits rightSuits number number fun _ _ left right => ?_
    rw [family]
    exact comparison_yields arithmetic left right
  | shift family integer =>
    have number := Ty.isValueType_of_isInteger integer
    refine outcome_of_yields hostBased leftSuits rightSuits number rfl fun _ _ left right => ?_
    rw [family]
    exact shift_yields integer left right
  | logical family =>
    refine outcome_of_yields hostBased leftSuits rightSuits rfl rfl fun _ _ left right => ?_
    rw [family]
    exact bitwise_bool_yields left right
  | bitwise family eager integer =>
    have number := Ty.isValueType_of_isInteger integer
    refine outcome_of_yields hostBased leftSuits rightSuits number number fun _ _ left right => ?_
    rw [family]
    exact bitwise_integer_yields eager integer left right
  | arithmetic family arithmetic =>
    have number := Ty.isValueType_of_isArithmetic arithmetic
    refine outcome_of_yields hostBased leftSuits rightSuits number number fun _ _ left right => ?_
    rw [family]
    exact arithmetic_yields arithmetic left right
  | concatenation => exact outcome_concatenation hostBased leftSuits rightSuits

/-- What an operator does with two values, as its rule promises it: a value of the result type, or
one of the failures that the rule leaves. -/
def Keeps (registry : Registry) (supplied : Closure Value → Prop) (op : BinaryOp)
    (leftTy rightTy result : Ty) (left right : Value) : Prop :=
  (∃ value, op.apply left right = .ok value ∧ WellTyped registry supplied value result) ∨
    ∃ fault, op.apply left right = .error fault ∧ op.Fails leftTy rightTy left right fault

/-- A binary operator on well-typed operands gives a value of the type that its rule says, or fails
in one of few ways. -/
theorem apply_wellTyped (hostBased : registry.HostBased)
    (leftTyped : WellTyped registry supplied leftValue leftTy)
    (rightTyped : WellTyped registry supplied rightValue rightTy)
    (rule : Typing.binaryTy? registry op leftTy rightTy = some result) :
    op.Keeps registry supplied leftTy rightTy result leftValue rightValue := by
  cases outcome_of_suits hostBased leftTyped.suits rightTyped.suits rule with
  | datum done shown => exact .inl ⟨_, done, .datum shown (registry.isAssignable_refl result)⟩
  | operand done leftBelow rightBelow =>
    refine .inl ⟨_, done, ?_⟩
    split
    · exact rightTyped.weaken hostBased rightBelow
    · exact leftTyped.weaken hostBased leftBelow
  | fails failed fails => exact .inr ⟨_, failed, fails⟩

/-- Where the first operand decides the result, its value is of the result type. -/
theorem wellTyped_of_isDecided (hostBased : registry.HostBased)
    (leftTyped : WellTyped registry supplied leftValue leftTy)
    (rule : Typing.binaryTy? registry op leftTy rightTy = some result)
    (decided : op.isDecided leftValue = true) : WellTyped registry supplied leftValue result := by
  cases op with
  | andAlso | orElse =>
    simp only [Typing.binaryTy?, Bool.and_eq_true, beq_iff_eq, Option.ite_none_right_eq_some,
      Option.some.injEq] at rule
    obtain ⟨⟨rfl, rfl⟩, rfl⟩ := rule
    exact leftTyped
  | coalesce => exact leftTyped.weaken hostBased (isAssignable_of_coalesce rule).1
  | _ => cases decided

end BinaryOp

end ExprLang
