import ExprLang.Proofs.Eval.Upcasts

/-!
# Type tests, conversions to null and casts

The forms `is`, `as` and `cast` look at the type that a value shows when it is looked at, and at the
chain of bases of that type. What the three say about one value under one type is tied together in
`Elaborator.type_tests_agree`: a cast of a value that is no conversion of a number gives the value
back exactly where the test holds or null may stand, and the elaborator rejects a cast only where no
value under the static type of the operand would pass the test.
-/

namespace ExprLang

variable {registry : Registry} {value : Value} {source target : Ty}

/-! ## Values of a type -/

/-- A value is not null, and its own type is of another type: it is that type or has it on its chain
of bases, or the other type is `object`. -/
def Value.InstanceOf (registry : Registry) (value : Value) (target : Ty) : Prop :=
  ∃ actual, value.ty? = some actual ∧ (target = .object ∨ registry.Chain actual target)

/-- Neither of two types is assignable to the other, and they are not both numeric. -/
structure Ty.Unrelated (registry : Registry) (source target : Ty) : Prop where
  notUp : registry.isAssignable source target = false
  notDown : registry.isAssignable target source = false
  notNumeric : (source.isConvertibleNumeric && target.isConvertibleNumeric) = false

theorem Value.InstanceOf.ne_null (instanceOf : value.InstanceOf registry target) :
    value ≠ .null := by
  rintro rfl
  obtain ⟨actual, shown, -⟩ := instanceOf
  cases shown

/-- The test of a value finds out whether it is of a type. -/
theorem Setting.isInstance_iff {setting : Setting} :
    setting.isInstance value target = true ↔ value.InstanceOf setting.registry target := by
  unfold isInstance Value.InstanceOf
  cases shown : value.ty? with
  | none => simp
  | some actual => simp [Registry.isAssignable_iff]

/-- Casts are rejected between types that are unrelated, and between no others. -/
theorem Typing.canConvert_eq_false_iff :
    canConvert registry source target = false ↔ source.Unrelated registry target := by
  unfold canConvert
  rw [Bool.or_eq_false_iff, Bool.or_eq_false_iff, and_assoc]
  exact ⟨fun ⟨up, down, numeric⟩ => ⟨up, down, numeric⟩, fun ⟨up, down, numeric⟩ =>
    ⟨up, down, numeric⟩⟩

/-- No value that can stand under a type is of a type unrelated to it: both types would be above the
type that the value shows, so one of them would be above the other. -/
theorem Ty.Unrelated.not_instanceOf (unrelated : source.Unrelated registry target)
    (conforms : value.Conforms registry source) : ¬ value.InstanceOf registry target := by
  rintro ⟨actual, shown, above⟩
  unfold Value.Conforms at conforms
  rw [shown] at conforms
  have assignable := Registry.isAssignable_iff.mpr above
  rcases Registry.isAssignable_comparable conforms assignable with up | down
  · rw [unrelated.notUp] at up
    cases up
  · rw [unrelated.notDown] at down
    cases down

/-! ## Casts that convert no number -/

/-- What a cast that converts no number does with a value: it gives back what is of the type, and
null where the type admits it, and faults otherwise. -/
theorem Setting.convert_of_not_numeric {setting : Setting}
    (other : (source.isConvertibleNumeric && target.isConvertibleNumeric) = false) :
    setting.convert value source target =
      if setting.isInstance value target then .ok value
      else
        match value.ty? with
        | none => if target.isValueType then .error (.nullToValueType target) else .ok value
        | some actual => .error (.castFailed actual target) := by
  unfold convert isInstance
  cases shown : value.ty? with
  | none =>
    obtain rfl := Value.eq_null_of_ty? shown
    rfl
  | some actual => simp [other]

namespace Setting

variable {setting : Setting} {frame : Frame Value} {expr : Expr} {next later : Nat}

/-- The value of a type test says whether the value of its operand is of the type. -/
theorem evaluate_typeIs (node : Node) (target : Ty)
    (evaluated : setting.evaluate frame expr next = .ok (value, later)) :
    setting.evaluate frame (.typeIs node target expr) next =
      .ok (.bool (setting.isInstance value target), later) := by
  simp only [evaluate]
  exact Run.bind_of_ok evaluated

/-- The value of a conversion to null is that of its operand, if that is of the type. -/
theorem evaluate_typeAs (node : Node) (target : Ty)
    (evaluated : setting.evaluate frame expr next = .ok (value, later)) :
    setting.evaluate frame (.typeAs node target expr) next =
      .ok (if setting.isInstance value target then value else .null, later) := by
  simp only [evaluate]
  exact Run.bind_of_ok evaluated

/-- What a cast that converts no number gives for a value: the value itself, the report that null
cannot stand under a value type, or the report that the value is not of the type. -/
theorem evaluate_cast_iff (loc : Location) (target : Ty)
    (evaluated : setting.evaluate frame expr next = .ok (value, later))
    (other : (expr.ty.isConvertibleNumeric && target.isConvertibleNumeric) = false) :
    let outcome := setting.evaluate frame (.convert ⟨target, loc⟩ target expr) next
    (outcome = .ok (value, later) ↔
      value.InstanceOf setting.registry target ∨ value = .null ∧ target.isValueType = false) ∧
    (outcome = .error ((Fault.nullToValueType target).reportAt loc) ↔
      value = .null ∧ target.isValueType = true) ∧
    ((∃ actual, value.ty? = some actual ∧
        outcome = .error ((Fault.castFailed actual target).reportAt loc)) ↔
      value ≠ .null ∧ ¬ value.InstanceOf setting.registry target) := by
  intro outcome
  have result : outcome = _ := evaluate_convert ⟨target, loc⟩ target evaluated
  rw [convert_of_not_numeric other] at result
  rw [result, ← isInstance_iff]
  cases holds : setting.isInstance value target with
  | true =>
    have notNull := (isInstance_iff.mp holds).ne_null
    simp [notNull]
  | false =>
    cases shown : value.ty? with
    | none =>
      obtain rfl := Value.eq_null_of_ty? shown
      cases target.isValueType <;> simp [Fault.reportAt, Fault.code]
    | some actual =>
      have notNull : value ≠ .null := by
        rintro rfl
        cases shown
      simp [notNull, Fault.reportAt, Fault.code]

end Setting

/-! ## The three forms -/

/-- The typing rule of a head that takes a type and an operand. -/
def Typing.typeRule? (registry : Registry) (loc : Location) :
    Head → Option (Ty → Expr → Except Diagnostic Expr)
  | .typeIs => some (typeIs loc)
  | .typeAs => some (typeAs loc)
  | .cast => some (convert registry loc)
  | _ => none

def Form.withType (name : String) (headLoc loc : Location) (tyForm form : Form) : Form :=
  .combo .paren [.atom name headLoc, tyForm, form] loc

namespace Elaborator

variable {elaborator : Elaborator} {scope : Scope} {depth supply rest : Nat} {name : String}
  {headLoc loc : Location} {tyForm form : Form} {expr : Expr}

/-- Where a type is named and an operand elaborates, the rule of the head decides alone. -/
theorem elaborateAt_withType {head : Head} {rule : Ty → Expr → Except Diagnostic Expr}
    (found : elaborator.heads.get? name = some head)
    (ruled : Typing.typeRule? elaborator.registry loc head = some rule)
    (named : elaborator.typeName tyForm = .ok target)
    (compiled : elaborator.elaborateAt scope (depth + 1) form supply = .ok (expr, rest)) :
    elaborator.elaborateAt scope depth (.withType name headLoc loc tyForm form) supply =
      (rule target expr).map fun made => (made, rest) := by
  have shallow := Nat.le_of_succ_le (elaborates_of_ok compiled).shallow
  have typed : (liftM (elaborator.typeName tyForm) : Run Ty) supply = .ok (target, supply) :=
    Run.lift_ok.mpr ⟨named, rfl⟩
  have ends : (liftM (rule target expr) : Run Expr) rest =
      (rule target expr).map fun made => (made, rest) := by
    cases rule target expr <;> rfl
  rw [Form.withType, elaborateAt, if_neg (Nat.not_lt.mpr shallow)]
  simp only [found]
  cases head with
  | typeIs | typeAs | cast =>
    cases ruled
    exact (Run.bind_of_ok typed).trans ((Run.bind_of_ok compiled).trans ends)
  | unary | binary | nary | conditional | index | typeOf | defaultOf | construct | lambda =>
    cases ruled

/-- **Type tests, conversions to null and casts agree.** Take a type and an operand that elaborates
where it stands. A test is always accepted, a conversion to null if the type admits null, and a cast
unless the type is unrelated to that of the operand, which is reported. Wherever the operand gives a
value, the test says whether the value is of the type, and the conversion gives the value where the
test holds and null where it does not. A cast that converts no number gives the value itself where
the test holds or the value is null and may be; it reports a null that may not be, and it reports
every other value. Where a cast is rejected, the test holds for no value under the type of the
operand, whatever bases are declared. -/
theorem type_tests_agree (named : elaborator.typeName tyForm = .ok target)
    (compiled : elaborator.elaborateAt scope (depth + 1) form supply = .ok (expr, rest)) :
    (∀ name headLoc loc, elaborator.heads.get? name = some .typeIs →
      elaborator.elaborateAt scope depth (.withType name headLoc loc tyForm form) supply =
        .ok (.typeIs ⟨.bool, loc⟩ target expr, rest)) ∧
    (∀ name headLoc loc, elaborator.heads.get? name = some .typeAs →
      elaborator.elaborateAt scope depth (.withType name headLoc loc tyForm form) supply =
        if target.isValueType then faultAt loc (.asValueType target)
        else .ok (.typeAs ⟨target, loc⟩ target expr, rest)) ∧
    (∀ name headLoc loc, elaborator.heads.get? name = some .cast →
      let outcome :=
        elaborator.elaborateAt scope depth (.withType name headLoc loc tyForm form) supply
      (outcome = .ok (.convert ⟨target, loc⟩ target expr, rest) ↔
        ¬ expr.ty.Unrelated elaborator.registry target) ∧
      (outcome = faultAt loc (.castRejected expr.ty target) ↔
        expr.ty.Unrelated elaborator.registry target)) ∧
    (∀ (host : Host) (frame : Frame Value) (next later : Nat) (value : Value) (loc : Location),
      (Setting.mk elaborator.registry host).evaluate frame expr next = .ok (value, later) →
      let outcome (form : Expr) := (Setting.mk elaborator.registry host).evaluate frame form next
      ∃ holds : Bool, (holds = true ↔ value.InstanceOf elaborator.registry target) ∧
        outcome (.typeIs ⟨.bool, loc⟩ target expr) = .ok (.bool holds, later) ∧
        outcome (.typeAs ⟨target, loc⟩ target expr) =
          .ok (if holds then value else .null, later) ∧
        ((expr.ty.isConvertibleNumeric && target.isConvertibleNumeric) = false →
          (outcome (.convert ⟨target, loc⟩ target expr) = .ok (value, later) ↔
            holds = true ∨ value = .null ∧ target.isValueType = false) ∧
          (outcome (.convert ⟨target, loc⟩ target expr) =
              .error ((Fault.nullToValueType target).reportAt loc) ↔
            value = .null ∧ target.isValueType = true) ∧
          ((∃ actual, value.ty? = some actual ∧ outcome (.convert ⟨target, loc⟩ target expr) =
              .error ((Fault.castFailed actual target).reportAt loc)) ↔
            value ≠ .null ∧ holds = false))) ∧
    ∀ value : Value, expr.ty.Unrelated elaborator.registry target →
      value.Conforms elaborator.registry expr.ty →
      ¬ value.InstanceOf elaborator.registry target := by
  refine ⟨?_, ?_, ?_, ?_, fun value => Ty.Unrelated.not_instanceOf⟩
  · intro name headLoc loc head
    exact elaborateAt_withType head rfl named compiled
  · intro name headLoc loc head
    rw [elaborateAt_withType head rfl named compiled, Typing.typeAs]
    split <;> rfl
  · intro name headLoc loc head
    dsimp only
    rw [elaborateAt_withType head rfl named compiled, Typing.convert,
      ← Typing.canConvert_eq_false_iff]
    cases Typing.canConvert elaborator.registry expr.ty target <;> simp [faultAt, Except.map]
  · intro host frame next later value loc evaluated
    have instances := @Setting.isInstance_iff value target ⟨elaborator.registry, host⟩
    refine ⟨_, instances, Setting.evaluate_typeIs _ target evaluated,
      Setting.evaluate_typeAs _ target evaluated, fun other => ?_⟩
    have cast := Setting.evaluate_cast_iff loc target evaluated other
    rwa [← instances, Bool.not_eq_true] at cast

def newPoint : Form :=
  let loc : Location := ⟨"point", 1, 12⟩
  .combo .paren [.atom "new" loc, .atom "Point" loc, .atom "3" loc] loc

/-- A point under the type `object`, `(cast object (new Point 3))`. -/
def hiddenPoint : Form :=
  let loc : Location := ⟨"point", 1, 9⟩
  .combo .paren [.atom "cast" loc, .atom "object" loc, newPoint] loc

/-- Under the type `object` a point passes the test for points, and a cast gives it back. A point is
never tested to be a number, and a cast of one to `int` is rejected. -/
theorem type_tests_agree_point :
    let loc : Location := ⟨"point", 1, 1⟩
    let elaborator : Elaborator := { registry := PointHost.registry }
    let point : Value := .object 1 "Point" [.datum (.int 3)]
    ∃ hidden shown, elaborator.elaborateAt {} 1 hiddenPoint 1 = .ok (hidden, 1) ∧
      elaborator.elaborateAt {} 1 newPoint 1 = .ok (shown, 1) ∧
      (Setting.mk PointHost.registry PointHost.host).evaluate (.empty 0)
        (.convert ⟨.named "Point", loc⟩ (.named "Point") hidden) 1 = .ok (point, 2) ∧
      elaborator.elaborateAt {} 0
          (.withType "cast" loc loc (.atom "int" loc) newPoint) 1 =
        faultAt loc (.castRejected (.named "Point") .int) ∧
      ¬ point.InstanceOf PointHost.registry .int := by
  intro loc elaborator point
  refine ⟨_, _, rfl, rfl, ?_⟩
  obtain ⟨-, -, -, values, -⟩ := @type_tests_agree (.named "Point") elaborator {} 0 1 1
    (.atom "Point" loc) hiddenPoint _ rfl rfl
  obtain ⟨-, -, cast, -, unrelated⟩ := @type_tests_agree .int elaborator {} 0 1 1 (.atom "int" loc)
    newPoint _ rfl rfl
  obtain ⟨holds, instances, -, -, casts⟩ := values PointHost.host (.empty 0) 1 2 point loc rfl
  have isPoint : point.InstanceOf PointHost.registry (.named "Point") := ⟨_, rfl, .inr .refl⟩
  have apart : Ty.Unrelated PointHost.registry (.named "Point") .int := ⟨rfl, rfl, rfl⟩
  exact ⟨(casts rfl).1.mpr (.inl (instances.mpr isPoint)), (cast "cast" loc loc rfl).2.mpr apart,
    unrelated point apart rfl⟩

end Elaborator

end ExprLang
