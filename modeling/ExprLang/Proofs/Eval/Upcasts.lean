import ExprLang.Proofs.Binary.Widening
import ExprLang.Proofs.Number.Word
import ExprLang.Proofs.TypeSoundness

/-!
# Casts to the same type and upwards

A cast to a type that the type of its operand is assignable to compiles, and its value is the value
of the operand, with exceptions that `Convert.Altered` lists. A cast from a numeric type to itself is
a numeric conversion like any other. It cuts the code of a character to sixteen bits, so a character
beyond them becomes another one or none, and it makes a signalling NaN of single precision quiet
(`Convert.Cut`). The other exceptions need a registry that bases a host type on a value type; in a
host-based registry (`Registry.HostBased`) they do not arise.
-/

namespace ExprLang

/-- The type of a datum is built in. -/
theorem Datum.ty?_ne_named {datum : Datum} {ty : Ty} (shown : datum.ty? = some ty) (name : String) :
    ty ≠ .named name := by
  rintro rfl
  cases datum <;> cases shown

theorem Ty.isValueType_of_number {ty : Ty} (number : ty.isConvertibleNumeric = true) :
    ty.isValueType = true := by
  unfold Ty.isConvertibleNumeric Ty.isArithmetic at number
  split at number
  · rfl
  · rfl
  · split at number <;> first | rfl | cases number

variable {registry : Registry} {source target ty : Ty} {value : Value}

/-- A built-in type is assignable to nothing but itself and `object`. -/
theorem Registry.eq_or_object_of_builtin (builtin : ∀ name, source ≠ .named name)
    (assignable : registry.isAssignable source target = true) : target = source ∨ target = .object := by
  rcases isAssignable_iff.mp assignable with rfl | chain
  · exact .inr rfl
  · cases chain using Relation.ReflTransGen.head_induction_on with
    | refl => exact .inl rfl
    | head step rest =>
      obtain rfl := isBase_of_builtin builtin step
      exact .inr (chain_of_object rest)

namespace Convert

/-! ## Numbers converted to their own type -/

theorem charOf?_toNat (c : Char) : charOf? c.toNat = some c := by
  have valid : c.toNat.isValidChar := c.valid
  have same : Char.ofNatAux c.toNat valid = c := Char.toNat_inj.mp rfl
  rw [charOf?, dif_pos valid, same]

theorem not_valid_of_charOf? {code : Nat} (none : charOf? code = none) : ¬ code.isValidChar := by
  intro valid
  rw [charOf?, dif_pos valid] at none
  cases none

theorem toNat_of_charOf? {code : Nat} {c : Char} (made : charOf? code = some c) : c.toNat = code := by
  by_cases valid : code.isValidChar
  · rw [charOf?, dif_pos valid] at made
    obtain rfl := Option.some.inj made
    rfl
  · rw [charOf?, dif_neg valid] at made
    cases made

/-- The values that a numeric conversion to their own type changes: a character whose code has more
than sixteen bits and a signalling NaN of single precision. -/
inductive Cut : Ty → Value → Prop where
  | wide {c : Char} (beyond : 65536 ≤ c.toNat) : Cut .char (.datum (.char c))
  | signalling {x : Binary Format.single} (signals : x.IsSignalling) : Cut .float (.datum (.float x))

theorem Cut.exists_datum (cut : Cut ty value) :
    ∃ datum, value = .datum datum ∧ datum.ty? = some ty ∧ ty.isConvertibleNumeric = true := by
  cases cut <;> exact ⟨_, rfl, rfl, rfl⟩

/-- A conversion of a character to a character cuts its code to sixteen bits. -/
theorem numeric_char (c : Char) : numeric (.char c) .char =
    orFault (.conversionFailed (Datum.char c).text .char)
      ((charOf? (c.toNat % 65536)).map .char) := by
  have cut : ((c.toNat : Int) % 65536).toNat = c.toNat % 65536 := by omega
  simp only [numeric, number?, wrap?, cut]

theorem numeric_char_eq_ok_iff {c : Char} :
    numeric (.char c) .char = .ok (.char c) ↔ c.toNat < 65536 := by
  rw [numeric_char]
  constructor
  · intro same
    cases made : charOf? (c.toNat % 65536) with
    | none =>
      rw [made] at same
      cases same
    | some other =>
      rw [made] at same
      cases same
      have code := toNat_of_charOf? made
      omega
  · intro short
    rw [Nat.mod_eq_of_lt short, charOf?_toNat]
    rfl

theorem numeric_float_eq_ok_iff {x : Binary Format.single} :
    numeric (.float x) .float = .ok (.float x) ↔ ¬ x.IsSignalling := by
  rw [← Binary.convert_convert_eq_iff Format.single_fitsIn_double]
  simp [numeric, number?]

/-- A numeric conversion to the own type gives the number back unless it is one of those that are
cut. -/
theorem numeric_eq_ok_iff {datum : Datum} (shown : datum.ty? = some ty)
    (number : ty.isConvertibleNumeric = true) :
    numeric datum ty = .ok datum ↔ ¬ Cut ty (.datum datum) := by
  cases datum with
  | null => cases shown
  | bool | string | type =>
    cases shown
    cases number
  | char c =>
    cases shown
    rw [numeric_char_eq_ok_iff]
    constructor
    · intro short cut
      cases cut with
      | wide beyond => omega
    · exact fun notCut => Nat.lt_of_not_le fun beyond => notCut (.wide beyond)
  | byte n =>
    cases shown
    have same : BitVec.ofInt 8 (n.toNat : Int) = n := by
      rw [BitVec.ofInt_natCast, BitVec.ofNat_toNat, BitVec.setWidth_eq]
    simp only [numeric, number?, wrap?, same, orFault, true_iff]
    rintro ⟨⟩
  | integer kind word =>
    cases shown
    simp only [numeric, number?, wrap?, IntKind.ofInt_toInt, orFault, true_iff]
    rintro ⟨⟩
  | float x =>
    cases shown
    rw [numeric_float_eq_ok_iff]
    constructor
    · intro quiet cut
      cases cut with
      | signalling signals => exact quiet signals
    · exact fun notCut signals => notCut (.signalling signals)
  | double x =>
    cases shown
    exact ⟨fun _ => nofun, fun _ => rfl⟩
  | decimal d =>
    cases shown
    exact ⟨fun _ => nofun, fun _ => rfl⟩

/-- A numeric conversion to the own type fails only where the cut code of a character is that of half
of a surrogate pair. -/
theorem surrogate_of_numeric_error {datum : Datum} {fault : Fault} (shown : datum.ty? = some ty)
    (number : ty.isConvertibleNumeric = true) (failed : numeric datum ty = .error fault) :
    ∃ c, datum = .char c ∧ ty = .char ∧ 0xD800 ≤ c.toNat % 65536 ∧ c.toNat % 65536 < 0xE000 ∧
      fault = .conversionFailed datum.text .char := by
  by_cases cut : Cut ty (.datum datum)
  · cases cut with
    | @wide c beyond =>
      rw [numeric_char] at failed
      cases made : charOf? (c.toNat % 65536) with
      | some other =>
        rw [made] at failed
        cases failed
      | none =>
        rw [made] at failed
        cases failed
        have noCharacter := not_valid_of_charOf? made
        have below : c.toNat % 65536 < 65536 := Nat.mod_lt _ (by decide)
        simp only [Nat.isValidChar] at noCharacter
        exact ⟨c, rfl, rfl, by omega, by omega, rfl⟩
    | signalling signals =>
      simp only [numeric, number?] at failed
      cases failed
  · rw [(numeric_eq_ok_iff shown number).mpr cut] at failed
    cases failed

/-! ## Casts between types -/

/-- What a cast from one type to another one that it is assignable to changes. The last two cases
need a host type that is based on a value type: its null is null under a value type, and a value that
is no datum can then stand under a numeric type. -/
inductive Altered (source target : Ty) : Value → Prop where
  | cut {value : Value} (cut : Cut target value) : Altered source target value
  | null (valueType : target.isValueType = true) : Altered source target .null
  | foreign {value : Value} (foreign : ∀ datum, value ≠ .datum datum)
      (fromNumber : source.isConvertibleNumeric = true)
      (toNumber : target.isConvertibleNumeric = true) : Altered source target value

/-- Under a type from which it goes up to a number, a datum stands only if that is its own type. -/
theorem eq_of_datum {datum : Datum} {actual : Ty} (shown : datum.ty? = some actual)
    (conforms : registry.isAssignable actual source = true)
    (below : registry.isAssignable source target = true)
    (number : target.isConvertibleNumeric = true) : source = actual ∧ target = actual := by
  have notObject : target ≠ .object := by
    rintro rfl
    cases number
  rcases Registry.eq_or_object_of_builtin (Datum.ty?_ne_named shown) conforms with rfl | rfl
  · rcases Registry.eq_or_object_of_builtin (Datum.ty?_ne_named shown) below with same | object
    · exact ⟨rfl, same⟩
    · exact absurd object notObject
  · rcases Registry.isAssignable_iff.mp below with object | chain
    · exact absurd object notObject
    · exact absurd (Registry.chain_of_object chain) notObject

/-- A cast between numeric types of a value that can stand under the first one. -/
theorem numericValue_eq_ok_iff {actual : Ty} (shown : value.ty? = some actual)
    (conforms : registry.isAssignable actual source = true)
    (below : registry.isAssignable source target = true)
    (fromNumber : source.isConvertibleNumeric = true)
    (toNumber : target.isConvertibleNumeric = true) :
    numericValue value target = .ok value ↔ ¬ Altered source target value := by
  by_cases isDatum : ∃ datum, value = .datum datum
  · obtain ⟨datum, rfl⟩ := isDatum
    obtain ⟨rfl, rfl⟩ := eq_of_datum shown conforms below toNumber
    have altered : Altered target target (.datum datum) ↔ Cut target (.datum datum) := by
      constructor
      · rintro (cut | - | ⟨foreign, -, -⟩)
        · exact cut
        · cases shown
        · exact absurd rfl (foreign datum)
      · exact .cut
    rw [altered, ← numeric_eq_ok_iff shown toNumber, numericValue]
    cases numeric datum target <;> simp [Except.map]
  · have foreign : ∀ datum, value ≠ .datum datum := fun datum same => isDatum ⟨datum, same⟩
    have altered : Altered source target value := .foreign foreign fromNumber toNumber
    have failed : numericValue value target = .error (.conversionFailed value.text target) := by
      cases value with
      | datum datum => exact absurd rfl (foreign datum)
      | list | map | function | object => rfl
    simp [failed, altered]

/-- A cast upwards of a value that can stand under the static type gives the value back exactly if it
is not among those that are altered. -/
theorem convert_eq_ok_iff {setting : Setting}
    (conforms : value.Conforms setting.registry source)
    (below : setting.registry.isAssignable source target = true) :
    setting.convert value source target = .ok value ↔ ¬ Altered source target value := by
  unfold Value.Conforms at conforms
  unfold Setting.convert
  cases shown : value.ty? with
  | none =>
    obtain rfl := Value.eq_null_of_ty? shown
    cases valueType : target.isValueType with
    | true =>
      have altered : Altered source target .null := .null valueType
      simp [altered]
    | false =>
      have kept : ¬ Altered source target .null := by
        rintro (cut | reference | ⟨foreign, -, -⟩)
        · cases cut
        · exact absurd (valueType.symm.trans reference) nofun
        · exact foreign .null rfl
      simp [kept]
  | some actual =>
    rw [shown] at conforms
    cases numbers : source.isConvertibleNumeric && target.isConvertibleNumeric with
    | true =>
      rw [Bool.and_eq_true] at numbers
      exact numericValue_eq_ok_iff shown conforms below numbers.1 numbers.2
    | false =>
      have kept : ¬ Altered source target value := by
        rintro (cut | - | ⟨-, fromNumber, toNumber⟩)
        · obtain ⟨datum, rfl, own, number⟩ := cut.exists_datum
          obtain rfl := Option.some.inj (shown.symm.trans own)
          obtain ⟨rfl, -⟩ := eq_of_datum own conforms below number
          simp [number] at numbers
        · cases shown
        · simp [fromNumber, toNumber] at numbers
      simp [kept, Registry.isAssignable_trans conforms below]

/-- In a host-based registry only numbers are altered that a conversion to their own type cuts. -/
theorem altered_iff_cut (hostBased : registry.HostBased) {supplied : Closure Value → Prop}
    (wellTyped : WellTyped registry supplied value source)
    (below : registry.isAssignable source target = true) :
    Altered source target value ↔ Cut target value := by
  constructor
  · rintro (cut | valueType | ⟨foreign, fromNumber, toNumber⟩)
    · exact cut
    · cases wellTyped.weaken hostBased below with
      | null reference => exact absurd (valueType.symm.trans reference) nofun
      | datum tyOf => cases tyOf
    · obtain ⟨datum, rfl, -⟩ := wellTyped.exists_datum hostBased (Ty.isValueType_of_number fromNumber)
      exact absurd rfl (foreign datum)
  · exact .cut

/-- A cast upwards of a well-typed value fails only where it cuts the code of a character to that of
half of a surrogate pair. -/
theorem surrogate_of_convert_error {setting : Setting} {supplied : Closure Value → Prop}
    {fault : Fault} (hostBased : setting.registry.HostBased)
    (wellTyped : WellTyped setting.registry supplied value source)
    (below : setting.registry.isAssignable source target = true)
    (failed : setting.convert value source target = .error fault) :
    ∃ c, value = .datum (.char c) ∧ target = .char ∧ 0xD800 ≤ c.toNat % 65536 ∧
      c.toNat % 65536 < 0xE000 ∧ fault = .conversionFailed value.text .char := by
  have cut : Cut target value := by
    by_contra kept
    rw [← altered_iff_cut hostBased wellTyped below,
      ← convert_eq_ok_iff wellTyped.conforms below, failed] at kept
    cases kept
  obtain ⟨datum, rfl, shown, number⟩ := cut.exists_datum
  obtain ⟨rfl, -⟩ := eq_of_datum shown (wellTyped.isAssignable_of_ty? shown) below number
  have outcome : setting.convert (.datum datum) source source =
      (numeric datum source).map .datum := by
    have shown : (Value.datum datum).ty? = some source := shown
    simp [Setting.convert, shown, number, numericValue]
  rw [outcome] at failed
  cases converted : numeric datum source with
  | ok made =>
    rw [converted] at failed
    cases failed
  | error other =>
    rw [converted] at failed
    obtain rfl := Except.error.inj failed
    obtain ⟨c, rfl, isChar, least, below, reason⟩ :=
      surrogate_of_numeric_error shown number converted
    exact ⟨c, rfl, isChar, least, below, reason⟩

end Convert

/-- The value of a cast is that of its operand, converted. -/
theorem Setting.evaluate_convert {setting : Setting} {frame : Frame Value} {expr : Expr}
    {next later : Nat} (node : Node) (target : Ty)
    (evaluated : setting.evaluate frame expr next = .ok (value, later)) :
    setting.evaluate frame (.convert node target expr) next =
      match setting.convert value expr.ty target with
      | .ok result => .ok (result, later)
      | .error fault => .error (fault.reportAt node.loc) := by
  simp only [Setting.evaluate, bind, StateT.bind, evaluated, Except.bind]
  cases setting.convert value expr.ty target <;> rfl

namespace Elaborator

/-- **Casts upwards keep values.** A cast to a type that the type of its operand is assignable to
compiles if the operand does where it stands. On a registry of any kind, wherever the operand gives a
value that can stand under its type, the cast gives exactly this value unless it is among those that
are altered. In the setting of type soundness the cast gives exactly the value of the operand unless
that is a character or a NaN that is cut, and it fails only if what is left of a character is half of
a surrogate pair. -/
theorem upcasts_keep_values {elaborator : Elaborator} {scope : Scope} {depth supply rest : Nat}
    {name : String} {headLoc loc : Location} {tyForm form : Form} {target : Ty} {expr : Expr}
    (head : elaborator.heads.get? name = some .cast)
    (named : elaborator.typeName tyForm = .ok target)
    (compiled : elaborator.elaborateAt scope (depth + 1) form supply = .ok (expr, rest))
    (below : elaborator.registry.isAssignable expr.ty target = true) :
    elaborator.elaborateAt scope depth (.combo .paren [.atom name headLoc, tyForm, form] loc)
        supply = .ok (.convert ⟨target, loc⟩ target expr, rest) ∧
      ∀ (host : Host) (frame : Frame Value) (next later : Nat) (value : Value),
        (Setting.mk elaborator.registry host).evaluate frame expr next = .ok (value, later) →
        (value.Conforms elaborator.registry expr.ty →
          ((Setting.mk elaborator.registry host).evaluate frame
              (.convert ⟨target, loc⟩ target expr) next = .ok (value, later) ↔
            ¬ Convert.Altered expr.ty target value)) ∧
        ∀ supplied, elaborator.registry.HostBased → host.Sound elaborator.registry supplied →
          scope.Below supply → frame.Covers elaborator.registry supplied scope.bindings →
          ((Setting.mk elaborator.registry host).evaluate frame
              (.convert ⟨target, loc⟩ target expr) next = .ok (value, later) ↔
            ¬ Convert.Cut target value) ∧
          ∀ report, (Setting.mk elaborator.registry host).evaluate frame
              (.convert ⟨target, loc⟩ target expr) next = .error report →
            ∃ c, value = .datum (.char c) ∧ target = .char ∧ 0xD800 ≤ c.toNat % 65536 ∧
              c.toNat % 65536 < 0xE000 ∧
              report = (Fault.conversionFailed value.text .char).reportAt loc := by
  constructor
  · have part := elaborates_of_ok compiled
    have rule : Typing.convert elaborator.registry loc target expr =
        .ok (.convert ⟨target, loc⟩ target expr) := by
      simp [Typing.convert, Typing.canConvert, below]
    exact (Elaborates.convert (Nat.le_of_succ_le part.shallow) head named part rule).ok
  · intro host frame next later value evaluated
    have outcome := Setting.evaluate_convert ⟨target, loc⟩ target evaluated
    have kept : (Setting.mk elaborator.registry host).evaluate frame
          (.convert ⟨target, loc⟩ target expr) next = .ok (value, later) ↔
        (Setting.mk elaborator.registry host).convert value expr.ty target = .ok value := by
      rw [outcome]
      cases (Setting.mk elaborator.registry host).convert value expr.ty target <;> simp
    refine ⟨fun conforms => ?_, fun supplied hostBased sound fresh covered => ?_⟩
    · rw [kept]
      exact Convert.convert_eq_ok_iff conforms below
    · have typed : Typed elaborator.registry scope.bindings expr :=
        (elaborates_of_ok compiled).typed fresh
      have wellTyped : WellTyped elaborator.registry supplied value expr.ty :=
        (Setting.meets_evaluate hostBased sound covered typed next).of_ok evaluated
      constructor
      · rw [kept, Convert.convert_eq_ok_iff wellTyped.conforms below,
          Convert.altered_iff_cut hostBased wellTyped below]
      · intro report failed
        rw [outcome] at failed
        cases converted : (Setting.mk elaborator.registry host).convert value expr.ty target with
        | ok result =>
          rw [converted] at failed
          cases failed
        | error fault =>
          rw [converted] at failed
          obtain rfl := Except.error.inj failed
          obtain ⟨c, same, isChar, least, greatest, rfl⟩ :=
            Convert.surrogate_of_convert_error hostBased wellTyped below converted
          exact ⟨c, same, isChar, least, greatest, rfl⟩

def firstOf (text : String) : Form :=
  let loc : Location := ⟨"text", 1, 12⟩
  .combo .paren [.atom "#" loc, .atom text loc, .atom "0" loc] loc

def castToChar (operand : Form) : Form :=
  let loc : Location := ⟨"text", 1, 1⟩
  .combo .paren [.atom "cast" loc, .atom "char" loc, operand] loc

/-- The first character of `a` goes through a cast to `char` as it is, on a registry with points. -/
theorem upcasts_keep_values_letter :
    ∃ expr, elaborate { registry := PointHost.registry } {} (castToChar (firstOf "\"a\"")) 1 =
        .ok (expr, 1) ∧
      (Setting.mk PointHost.registry PointHost.host).evaluate (.empty 0) expr 1 =
        .ok (.datum (.char 'a'), 1) := by
  have below : Scope.Below {} 1 := by simp [Scope.Below, Scope.bindings]
  have covered :
      (Frame.empty 0).Covers PointHost.registry (fun _ => False) (Scope.bindings {}) := by
    simp [Frame.Covers, Scope.bindings]
  obtain ⟨compiled, values⟩ := @upcasts_keep_values { registry := PointHost.registry } {} 0 1 1
    "cast" ⟨"text", 1, 1⟩ ⟨"text", 1, 1⟩ (.atom "char" ⟨"text", 1, 1⟩) (firstOf "\"a\"") .char _
    rfl rfl rfl rfl
  obtain ⟨-, sound⟩ := values PointHost.host (.empty 0) 1 1 (.datum (.char 'a')) rfl
  obtain ⟨kept, -⟩ := sound (fun _ => False) PointHost.hostBased (PointHost.sound _) below covered
  refine ⟨_, compiled, kept.mpr fun cut => ?_⟩
  cases cut with
  | wide beyond => exact absurd beyond (by decide)

/-- The code of an emoji has seventeen bits. The operand is of type `char` and gives the emoji; its
cast to `char` gives the character whose code is that of the emoji without the first bit. -/
theorem cast_changes_emoji :
    ∃ operand cast, elaborate {} {} (firstOf "\"😀\"") 1 = .ok (operand, 1) ∧
      operand.ty = .char ∧
      elaborate {} {} (castToChar (firstOf "\"😀\"")) 1 = .ok (cast, 1) ∧
      (Setting.mk {} ⟨[]⟩).evaluate (.empty 0) operand 1 = .ok (.datum (.char '😀'), 1) ∧
      (Setting.mk {} ⟨[]⟩).evaluate (.empty 0) cast 1 = .ok (.datum (.char '\uf600'), 1) :=
  ⟨_, _, rfl, rfl, rfl, rfl, rfl⟩

end Elaborator

end ExprLang
