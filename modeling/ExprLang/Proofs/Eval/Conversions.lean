import ExprLang.Proofs.Eval.Upcasts

/-!
# Conversions between whole numbers

Casts of bytes, characters and integers to bytes and integers keep the number modulo the width of the
target (`Whole.eq_ofInt_iff` says that there is one such number), so a cast is exact where the number
fits and a detour through a type that is at least as wide changes nothing. A cast to `char` needs a
code that is not half of a surrogate pair. Casts of decimals cut the places and are checked.
-/

namespace ExprLang

attribute [local instance (high)] instPowNat

/-- The types of whole numbers of a fixed width: bytes and the integer types. -/
inductive Whole where
  | byte
  | integer (kind : IntKind)
  deriving DecidableEq, Repr

/-- The integer that a number of a whole type or the code of a character is. -/
def Datum.whole? : Datum → Option Int
  | .byte n => some n.toNat
  | .char c => some c.toNat
  | .integer kind word => some (kind.toInt word)
  | _ => none

namespace Whole

def ty : Whole → Ty
  | .byte => .byte
  | .integer kind => .integer kind

def bits : Whole → Nat
  | .byte => 8
  | .integer kind => kind.bits

def least : Whole → Int
  | .byte => 0
  | .integer kind => kind.least

def greatest : Whole → Int
  | .byte => 255
  | .integer kind => kind.greatest

/-- The number that an integer leaves modulo the width. -/
def ofInt : Whole → Int → Datum
  | .byte, n => .byte (BitVec.ofInt 8 n)
  | .integer kind, n => .integer kind (kind.ofInt n)

/-- A datum is a number of the type that is congruent to an integer modulo the width. -/
structure Holds (whole : Whole) (n : Int) (datum : Datum) : Prop where
  ty : datum.ty? = some whole.ty
  congruent : ∃ m, datum.whole? = some m ∧ m ≡ n [ZMOD 2 ^ whole.bits]

variable {whole middle : Whole} {m n : Int} {datum : Datum}

theorem toNat_ofInt_byte (n : Int) : ((BitVec.ofInt 8 n).toNat : Int) = n % 256 := by
  rw [BitVec.toNat_ofInt]
  omega

/-- Exactly one number of a type is congruent to an integer. -/
theorem eq_ofInt_iff : datum = whole.ofInt n ↔ whole.Holds n datum := by
  cases whole with
  | byte =>
    constructor
    · rintro rfl
      refine ⟨rfl, _, rfl, ?_⟩
      rw [toNat_ofInt_byte]
      exact Int.mod_modEq n 256
    · rintro ⟨shown, m, held, congruent⟩
      cases datum <;> cases shown
      next byte =>
        cases held
        have below := byte.isLt
        have same : (byte.toNat : Int) % 256 = n % 256 := congruent
        refine congrArg Datum.byte (BitVec.eq_of_toNat_eq ?_)
        have value := toNat_ofInt_byte n
        omega
  | integer kind =>
    constructor
    · rintro rfl
      exact ⟨rfl, _, rfl, (kind.residue_toInt_ofInt n).congruent⟩
    · rintro ⟨shown, m, held, congruent⟩
      obtain ⟨word, rfl⟩ := Datum.eq_integer shown
      cases held
      exact congrArg (Datum.integer kind) ((kind.eq_ofInt_iff).mpr congruent)

theorem holds_ofInt (whole : Whole) (n : Int) : whole.Holds n (whole.ofInt n) :=
  eq_ofInt_iff.mp rfl

/-- A number of the type is kept. -/
theorem whole?_ofInt (least : whole.least ≤ n) (greatest : n ≤ whole.greatest) :
    (whole.ofInt n).whole? = some n := by
  cases whole with
  | byte =>
    simp only [Whole.least, Whole.greatest] at least greatest
    have value := toNat_ofInt_byte n
    refine congrArg some ?_
    omega
  | integer kind => exact congrArg some (kind.toInt_ofInt least greatest)

/-- A number is what is left of its own value. -/
theorem ofInt_of_whole? (shown : datum.ty? = some whole.ty) (held : datum.whole? = some n) :
    whole.ofInt n = datum :=
  (eq_ofInt_iff.mpr ⟨shown, n, held, Int.ModEq.refl n⟩).symm

/-- What is congruent modulo the width of a type leaves the same in types that are not wider. -/
theorem ofInt_congr (narrower : whole.bits ≤ middle.bits)
    (congruent : m ≡ n [ZMOD 2 ^ middle.bits]) :
    whole.ofInt m = whole.ofInt n := by
  have divides : (2 : Int) ^ whole.bits ∣ 2 ^ middle.bits := pow_dvd_pow 2 narrower
  obtain ⟨shown, k, held, other⟩ := whole.holds_ofInt m
  exact eq_ofInt_iff.mpr ⟨shown, k, held, other.trans (congruent.of_dvd divides)⟩

end Whole

namespace Decimal

/-- An integer that ninety-six bits hold is a decimal without places, and is what that stands for. -/
theorem exists_ofInt? {n : Int} (small : n.natAbs < 2 ^ (96 : Nat)) :
    ∃ d : Decimal, ofInt? n = some d ∧ d.toInt = n := by
  have fits : n.natAbs < 2 ^ (96 : Nat) ∧ 0 ≤ 28 := ⟨small, by decide⟩
  refine ⟨_, dif_pos fits, ?_⟩
  simp only [toInt, signed, pow_zero, Int.tdiv_one, decide_eq_true_eq]
  split <;> omega

end Decimal

namespace Convert

variable {datum : Datum} {n : Int}

theorem number?_of_whole? (held : datum.whole? = some n) : number? datum = some (.integer n) := by
  cases datum <;> cases held <;> rfl

/-- An integer becomes the number that it leaves. -/
theorem numeric_whole (held : datum.whole? = some n) (whole : Whole) :
    numeric datum whole.ty = .ok (whole.ofInt n) := by
  cases whole <;> simp only [numeric, number?_of_whole? held] <;> rfl

/-- The code of a character is what is left modulo sixteen bits, unless that is half of a surrogate
pair. -/
theorem numeric_whole_char (held : datum.whole? = some n) :
    numeric datum .char = orFault (.conversionFailed datum.text .char)
      ((charOf? (n % 65536).toNat).map .char) := by
  simp only [numeric, number?_of_whole? held]
  rfl

theorem numeric_whole_decimal (held : datum.whole? = some n) (small : n.natAbs < 2 ^ (96 : Nat)) :
    ∃ d : Decimal, numeric datum .decimal = .ok (.decimal d) ∧ d.toInt = n := by
  obtain ⟨d, made, value⟩ := Decimal.exists_ofInt? small
  refine ⟨d, ?_, value⟩
  simp only [numeric, number?_of_whole? held, made]
  rfl

/-- A checked integer is kept if it lies in the range of the type. -/
theorem checked?_whole (n : Int) (whole : Whole) :
    checked? n whole.ty =
      if whole.least ≤ n ∧ n ≤ whole.greatest then some (whole.ofInt n) else none := by
  by_cases range : whole.least ≤ n ∧ n ≤ whole.greatest
  · rw [if_pos range]
    cases whole with
    | byte =>
      have below : 0 ≤ n ∧ n < 256 := ⟨range.1, Int.lt_add_one_of_le range.2⟩
      exact if_pos below
    | integer kind => exact congrArg (Option.map (Datum.integer kind)) (if_pos range)
  · rw [if_neg range]
    cases whole with
    | byte =>
      have beyond : ¬ (0 ≤ n ∧ n < 256) := fun below =>
        range ⟨below.1, Int.le_of_lt_add_one below.2⟩
      exact if_neg beyond
    | integer kind => exact congrArg (Option.map (Datum.integer kind)) (if_neg range)

/-- A decimal becomes its integer part, if the type has that. -/
theorem numeric_decimal_whole (d : Decimal) (whole : Whole) :
    numeric (.decimal d) whole.ty =
      if whole.least ≤ d.toInt ∧ d.toInt ≤ whole.greatest then .ok (whole.ofInt d.toInt)
      else .error .overflow := by
  have checked : numeric (.decimal d) whole.ty = orFault .overflow (checked? d.toInt whole.ty) := by
    cases whole <;> rfl
  rw [checked, checked?_whole]
  split <;> rfl

/-- A code of sixteen bits is that of a character unless it is half of a surrogate pair. -/
theorem charOf?_eq_none_iff {code : Nat} (short : code < 65536) :
    charOf? code = none ↔ 0xD800 ≤ code ∧ code < 0xE000 := by
  have valid : code.isValidChar ↔ ¬ (0xD800 ≤ code ∧ code < 0xE000) := by
    simp only [Nat.isValidChar]
    omega
  rw [← not_iff_not, ← valid]
  constructor
  · intro made
    by_contra noCharacter
    exact made (dif_neg noCharacter)
  · intro character none
    exact not_valid_of_charOf? none character

end Convert

/-- The integer of a number of a whole type lies in the range of the type. -/
theorem Whole.range {whole : Whole} {datum : Datum} {n : Int} (shown : datum.ty? = some whole.ty)
    (held : datum.whole? = some n) : whole.least ≤ n ∧ n ≤ whole.greatest := by
  cases whole with
  | byte =>
    cases datum <;> cases shown
    next byte =>
      cases held
      have below := byte.isLt
      simp only [Whole.least, Whole.greatest]
      omega
  | integer kind =>
    obtain ⟨word, rfl⟩ := Datum.eq_integer shown
    cases held
    exact ⟨kind.least_le_toInt word, kind.toInt_le_greatest word⟩

/-- Decimals have room for the numbers of the whole types. -/
theorem Whole.natAbs_lt {whole : Whole} {n : Int} (least : whole.least ≤ n)
    (greatest : n ≤ whole.greatest) : n.natAbs < 2 ^ (96 : Nat) := by
  have lower : -(2 ^ (96 : Nat)) < whole.least := by
    cases whole with
    | byte => decide
    | integer kind => cases kind <;> decide
  have upper : whole.greatest < 2 ^ (96 : Nat) := by
    cases whole with
    | byte => decide
    | integer kind => cases kind <;> decide
  omega

theorem Whole.isConvertibleNumeric (whole : Whole) : whole.ty.isConvertibleNumeric = true := by
  cases whole <;> rfl

/-! ## Casts of expressions -/

abbrev Expr.castTo (loc : Location) (target : Ty) (operand : Expr) : Expr :=
  .convert ⟨target, loc⟩ target operand

/-- An expression evaluates to a datum of its own type. -/
structure Setting.Gives (setting : Setting) (frame : Frame Value) (expr : Expr) (next : Nat)
    (datum : Datum) (later : Nat) : Prop where
  evaluated : setting.evaluate frame expr next = .ok (.datum datum, later)
  ty : datum.ty? = some expr.ty

namespace Setting

variable {setting : Setting} {frame : Frame Value} {operand : Expr} {next later : Nat}
  {x y : Datum} {target : Ty}

/-- A cast between numeric types is the numeric conversion of what the operand gives. -/
theorem Gives.evaluate_castTo (gives : setting.Gives frame operand next x later)
    (fromNumber : operand.ty.isConvertibleNumeric = true)
    (toNumber : target.isConvertibleNumeric = true) (loc : Location) :
    setting.evaluate frame (.castTo loc target operand) next =
      match Convert.numeric x target with
      | .ok y => .ok (.datum y, later)
      | .error fault => .error (fault.reportAt loc) := by
  have shown : (Value.datum x).ty? = some operand.ty := gives.ty
  rw [evaluate_convert ⟨target, loc⟩ target gives.evaluated]
  simp only [convert, shown, fromNumber, toNumber, Bool.and_self, ↓reduceIte, Convert.numericValue]
  cases Convert.numeric x target <;> rfl

theorem Gives.castTo (gives : setting.Gives frame operand next x later)
    (fromNumber : operand.ty.isConvertibleNumeric = true)
    (toNumber : target.isConvertibleNumeric = true) (converted : Convert.numeric x target = .ok y)
    (shown : y.ty? = some target) (loc : Location) :
    setting.Gives frame (.castTo loc target operand) next y later where
  evaluated := by rw [gives.evaluate_castTo fromNumber toNumber, converted]
  ty := shown

/-- The casts of an expression that gives a byte, an integer or a character `x` with the integer
`n`. -/
structure WholeCasts (setting : Setting) (frame : Frame Value) (operand : Expr) (next : Nat)
    (x : Datum) (later : Nat) (n : Int) : Prop where
  /-- A cast to a whole type gives the one number of the type that is congruent to `n`. -/
  residue (loc : Location) (whole : Whole) :
    ∃ y, (∀ z, whole.Holds n z ↔ z = y) ∧
      setting.evaluate frame (.castTo loc whole.ty operand) next = .ok (.datum y, later)
  /-- An integer that fits is kept. -/
  exact (loc : Location) {whole : Whole} (least : whole.least ≤ n) (greatest : n ≤ whole.greatest) :
    ∃ y, y.ty? = some whole.ty ∧ y.whole? = some n ∧
      setting.evaluate frame (.castTo loc whole.ty operand) next = .ok (.datum y, later)
  /-- A detour through a type that is at least as wide makes no difference. -/
  detour (loc inner : Location) {whole middle : Whole} (narrower : whole.bits ≤ middle.bits) :
    setting.evaluate frame (.castTo loc whole.ty (.castTo inner middle.ty operand)) next =
      setting.evaluate frame (.castTo loc whole.ty operand) next
  /-- Half of a surrogate pair is no character. -/
  surrogate (loc : Location) (half : 0xD800 ≤ n % 65536 ∧ n % 65536 < 0xE000) :
    setting.evaluate frame (.castTo loc .char operand) next =
      .error ((Fault.conversionFailed x.text .char).reportAt loc)
  /-- Every other code of sixteen bits is that of a character. -/
  character (loc : Location) (other : ¬ (0xD800 ≤ n % 65536 ∧ n % 65536 < 0xE000)) :
    ∃ c : Char, c.toNat = n % 65536 ∧
      setting.evaluate frame (.castTo loc .char operand) next = .ok (.datum (.char c), later)
  /-- A number of a whole type comes back from a detour through decimals. -/
  roundTrip (loc inner : Location) {whole : Whole} (shown : x.ty? = some whole.ty) :
    setting.evaluate frame (.castTo loc whole.ty (.castTo inner .decimal operand)) next =
      .ok (.datum x, later)

/-- The casts of an expression that gives a decimal to the whole types. -/
structure DecimalCasts (setting : Setting) (frame : Frame Value) (operand : Expr) (next : Nat)
    (d : Decimal) (later : Nat) : Prop where
  /-- The integer part, truncated toward zero, is kept where it fits. -/
  inRange (loc : Location) {whole : Whole} (least : whole.least ≤ d.signed.tdiv (10 ^ d.scale))
    (greatest : d.signed.tdiv (10 ^ d.scale) ≤ whole.greatest) :
    ∃ y, y.ty? = some whole.ty ∧ y.whole? = some (d.signed.tdiv (10 ^ d.scale)) ∧
      setting.evaluate frame (.castTo loc whole.ty operand) next = .ok (.datum y, later)
  /-- Where it does not fit the cast overflows. -/
  outOfRange (loc : Location) {whole : Whole}
    (outside : ¬ (whole.least ≤ d.signed.tdiv (10 ^ d.scale) ∧
      d.signed.tdiv (10 ^ d.scale) ≤ whole.greatest)) :
    setting.evaluate frame (.castTo loc whole.ty operand) next = .error (Fault.overflow.reportAt loc)

theorem Gives.castTo_whole {n : Int} (gives : setting.Gives frame operand next x later)
    (number : operand.ty.isConvertibleNumeric = true) (held : x.whole? = some n) (loc : Location)
    (whole : Whole) :
    setting.Gives frame (.castTo loc whole.ty operand) next (whole.ofInt n) later :=
  gives.castTo number whole.isConvertibleNumeric (Convert.numeric_whole held whole)
    (whole.holds_ofInt n).ty loc

theorem Gives.wholeCasts {n : Int} (gives : setting.Gives frame operand next x later)
    (number : operand.ty.isConvertibleNumeric = true) (held : x.whole? = some n) :
    setting.WholeCasts frame operand next x later n where
  residue loc whole :=
    ⟨whole.ofInt n, fun _ => Whole.eq_ofInt_iff.symm,
      (gives.castTo_whole number held loc whole).evaluated⟩
  exact loc whole least greatest :=
    ⟨whole.ofInt n, (whole.holds_ofInt n).ty, Whole.whole?_ofInt least greatest,
      (gives.castTo_whole number held loc whole).evaluated⟩
  detour loc inner whole middle narrower := by
    -- What the detour leaves is congruent modulo the wider type, hence modulo the narrower one.
    obtain ⟨shown, m, between, congruent⟩ := middle.holds_ofInt n
    have first := gives.castTo_whole number held inner middle
    have second := first.castTo_whole middle.isConvertibleNumeric between loc whole
    rw [second.evaluated, (gives.castTo_whole number held loc whole).evaluated,
      Whole.ofInt_congr narrower congruent]
  surrogate loc half := by
    have noCharacter : Convert.charOf? (n % 65536).toNat = none := by
      rw [Convert.charOf?_eq_none_iff (by omega)]
      omega
    rw [gives.evaluate_castTo number rfl, Convert.numeric_whole_char held, noCharacter]
    rfl
  character loc other := by
    cases made : Convert.charOf? (n % 65536).toNat with
    | none =>
      rw [Convert.charOf?_eq_none_iff (by omega)] at made
      omega
    | some c =>
      have code := Convert.toNat_of_charOf? made
      refine ⟨c, by omega, ?_⟩
      rw [gives.evaluate_castTo number rfl, Convert.numeric_whole_char held, made]
      rfl
  roundTrip loc inner whole shown := by
    -- The decimal has no places, so cutting them gives the number back, and it is in range.
    have range := whole.range shown held
    obtain ⟨d, converted, value⟩ :=
      Convert.numeric_whole_decimal held (whole.natAbs_lt range.1 range.2)
    have first := gives.castTo number rfl converted rfl inner
    rw [first.evaluate_castTo rfl whole.isConvertibleNumeric, Convert.numeric_decimal_whole, value,
      if_pos range, Whole.ofInt_of_whole? shown held]

theorem Gives.decimalCasts {d : Decimal} (gives : setting.Gives frame operand next (.decimal d) later)
    (number : operand.ty.isConvertibleNumeric = true) :
    setting.DecimalCasts frame operand next d later where
  inRange loc whole least greatest := by
    refine ⟨whole.ofInt d.toInt, (whole.holds_ofInt _).ty, Whole.whole?_ofInt least greatest, ?_⟩
    rw [gives.evaluate_castTo number whole.isConvertibleNumeric, Convert.numeric_decimal_whole,
      if_pos ⟨least, greatest⟩]
  outOfRange loc whole outside := by
    have outside : ¬ (whole.least ≤ d.toInt ∧ d.toInt ≤ whole.greatest) := outside
    rw [gives.evaluate_castTo number whole.isConvertibleNumeric, Convert.numeric_decimal_whole,
      if_neg outside]

end Setting

namespace Elaborator

inductive CastForm (elaborator : Elaborator) (loc : Location) (target : Ty) (inner : Form) :
    Form → Prop where
  | intro {name : String} {headLoc : Location} {tyForm : Form}
      (head : elaborator.heads.get? name = some .cast)
      (named : elaborator.typeName tyForm = .ok target) :
      CastForm elaborator loc target inner (.combo .paren [.atom name headLoc, tyForm, inner] loc)

/-- **Conversions between whole numbers are coherent.** A cast of a number to a numeric type compiles.
If its operand gives a byte, an integer or a character, a cast to a byte or an integer gives what that
leaves modulo the width, a cast to `char` gives what it leaves modulo sixteen bits or fails on half of
a surrogate pair, and a detour through decimals changes nothing. If the operand gives a decimal, a
cast to a byte or an integer gives its integer part or fails with an overflow. -/
theorem integral_conversions_coherent (elaborator : Elaborator) (host : Host) {frame : Frame Value}
    {operand : Expr} {next later : Nat} {x : Datum}
    (number : operand.ty.isConvertibleNumeric = true)
    (gives : (Setting.mk elaborator.registry host).Gives frame operand next x later) :
    (∀ {scope : Scope} {depth supply rest : Nat} {form cast : Form} {loc : Location} {target : Ty},
        elaborator.CastForm loc target form cast → target.isConvertibleNumeric = true →
        elaborator.elaborateAt scope (depth + 1) form supply = .ok (operand, rest) →
        elaborator.elaborateAt scope depth cast supply = .ok (.castTo loc target operand, rest)) ∧
      (∀ n, x.whole? = some n →
        (Setting.mk elaborator.registry host).WholeCasts frame operand next x later n) ∧
      ∀ d, x = .decimal d →
        (Setting.mk elaborator.registry host).DecimalCasts frame operand next d later := by
  refine ⟨?_, fun n held => gives.wholeCasts number held, ?_⟩
  · rintro scope depth supply rest form cast loc target ⟨head, named⟩ toNumber compiled
    have part := elaborates_of_ok compiled
    have rule : Typing.convert elaborator.registry loc target operand =
        .ok (.castTo loc target operand) := by
      simp [Typing.convert, Typing.canConvert, number, toNumber]
    exact (Elaborates.convert (Nat.le_of_succ_le part.shallow) head named part rule).ok
  · rintro d rfl
    exact gives.decimalCasts number

/-- Minus one as a `long` is 255 as a byte. -/
theorem integral_conversions_coherent_minusOne :
    let loc : Location := ⟨"text", 1, 1⟩
    ∃ cast,
      elaborate {} {} (.combo .paren [.atom "cast" loc, .atom "byte" loc, .atom "-1l" loc] loc) 1 =
        .ok (cast, 1) ∧
      (Setting.mk {} ⟨[]⟩).evaluate (.empty 0) cast 1 = .ok (.datum (.byte 255), 1) := by
  intro loc
  have gives : (Setting.mk {} ⟨[]⟩).Gives (.empty 0)
      (.constant ⟨.integer .long, loc⟩ (.integer .long (-1))) 1 (.integer .long (-1)) 1 :=
    ⟨rfl, rfl⟩
  obtain ⟨compiles, casts, -⟩ := integral_conversions_coherent {} ⟨[]⟩ rfl gives
  refine ⟨_, @compiles {} 0 1 1 _ _ _ _ ⟨rfl, rfl⟩ rfl rfl, ?_⟩
  obtain ⟨y, only, outcome⟩ := (casts (-1) rfl).residue loc .byte
  have held : Whole.byte.Holds (-1) (.byte 255) := ⟨rfl, 255, rfl, by decide⟩
  rwa [← (only _).mp held] at outcome

end Elaborator

end ExprLang
