import ExprLang.Binary.Basic
import Mathlib.Tactic.Ring

/-!
# Binary numbers in a wider format and back

A finite magnitude is a significand times a power of two, and its code writes it in the one way in
which the significand is as long as it can be (`Normal`). Exact results therefore are not moved by
rounding, every number of a format is a number of a wider one, and converting it there and back
gives the same bits. The exception are NaNs that are not quiet: conversions give quiet ones.
-/

namespace ExprLang

attribute [local instance (high)] instPowNat

namespace Format

/-- A format whose finite numbers and payloads another format has too. -/
structure FitsIn (format target : Format) : Prop where
  payload : 0 < format.fractionBits
  fraction : format.fractionBits ≤ target.fractionBits
  unit : format.unitBits ≤ target.unitBits
  room : 2 ^ format.exponentBits + (target.unitBits - format.unitBits) < 2 ^ target.exponentBits

theorem single_fitsIn_double : single.FitsIn double := by
  constructor <;> decide

theorem infinityCode_lt_codes (format : Format) : format.infinityCode < format.codes := by
  have room : 2 ^ format.exponentBits - 1 < 2 ^ format.exponentBits :=
    Nat.sub_lt (Nat.two_pow_pos _) Nat.one_pos
  rw [infinityCode, codes, Nat.pow_add]
  exact Nat.mul_lt_mul_of_pos_right room (Nat.two_pow_pos _)

end Format

namespace Binary

variable {format target : Format} {negative : Bool} {code significand shift denominator : Nat}

theorem val_ofCode (fits : code < format.codes) :
    (ofCode negative code : Binary format).code.val = code :=
  Nat.mod_eq_of_lt fits

theorem ofCode_code (x : Binary format) : ofCode x.negative x.code.val = x := by
  obtain ⟨sign, code, fits⟩ := x
  simp [ofCode, Nat.mod_eq_of_lt fits]

/-! ## Significands -/

/-- A significand and a power of two as a code writes them. -/
structure Normal (format : Format) (significand shift : Nat) : Prop where
  small : significand < 2 ^ (format.fractionBits + 1)
  filled : shift = 0 ∨ 2 ^ format.fractionBits ≤ significand

def codeOf (format : Format) (significand shift : Nat) : Nat :=
  shift * 2 ^ format.fractionBits + significand

/-- Every magnitude is written as a significand and a power of two. -/
theorem exists_normal (x : Binary format) : ∃ significand shift, Normal format significand shift ∧
    x.units = significand * 2 ^ shift ∧ x.code.val = codeOf format significand shift := by
  have whole : 2 ^ format.fractionBits * x.exponentField + x.fraction = x.code.val :=
    Nat.div_add_mod ..
  have below : x.fraction < 2 ^ format.fractionBits := Nat.mod_lt _ (Nat.two_pow_pos _)
  cases exponent : x.exponentField with
  | zero =>
    refine ⟨x.fraction, 0, ⟨?_, .inl rfl⟩, ?_, ?_⟩
    · rw [Nat.pow_succ]
      omega
    · simp [units, exponent]
    · rw [exponent] at whole
      simp only [codeOf]
      omega
  | succ shift =>
    refine ⟨2 ^ format.fractionBits + x.fraction, shift, ⟨?_, .inr (Nat.le_add_right ..)⟩, ?_, ?_⟩
    · rw [Nat.pow_succ]
      omega
    · simp [units, spacing, exponent]
    · rw [← whole, exponent, codeOf]
      ring

/-- A code has the units that it writes. -/
theorem units_ofCode (normal : Normal format significand shift)
    (fits : codeOf format significand shift < format.codes) :
    (ofCode negative (codeOf format significand shift) : Binary format).units =
      significand * 2 ^ shift := by
  have positive : 0 < 2 ^ format.fractionBits := Nat.two_pow_pos _
  rcases Nat.lt_or_ge significand (2 ^ format.fractionBits) with short | long
  · obtain rfl : shift = 0 := normal.filled.resolve_right (Nat.not_le.mpr short)
    simp only [codeOf, Nat.zero_mul, Nat.zero_add] at fits ⊢
    simp [units, exponentField, fraction, val_ofCode fits, Nat.div_eq_of_lt short,
      Nat.mod_eq_of_lt short]
  · obtain ⟨rest, rfl⟩ := Nat.exists_eq_add_of_le long
    have below : rest < 2 ^ format.fractionBits := by
      have := normal.small
      rw [Nat.pow_succ] at this
      omega
    have written : codeOf format (2 ^ format.fractionBits + rest) shift =
        2 ^ format.fractionBits * (shift + 1) + rest := by
      rw [codeOf]
      ring
    have exponent : (2 ^ format.fractionBits * (shift + 1) + rest) / 2 ^ format.fractionBits =
        shift + 1 := by
      rw [Nat.mul_add_div positive, Nat.div_eq_of_lt below, Nat.add_zero]
    have lower : (2 ^ format.fractionBits * (shift + 1) + rest) % 2 ^ format.fractionBits =
        rest := by
      rw [Nat.mul_add_mod, Nat.mod_eq_of_lt below]
    rw [written] at fits ⊢
    simp [units, exponentField, fraction, spacing, val_ofCode fits, exponent, lower]

/-! ## Exact results -/

/-- The shift that rounding chooses for a magnitude is the one that its code writes. -/
theorem Normal.log2_sub (normal : Normal format significand shift) :
    (significand * 2 ^ shift).log2 - format.fractionBits = shift := by
  rcases Nat.eq_zero_or_pos significand with rfl | positive
  · rcases normal.filled with rfl | long
    · simp
    · exact absurd long (Nat.not_le.mpr (Nat.two_pow_pos _))
  · rcases normal.filled with rfl | long
    · have length := Nat.le_of_lt_succ ((Nat.log2_lt positive.ne').mpr normal.small)
      rw [Nat.pow_zero, Nat.mul_one]
      omega
    · have scaled : significand * 2 ^ shift ≠ 0 :=
        (Nat.mul_pos positive (Nat.two_pow_pos _)).ne'
      have log2 : (significand * 2 ^ shift).log2 = format.fractionBits + shift := by
        refine (Nat.log2_eq_iff scaled).mpr ⟨?_, ?_⟩
        · rw [Nat.pow_add]
          exact Nat.mul_le_mul_right _ long
        · rw [Nat.add_right_comm, Nat.pow_add]
          exact Nat.mul_lt_mul_of_pos_right normal.small (Nat.two_pow_pos _)
      omega

/-- A result that is a significand times a power of two is not moved. -/
theorem ofUnits_normal (normal : Normal format significand shift) (positive : 0 < denominator) :
    ofUnits negative (significand * 2 ^ shift * denominator) denominator =
      (ofCode negative (min (codeOf format significand shift) format.infinityCode) :
        Binary format) := by
  have scaled : significand * 2 ^ shift * denominator = significand * (denominator * 2 ^ shift) := by
    ring
  rw [ofUnits, Nat.mul_div_cancel _ positive, normal.log2_sub, scaled,
    roundHalfEven_mul _ _ (Nat.mul_pos positive (Nat.two_pow_pos _)), codeOf]

/-- A number whose units are rounded again stays as it is. -/
theorem ofUnits_units (x : Binary format) (notNan : x.isNan = false) (positive : 0 < denominator) :
    ofUnits x.negative (x.units * denominator) denominator = x := by
  obtain ⟨significand, shift, normal, units, code⟩ := x.exists_normal
  have within : x.code.val ≤ format.infinityCode := by simpa [isNan] using notNan
  rw [units, ofUnits_normal normal positive, ← code, Nat.min_eq_left within, ofCode_code]

/-- A significand that is not too long can be written as long as possible. -/
theorem exists_normal_eq (small : significand < 2 ^ (format.fractionBits + 1)) (shift : Nat) :
    ∃ longer lower, Normal format longer lower ∧ lower ≤ shift ∧
      longer * 2 ^ lower = significand * 2 ^ shift := by
  induction shift generalizing significand with
  | zero => exact ⟨significand, 0, ⟨small, .inl rfl⟩, Nat.le_refl _, rfl⟩
  | succ shift ih =>
    rcases Nat.lt_or_ge significand (2 ^ format.fractionBits) with short | long
    · have double : 2 * significand < 2 ^ (format.fractionBits + 1) := by
        rw [Nat.pow_succ]
        omega
      obtain ⟨longer, lower, normal, le, equal⟩ := ih double
      refine ⟨longer, lower, normal, Nat.le_succ_of_le le, ?_⟩
      rw [equal]
      ring
    · exact ⟨significand, shift + 1, ⟨small, .inr long⟩, Nat.le_refl _, rfl⟩

/-- A result that the format can write is exact and finite. -/
theorem ofUnits_exact (negative : Bool) (shift : Nat)
    (small : significand < 2 ^ (format.fractionBits + 1))
    (room : shift + 2 < 2 ^ format.exponentBits) (positive : 0 < denominator) :
    ∃ y : Binary format, y.negative = negative ∧ y.units = significand * 2 ^ shift ∧
      y.code.val < format.infinityCode ∧
      ofUnits negative (significand * 2 ^ shift * denominator) denominator = y := by
  obtain ⟨longer, lower, normal, le, equal⟩ := exists_normal_eq small shift
  have finite : codeOf format longer lower < format.infinityCode := by
    have short := normal.small
    rw [Nat.pow_succ] at short
    calc codeOf format longer lower
      _ < (lower + 2) * 2 ^ format.fractionBits := by
        rw [codeOf, Nat.add_mul]
        omega
      _ ≤ format.infinityCode := Nat.mul_le_mul_right _ (by omega)
  have fits := Nat.lt_trans finite format.infinityCode_lt_codes
  refine ⟨ofCode negative (codeOf format longer lower), rfl, ?_, ?_, ?_⟩
  · rw [units_ofCode normal fits, equal]
  · rw [val_ofCode fits]
    exact finite
  · rw [← equal, ofUnits_normal normal positive, Nat.min_eq_left (Nat.le_of_lt finite)]

/-! ## NaNs -/

/-- A NaN that conversions change: one whose fraction does not begin with a one. -/
def IsSignalling (x : Binary format) : Prop :=
  x.isNan = true ∧ x.fraction < 2 ^ (format.fractionBits - 1)

instance (x : Binary format) : Decidable x.IsSignalling :=
  inferInstanceAs (Decidable (_ ∧ _))

/-- The code of a NaN is that of infinity and the fraction. -/
theorem code_of_isNan {x : Binary format} (nan : x.isNan = true) :
    x.code.val = format.infinityCode + x.fraction := by
  have above : format.infinityCode < x.code.val := by simpa [isNan] using nan
  have bound : x.code.val < 2 ^ format.exponentBits * 2 ^ format.fractionBits := by
    rw [← Nat.pow_add]
    exact x.code.isLt
  have field : x.exponentField = 2 ^ format.exponentBits - 1 := by
    have less : x.exponentField < 2 ^ format.exponentBits := Nat.div_lt_of_lt_mul (by
      rwa [Nat.mul_comm])
    have enough : 2 ^ format.exponentBits - 1 ≤ x.exponentField :=
      (Nat.le_div_iff_mul_le (Nat.two_pow_pos _)).mpr above.le
    omega
  have whole : 2 ^ format.fractionBits * x.exponentField + x.fraction = x.code.val :=
    Nat.div_add_mod ..
  rw [← whole, field, Format.infinityCode, Nat.mul_comm]

/-- The codes behind infinity are those of the NaNs, by their fraction. -/
theorem ofCode_infinityCode_add (negative : Bool) {fraction : Nat}
    (small : fraction < 2 ^ format.fractionBits) :
    (ofCode negative (format.infinityCode + fraction) : Binary format).code.val =
        format.infinityCode + fraction ∧
      (ofCode negative (format.infinityCode + fraction) : Binary format).fraction = fraction := by
  have fits : format.infinityCode + fraction < format.codes := by
    have whole : 2 ^ format.exponentBits - 1 + 1 = 2 ^ format.exponentBits :=
      Nat.sub_add_cancel Nat.one_le_two_pow
    rw [Format.infinityCode, Format.codes, Nat.pow_add, ← whole, Nat.add_mul, Nat.add_sub_cancel]
    omega
  have code : (ofCode negative (format.infinityCode + fraction) : Binary format).code.val =
      format.infinityCode + fraction := val_ofCode fits
  refine ⟨code, ?_⟩
  rw [Binary.fraction, code, Format.infinityCode, Nat.mul_comm, Nat.mul_add_mod,
    Nat.mod_eq_of_lt small]

/-- A payload in the scale of another format. -/
theorem scaled_payload_lt (positive : 0 < format.fractionBits) (room : 0 < target.fractionBits)
    (x : Binary format) : x.payload * 2 ^ target.fractionBits / 2 ^ format.fractionBits <
      2 ^ (target.fractionBits - 1) := by
  have half : 2 ^ (target.fractionBits - 1) * 2 = 2 ^ target.fractionBits :=
    Nat.two_pow_pred_mul_two room
  have ownHalf : 2 ^ (format.fractionBits - 1) * 2 = 2 ^ format.fractionBits :=
    Nat.two_pow_pred_mul_two positive
  have below : x.payload < 2 ^ (format.fractionBits - 1) := Nat.mod_lt _ (Nat.two_pow_pos _)
  rw [Nat.div_lt_iff_lt_mul (Nat.two_pow_pos _)]
  calc x.payload * 2 ^ target.fractionBits
    _ < 2 ^ (format.fractionBits - 1) * 2 ^ target.fractionBits :=
      Nat.mul_lt_mul_of_pos_right below (Nat.two_pow_pos _)
    _ = 2 ^ (target.fractionBits - 1) * 2 ^ format.fractionBits := by
      rw [← half, ← ownHalf]
      ring

theorem quieted_eq {x : Binary format} {scaled : Nat}
    (scale : x.payload * 2 ^ target.fractionBits / 2 ^ format.fractionBits = scaled) :
    (x.quieted : Binary target) =
      ofCode x.negative (target.infinityCode + (2 ^ (target.fractionBits - 1) + scaled)) := by
  rw [quieted, scale]

/-- A NaN comes out of a conversion quiet, with its payload in the other scale. -/
theorem quieted_spec (positive : 0 < format.fractionBits) (room : 0 < target.fractionBits)
    (x : Binary format) : (x.quieted : Binary target).isNan = true ∧
      ¬ (x.quieted : Binary target).IsSignalling ∧
      (x.quieted : Binary target).payload =
        x.payload * 2 ^ target.fractionBits / 2 ^ format.fractionBits := by
  have half : 2 ^ (target.fractionBits - 1) * 2 = 2 ^ target.fractionBits :=
    Nat.two_pow_pred_mul_two room
  have leading := Nat.two_pow_pos (target.fractionBits - 1)
  have below := scaled_payload_lt positive room x
  simp only [quieted]
  generalize x.payload * 2 ^ target.fractionBits / 2 ^ format.fractionBits = scaled at below ⊢
  have small : 2 ^ (target.fractionBits - 1) + scaled < 2 ^ target.fractionBits := by omega
  obtain ⟨code, fraction⟩ := ofCode_infinityCode_add x.negative small
  refine ⟨?_, fun signalling => ?_, ?_⟩
  · rw [isNan, decide_eq_true_eq]
    omega
  · have short := signalling.2
    rw [fraction] at short
    omega
  · rw [payload, fraction, Nat.add_mod_left, Nat.mod_eq_of_lt below]

/-- A quiet NaN is what its sign and payload make. -/
theorem quieted_of_quiet {x : Binary format} (positive : 0 < format.fractionBits)
    (nan : x.isNan = true) (quiet : ¬ x.IsSignalling) : (x.quieted : Binary format) = x := by
  have half : 2 ^ (format.fractionBits - 1) * 2 = 2 ^ format.fractionBits :=
    Nat.two_pow_pred_mul_two positive
  have leading : 2 ^ (format.fractionBits - 1) ≤ x.fraction :=
    Nat.not_lt.mp fun short => quiet ⟨nan, short⟩
  have below : x.fraction < 2 ^ format.fractionBits := Nat.mod_lt _ (Nat.two_pow_pos _)
  have whole : 2 ^ (format.fractionBits - 1) + x.payload = x.fraction := by
    rw [payload, Nat.mod_eq_sub_mod leading, Nat.mod_eq_of_lt (by omega)]
    omega
  rw [quieted, Nat.mul_div_cancel _ (Nat.two_pow_pos _), whole, ← code_of_isNan nan, ofCode_code]

/-! ## Conversions by kind -/

theorem convert_of_finite {x : Binary format} (finite : x.code.val < format.infinityCode) :
    (x.convert : Binary target) = ofUnits x.negative (x.units * target.one) format.one := by
  have notNan : x.isNan = false := by simpa [isNan] using finite.le
  have notInfinite : x.isInfinite = false := by simpa [isInfinite] using finite.ne
  simp [convert, notNan, notInfinite]

theorem convert_of_infinite {x : Binary format} (infinite : x.code.val = format.infinityCode) :
    (x.convert : Binary target) = infinity x.negative := by
  simp [convert, isNan, isInfinite, infinite]

theorem convert_of_isNan {x : Binary format} (nan : x.isNan = true) :
    (x.convert : Binary target) = x.quieted := by
  simp [convert, nan]

/-! ## There and back -/

variable (fits : format.FitsIn target)
include fits

/-- A finite number of a format is a number of a wider one, up to the unit. -/
theorem exists_convert_eq {x : Binary format} (finite : x.code.val < format.infinityCode) :
    ∃ y : Binary target, x.convert = y ∧ y.negative = x.negative ∧
      y.units * format.one = x.units * target.one ∧ y.code.val < target.infinityCode := by
  obtain ⟨significand, shift, normal, units, code⟩ := x.exists_normal
  have small : significand < 2 ^ (target.fractionBits + 1) :=
    Nat.lt_of_lt_of_le normal.small
      (Nat.pow_le_pow_right Nat.two_pos (Nat.succ_le_succ fits.fraction))
  have low : shift + 1 < 2 ^ format.exponentBits := by
    have below : shift * 2 ^ format.fractionBits < (2 ^ format.exponentBits - 1) *
        2 ^ format.fractionBits := Nat.lt_of_le_of_lt (code ▸ Nat.le_add_right ..) finite
    have := Nat.lt_of_mul_lt_mul_right below
    omega
  have one : target.one = 2 ^ (target.unitBits - format.unitBits) * format.one := by
    rw [Format.one, Format.one, ← Nat.pow_add, Nat.sub_add_cancel fits.unit]
  have scaled : x.units * target.one =
      significand * 2 ^ (shift + (target.unitBits - format.unitBits)) * format.one := by
    rw [units, one, Nat.pow_add]
    ring
  have room := fits.room
  obtain ⟨y, sign, exact, yFinite, rounded⟩ := ofUnits_exact x.negative
    (shift + (target.unitBits - format.unitBits)) small (by omega)
    (Nat.two_pow_pos format.unitBits)
  refine ⟨y, ?_, sign, ?_, yFinite⟩
  · rw [convert_of_finite finite, scaled]
    exact rounded
  · rw [exact, scaled]

/-- A finite number comes back from a wider format as it was. -/
theorem convert_convert_of_finite {x : Binary format} (finite : x.code.val < format.infinityCode) :
    ((x.convert : Binary target).convert : Binary format) = x := by
  obtain ⟨y, converted, sign, exact, yFinite⟩ := exists_convert_eq fits finite
  have notNan : x.isNan = false := by simpa [isNan] using finite.le
  rw [converted, convert_of_finite yFinite, sign, exact]
  exact ofUnits_units x notNan (Nat.two_pow_pos _)

omit fits in
theorem convert_convert_of_infinite {x : Binary format}
    (infinite : x.code.val = format.infinityCode) :
    ((x.convert : Binary target).convert : Binary format) = x := by
  have code : (infinity x.negative : Binary target).code.val = target.infinityCode :=
    val_ofCode target.infinityCode_lt_codes
  calc ((x.convert : Binary target).convert : Binary format)
    _ = (infinity x.negative : Binary target).convert := by rw [convert_of_infinite infinite]
    _ = infinity x.negative := convert_of_infinite code
    _ = x := by rw [infinity, ← infinite, ofCode_code]

/-- A NaN comes back from a wider format quiet, and otherwise as it was. -/
theorem convert_convert_of_isNan {x : Binary format} (nan : x.isNan = true) :
    ((x.convert : Binary target).convert : Binary format) = x.quieted := by
  have room : 0 < target.fractionBits := Nat.lt_of_lt_of_le fits.payload fits.fraction
  obtain ⟨stays, -, scaled⟩ :
      (x.quieted : Binary target).isNan = true ∧ _ := quieted_spec fits.payload room x
  have wide : 2 ^ target.fractionBits =
      2 ^ (target.fractionBits - format.fractionBits) * 2 ^ format.fractionBits := by
    rw [← Nat.pow_add, Nat.sub_add_cancel fits.fraction]
  have back : (x.quieted : Binary target).payload * 2 ^ format.fractionBits /
      2 ^ target.fractionBits = x.payload := by
    rw [scaled, wide, ← Nat.mul_assoc, Nat.mul_div_cancel _ (Nat.two_pow_pos _), Nat.mul_assoc,
      Nat.mul_div_cancel _ (Nat.mul_pos (Nat.two_pow_pos _) (Nat.two_pow_pos _))]
  have same : x.payload * 2 ^ format.fractionBits / 2 ^ format.fractionBits = x.payload :=
    Nat.mul_div_cancel _ (Nat.two_pow_pos _)
  rw [convert_of_isNan nan, convert_of_isNan stays]
  exact (quieted_eq back).trans (quieted_eq same).symm

/-- A wider format gives a number back with the same bits exactly if it is no signalling NaN. -/
theorem convert_convert_eq_iff {x : Binary format} :
    ((x.convert : Binary target).convert : Binary format) = x ↔ ¬ x.IsSignalling := by
  rcases Nat.lt_trichotomy x.code.val format.infinityCode with finite | infinite | above
  · have notNan : x.isNan = false := by simpa [isNan] using finite.le
    simp [convert_convert_of_finite fits finite, IsSignalling, notNan]
  · have notNan : x.isNan = false := by simp [isNan, infinite]
    simp [convert_convert_of_infinite infinite, IsSignalling, notNan]
  · have nan : x.isNan = true := by simpa [isNan] using above
    rw [convert_convert_of_isNan fits nan]
    constructor
    · intro same signalling
      obtain ⟨-, quiet, -⟩ :
          (x.quieted : Binary format).isNan = true ∧ _ := quieted_spec fits.payload fits.payload x
      rw [same] at quiet
      exact quiet signalling
    · exact quieted_of_quiet fits.payload nan

end Binary

end ExprLang
