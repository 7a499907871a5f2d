import ExprLang.Expr.Literal
import Mathlib.Computability.RegularExpressions
import Mathlib.Tactic.IntervalCases

/-!
# The grammar of numerals

The two regular grammars of numeric atoms, `[-+]?[0-9]+(u|l|ul)?` for integers and
`[-+]?([0-9]*\.)?[0-9]+([eE][-+]?[0-9]+)?[fm]?` for real numbers, and what a text of each of them
writes. `WritesInteger` and `WritesReal` read a text by its parts; the grammars are exactly the texts
that can be read so, with a suffix behind them (`mem_integer_iff`, `mem_real_iff`).
-/

namespace ExprLang

def IntKind.suffix : IntKind → String
  | .int => ""
  | .uint => "u"
  | .long => "l"
  | .ulong => "ul"

namespace Literal

/-! ## Regular expressions -/

namespace Grammar

open RegularExpression (char star)

def oneOf (chars : List Char) : RegularExpression Char :=
  (chars.map char).sum

def optional (part : RegularExpression Char) : RegularExpression Char :=
  1 + part

def digit : RegularExpression Char :=
  oneOf ['0', '1', '2', '3', '4', '5', '6', '7', '8', '9']

def digits : RegularExpression Char :=
  digit * star digit

def sign : RegularExpression Char :=
  optional (oneOf ['-', '+'])

def integerSuffix : RegularExpression Char :=
  optional (char 'u' + char 'l' + char 'u' * char 'l')

/-- Integer numerals, `[-+]?[0-9]+(u|l|ul)?`. -/
def integer : RegularExpression Char :=
  sign * digits * integerSuffix

/-- Digits with a point among or before them. -/
def mantissa : RegularExpression Char :=
  optional (star digit * char '.') * digits

def exponent : RegularExpression Char :=
  optional (oneOf ['e', 'E'] * (sign * digits))

/-- Real numerals, `[-+]?([0-9]*\.)?[0-9]+([eE][-+]?[0-9]+)?[fm]?`. -/
def real : RegularExpression Char :=
  sign * (mantissa * exponent) * optional (oneOf ['f', 'm'])

variable {text : List Char}

theorem mem_oneOf {chars : List Char} : text ∈ (oneOf chars).matches' ↔ ∃ c ∈ chars, text = [c] := by
  induction chars with
  | nil =>
    simp only [List.not_mem_nil, false_and, exists_false, iff_false]
    exact Set.notMem_empty text
  | cons first rest ih =>
    simp only [List.mem_cons, exists_eq_or_imp, ← ih]
    exact Iff.rfl

theorem mem_optional {part : RegularExpression Char} :
    text ∈ (optional part).matches' ↔ text = [] ∨ text ∈ part.matches' :=
  Iff.rfl

theorem mem_mul {first second : RegularExpression Char} :
    text ∈ (first * second).matches' ↔
      ∃ front ∈ first.matches', ∃ back ∈ second.matches', front ++ back = text :=
  Language.mem_mul

/-- The digits of the grammar are the decimal digits. -/
theorem mem_digit : text ∈ digit.matches' ↔ ∃ c, isDigit c = true ∧ text = [c] := by
  have listed (c : Char) : c ∈ ['0', '1', '2', '3', '4', '5', '6', '7', '8', '9'] ↔
      isDigit c = true := by
    constructor
    · intro here
      have all : ['0', '1', '2', '3', '4', '5', '6', '7', '8', '9'].all isDigit = true := rfl
      exact List.all_eq_true.mp all c here
    · intro digit
      simp only [isDigit, Bool.and_eq_true, decide_eq_true_eq, Char.le_def,
        UInt32.le_iff_toNat_le] at digit
      obtain ⟨lower, upper⟩ := digit
      have same : c = Char.ofNat c.toNat := (Char.ofNat_toNat c).symm
      have least : 48 ≤ c.toNat := lower
      have greatest : c.toNat ≤ 57 := upper
      generalize c.toNat = code at *
      interval_cases code <;> simp [same]
  rw [digit, mem_oneOf]
  exact exists_congr fun c => and_congr_left' (listed c)

/-- A run of digits is matched digit by digit. -/
theorem mem_star_digit : text ∈ (star digit).matches' ↔ text.all isDigit = true := by
  rw [RegularExpression.matches'_star, Language.mem_kstar]
  constructor
  · rintro ⟨parts, rfl, all⟩
    rw [List.all_eq_true]
    intro c here
    obtain ⟨part, within, here⟩ := List.mem_flatten.mp here
    obtain ⟨digit, isDigit, rfl⟩ := mem_digit.mp (all part within)
    rwa [List.mem_singleton.mp here]
  · intro all
    refine ⟨text.map ([·]), ?_, ?_⟩
    · rw [← List.flatMap_def, List.flatMap_singleton']
    · intro part within
      obtain ⟨c, here, rfl⟩ := List.mem_map.mp within
      exact mem_digit.mpr ⟨c, List.all_eq_true.mp all c here, rfl⟩

theorem mem_digits : text ∈ digits.matches' ↔ isDigits text = true := by
  rw [digits, mem_mul]
  constructor
  · rintro ⟨front, first, back, rest, rfl⟩
    obtain ⟨c, digit, rfl⟩ := mem_digit.mp first
    simp [isDigits, digit, mem_star_digit.mp rest]
  · intro all
    cases text with
    | nil => cases all
    | cons c rest =>
      simp only [isDigits, List.isEmpty_cons, Bool.not_false, Bool.true_and, List.all_cons,
        Bool.and_eq_true] at all
      exact ⟨[c], mem_digit.mpr ⟨c, all.1, rfl⟩, rest, mem_star_digit.mpr all.2, rfl⟩

theorem mem_integerSuffix :
    text ∈ integerSuffix.matches' ↔ ∃ kind : IntKind, text = kind.suffix.toList := by
  have both : text ∈ (char 'u' * char 'l').matches' ↔ text = ['u', 'l'] := by
    rw [mem_mul]
    constructor
    · rintro ⟨front, rfl, back, rfl, rfl⟩
      rfl
    · rintro rfl
      exact ⟨['u'], rfl, ['l'], rfl, rfl⟩
  have choices : text ∈ integerSuffix.matches' ↔
      text = [] ∨ (text = ['u'] ∨ text = ['l']) ∨ text = ['u', 'l'] := by
    rw [← both]
    exact Iff.rfl
  rw [choices]
  constructor
  · rintro (rfl | (rfl | rfl) | rfl)
    · exact ⟨.int, rfl⟩
    · exact ⟨.uint, rfl⟩
    · exact ⟨.long, rfl⟩
    · exact ⟨.ulong, rfl⟩
  · rintro ⟨kind, rfl⟩
    cases kind <;> decide

end Grammar

/-! ## What numerals write -/

/-- Behind an optional sign a text goes on with some characters. The flag says whether the sign is a
minus. -/
inductive Signed : List Char → Bool → List Char → Prop where
  | minus (rest : List Char) : Signed ('-' :: rest) true rest
  | plus (rest : List Char) : Signed ('+' :: rest) false rest
  | unsigned (rest : List Char) : Signed rest false rest

/-- An optional sign and digits write an integer. -/
inductive WritesInteger (text : List Char) : Int → Prop where
  | intro {negative : Bool} {digits : List Char} (sign : Signed text negative digits)
      (all : isDigits digits = true) :
      WritesInteger text
        (if negative then -(Nat.ofDigitChars 10 digits 0 : Int) else Nat.ofDigitChars 10 digits 0)

/-- Digits write a mantissa without places, and a point with a digit behind it one with places. -/
inductive WritesMantissa : List Char → List Char → List Char → Prop where
  | whole {digits : List Char} (all : isDigits digits = true) : WritesMantissa digits digits []
  | point {whole places : List Char} (before : whole.all isDigit = true)
      (behind : isDigits places = true) : WritesMantissa (whole ++ '.' :: places) whole places

/-- An exponent may be left out. -/
inductive WritesExponent : List Char → Option Int → Prop where
  | none : WritesExponent [] none
  | some {mark : Char} {power : List Char} {n : Int} (marked : mark = 'e' ∨ mark = 'E')
      (written : WritesInteger power n) : WritesExponent (mark :: power) (some n)

inductive WritesReal (text : List Char) : RealNumeral → Prop where
  | intro {negative : Bool} {mantissa power whole places : List Char} {exponent : Option Int}
      (sign : Signed text negative (mantissa ++ power))
      (number : WritesMantissa mantissa whole places) (scale : WritesExponent power exponent) :
      WritesReal text ⟨negative, whole, places, exponent⟩

inductive RealSuffix : Ty → List Char → Prop where
  | float : RealSuffix .float ['f']
  | decimal : RealSuffix .decimal ['m']
  | double : RealSuffix .double []

namespace Grammar

open RegularExpression (star)

variable {text : List Char} {part : RegularExpression Char}

theorem mem_sign_mul : text ∈ (sign * part).matches' ↔
    ∃ negative rest, Signed text negative rest ∧ rest ∈ part.matches' := by
  rw [mem_mul]
  constructor
  · rintro ⟨front, first, back, rest, rfl⟩
    rcases mem_optional.mp first with rfl | signed
    · exact ⟨false, back, .unsigned back, rest⟩
    · obtain ⟨c, listed, rfl⟩ := mem_oneOf.mp signed
      rcases List.mem_pair.mp listed with rfl | rfl
      · exact ⟨true, back, .minus back, rest⟩
      · exact ⟨false, back, .plus back, rest⟩
  · rintro ⟨negative, rest, signed, inside⟩
    cases signed with
    | minus => exact ⟨['-'], by decide, rest, inside, rfl⟩
    | plus => exact ⟨['+'], by decide, rest, inside, rfl⟩
    | unsigned => exact ⟨[], by decide, _, inside, rfl⟩

theorem mem_sign_mul_digits : text ∈ (sign * digits).matches' ↔ ∃ n, WritesInteger text n := by
  rw [mem_sign_mul]
  constructor
  · rintro ⟨negative, rest, signed, all⟩
    exact ⟨_, .intro signed (mem_digits.mp all)⟩
  · rintro ⟨n, ⟨signed, all⟩⟩
    exact ⟨_, _, signed, mem_digits.mpr all⟩

/-- Integer numerals are what writes an integer, and a suffix. -/
theorem mem_integer_iff : text ∈ integer.matches' ↔
    ∃ (kind : IntKind) (body : List Char) (n : Int),
      text = body ++ kind.suffix.toList ∧ WritesInteger body n := by
  rw [integer, mem_mul]
  constructor
  · rintro ⟨body, written, ending, suffix, rfl⟩
    obtain ⟨n, written⟩ := mem_sign_mul_digits.mp written
    obtain ⟨kind, rfl⟩ := mem_integerSuffix.mp suffix
    exact ⟨kind, body, n, rfl, written⟩
  · rintro ⟨kind, body, n, rfl, written⟩
    exact ⟨body, mem_sign_mul_digits.mpr ⟨n, written⟩, _, mem_integerSuffix.mpr ⟨kind, rfl⟩, rfl⟩

theorem mem_mantissa :
    text ∈ mantissa.matches' ↔ ∃ whole places, WritesMantissa text whole places := by
  rw [mantissa, mem_mul]
  constructor
  · rintro ⟨front, first, back, behind, rfl⟩
    have behind := mem_digits.mp behind
    rcases mem_optional.mp first with rfl | pointed
    · exact ⟨back, [], .whole behind⟩
    · obtain ⟨whole, before, point, rfl, rfl⟩ := mem_mul.mp pointed
      rw [List.append_assoc]
      exact ⟨whole, back, .point (mem_star_digit.mp before) behind⟩
  · rintro ⟨whole, places, written⟩
    cases written with
    | whole all => exact ⟨[], mem_optional.mpr (.inl rfl), text, mem_digits.mpr all, rfl⟩
    | point before behind =>
      refine ⟨whole ++ ['.'], ?_, places, mem_digits.mpr behind, List.append_assoc ..⟩
      exact mem_optional.mpr (.inr (mem_mul.mpr ⟨whole, mem_star_digit.mpr before, ['.'], rfl, rfl⟩))

theorem mem_exponent : text ∈ exponent.matches' ↔ ∃ power, WritesExponent text power := by
  rw [exponent, mem_optional, mem_mul]
  constructor
  · rintro (rfl | ⟨front, marked, power, written, rfl⟩)
    · exact ⟨none, .none⟩
    · obtain ⟨mark, listed, rfl⟩ := mem_oneOf.mp marked
      obtain ⟨n, written⟩ := mem_sign_mul_digits.mp written
      exact ⟨some n, .some (List.mem_pair.mp listed) written⟩
  · rintro ⟨power, written⟩
    cases written with
    | none => exact .inl rfl
    | some marked written =>
      exact .inr ⟨[_], mem_oneOf.mpr ⟨_, List.mem_pair.mpr marked, rfl⟩, _,
        mem_sign_mul_digits.mpr ⟨_, written⟩, rfl⟩

theorem mem_realSuffix :
    text ∈ (optional (oneOf ['f', 'm'])).matches' ↔ ∃ ty, RealSuffix ty text := by
  rw [mem_optional, mem_oneOf]
  constructor
  · rintro (rfl | ⟨c, listed, rfl⟩)
    · exact ⟨_, .double⟩
    · rcases List.mem_pair.mp listed with rfl | rfl
      · exact ⟨_, .float⟩
      · exact ⟨_, .decimal⟩
  · rintro ⟨ty, suffix⟩
    cases suffix with
    | float => exact .inr ⟨'f', by decide, rfl⟩
    | decimal => exact .inr ⟨'m', by decide, rfl⟩
    | double => exact .inl rfl

/-- Real numerals are what writes a number with an optional point and exponent, and a suffix. -/
theorem mem_real_iff : text ∈ real.matches' ↔
    ∃ (ty : Ty) (body suffix : List Char) (numeral : RealNumeral),
      text = body ++ suffix ∧ RealSuffix ty suffix ∧ WritesReal body numeral := by
  rw [real, mem_mul]
  constructor
  · rintro ⟨body, written, suffix, ending, rfl⟩
    obtain ⟨negative, rest, sign, inside⟩ := mem_sign_mul.mp written
    obtain ⟨front, first, power, last, rfl⟩ := mem_mul.mp inside
    obtain ⟨whole, places, number⟩ := mem_mantissa.mp first
    obtain ⟨exponent, scale⟩ := mem_exponent.mp last
    obtain ⟨ty, ending⟩ := mem_realSuffix.mp ending
    exact ⟨ty, body, suffix, _, rfl, ending, .intro sign number scale⟩
  · rintro ⟨ty, body, suffix, numeral, rfl, ending, ⟨sign, number, scale⟩⟩
    have first := mem_mantissa.mpr ⟨_, _, number⟩
    have last := mem_exponent.mpr ⟨_, scale⟩
    have inside := mem_mul.mpr ⟨_, first, _, last, rfl⟩
    have written := mem_sign_mul.mpr ⟨_, _, sign, inside⟩
    exact ⟨body, written, suffix, mem_realSuffix.mpr ⟨ty, ending⟩, rfl⟩

example : ".5e+3m".toList ∈ real.matches' ∧ "5.".toList ∉ real.matches' := by decide

end Grammar

end Literal

end ExprLang
