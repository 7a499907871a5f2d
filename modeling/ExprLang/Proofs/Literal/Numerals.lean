import ExprLang.Proofs.Elaboration.Derivation
import ExprLang.Proofs.Literal.Grammar
import ExprLang.Proofs.Number.Word
import Mathlib.Data.List.TakeWhile

/-!
# Numeric atoms

The functions that take numerals apart find exactly what the grammar says that a text writes
(`integerNumeral?_eq_some_iff`, `realNumeral?_eq_some_iff`). They take a sign off the front and a
suffix off the end and split at the first mark, which is right because digits are neither signs nor
suffixes nor marks.
-/

namespace ExprLang

namespace Literal

variable {text body digits power : List Char} {negative : Bool} {kind : IntKind} {n : Int}

/-! ## Digits -/

theorem digitsValue_eq (digits : List Char) : digitsValue digits = Nat.ofDigitChars 10 digits 0 :=
  Nat.ofDigitChars_eq_foldl.symm

theorem isDigit_of_mem {c : Char} (all : isDigits digits = true) (here : c ∈ digits) :
    isDigit c = true := by
  simp only [isDigits, Bool.and_eq_true, List.all_eq_true] at all
  exact all.2 c here

theorem exists_cons_of_isDigits (all : isDigits digits = true) :
    ∃ c rest, digits = c :: rest ∧ isDigit c = true := by
  cases digits with
  | nil => cases all
  | cons c rest => exact ⟨c, rest, rfl, isDigit_of_mem all List.mem_cons_self⟩

/-- A character that is no digit does not stand among digits. -/
theorem notMem_of_isDigits {c : Char} (all : isDigits digits = true) (other : isDigit c = false) :
    c ∉ digits := by
  intro here
  have digit := isDigit_of_mem all here
  rw [other] at digit
  cases digit

/-! ## Signs -/

theorem signed_splitSign (text : List Char) : Signed text (splitSign text).1 (splitSign text).2 := by
  unfold splitSign
  split
  · exact .minus _
  · exact .plus _
  · exact .unsigned _

/-- A text that goes on with no sign has only one to split off. -/
theorem splitSign_of_signed {c : Char} {rest : List Char} (signed : Signed text negative (c :: rest))
    (noMinus : c ≠ '-') (noPlus : c ≠ '+') : splitSign text = (negative, c :: rest) := by
  cases signed with
  | minus | plus => rfl
  | unsigned =>
    unfold splitSign
    split
    · next same => exact absurd (List.cons.inj same).1 noMinus
    · next same => exact absurd (List.cons.inj same).1 noPlus
    · rfl

theorem splitSign_of_digit {c : Char} {rest : List Char} (signed : Signed text negative (c :: rest))
    (digit : isDigit c = true) : splitSign text = (negative, c :: rest) := by
  refine splitSign_of_signed signed ?_ ?_ <;>
    · rintro rfl
      cases digit

theorem Signed.append {rest : List Char} (signed : Signed text negative rest) (back : List Char) :
    Signed (text ++ back) negative (rest ++ back) := by
  cases signed with
  | minus => exact .minus _
  | plus => exact .plus _
  | unsigned => exact .unsigned _

/-- What follows a sign can be cut off behind it. -/
theorem Signed.exists_append {rest back : List Char} (signed : Signed text negative (rest ++ back)) :
    ∃ body, text = body ++ back ∧ Signed body negative rest := by
  cases signed with
  | minus => exact ⟨'-' :: rest, rfl, .minus rest⟩
  | plus => exact ⟨'+' :: rest, rfl, .plus rest⟩
  | unsigned => exact ⟨rest, rfl, .unsigned rest⟩

/-- A sign and digits are read as the integer that they write. -/
theorem exponent?_eq_some_iff : exponent? power = some n ↔ WritesInteger power n := by
  constructor
  · intro read
    simp only [exponent?] at read
    split at read
    · next all =>
      cases read
      rw [digitsValue_eq]
      exact .intro (signed_splitSign power) all
    · cases read
  · rintro ⟨signed, all⟩
    obtain ⟨c, rest, rfl, digit⟩ := exists_cons_of_isDigits all
    simp only [exponent?, splitSign_of_digit signed digit, all, digitsValue_eq, ↓reduceIte]

/-! ## Suffixes -/

theorem dropEnding?_eq_some_iff {ending : List Char} :
    dropEnding? ending text = some body ↔ text = body ++ ending := by
  unfold dropEnding?
  constructor
  · intro dropped
    split at dropped
    · next ends =>
      cases dropped
      exact (List.suffix_iff_eq_append.mp (List.isSuffixOf_iff_suffix.mp ends)).symm
    · cases dropped
  · rintro rfl
    have ends : ending.isSuffixOf (body ++ ending) = true :=
      List.isSuffixOf_iff_suffix.mpr (List.suffix_append body ending)
    simp [ends]

theorem dropEnding?_eq_none {ending : List Char} (other : ∀ body, text ≠ body ++ ending) :
    dropEnding? ending text = none := by
  cases dropped : dropEnding? ending text with
  | none => rfl
  | some body => exact absurd (dropEnding?_eq_some_iff.mp dropped) (other body)

/-- Texts with other last characters differ. -/
theorem append_ne_append {front back : List Char} {c d : Char} (other : c ≠ d) :
    front ++ [c] ≠ back ++ [d] := by
  intro same
  exact other (List.singleton_inj.mp (List.append_inj' same rfl).2)

/-- A text without a character does not end with it. -/
theorem ne_append_of_notMem {c : Char} (absent : c ∉ text) (body : List Char) :
    text ≠ body ++ [c] := by
  rintro rfl
  exact absent (List.mem_append_right body (List.mem_singleton_self c))

theorem eq_append_of_integerSuffix (split : integerSuffix text = (kind, digits)) :
    text = digits ++ kind.suffix.toList := by
  unfold integerSuffix at split
  split at split
  · next dropped =>
    cases split
    exact dropEnding?_eq_some_iff.mp dropped
  · next dropped =>
    cases split
    exact dropEnding?_eq_some_iff.mp dropped
  · next dropped =>
    cases split
    exact dropEnding?_eq_some_iff.mp dropped
  · cases split
    exact (List.append_nil _).symm

/-- The suffix behind digits is found. -/
theorem integerSuffix_append (all : isDigits digits = true) (kind : IntKind) :
    integerSuffix (digits ++ kind.suffix.toList) = (kind, digits) := by
  have noU : 'u' ∉ digits := notMem_of_isDigits all rfl
  have noL : 'l' ∉ digits := notMem_of_isDigits all rfl
  have drops (ending : List Char) : dropEnding? ending (digits ++ ending) = some digits :=
    dropEnding?_eq_some_iff.mpr rfl
  have doubled (body : List Char) : body ++ ['u', 'l'] = (body ++ ['u']) ++ ['l'] := by simp
  cases kind with
  | int =>
    have noUL : dropEnding? ['u', 'l'] digits = none :=
      dropEnding?_eq_none fun body => by
        rw [doubled]
        exact ne_append_of_notMem noL _
    have same : digits ++ IntKind.int.suffix.toList = digits := List.append_nil digits
    simp only [same, integerSuffix, noUL, dropEnding?_eq_none (ne_append_of_notMem noU),
      dropEnding?_eq_none (ne_append_of_notMem noL)]
  | uint =>
    have noUL : dropEnding? ['u', 'l'] (digits ++ ['u']) = none :=
      dropEnding?_eq_none fun body => by
        rw [doubled]
        exact append_ne_append (by decide)
    have same : digits ++ IntKind.uint.suffix.toList = digits ++ ['u'] := rfl
    simp only [same, integerSuffix, noUL, drops]
  | long =>
    -- Digits and `l` end with `ul` only if the digits end with `u`.
    have noUL : dropEnding? ['u', 'l'] (digits ++ ['l']) = none :=
      dropEnding?_eq_none fun body same => by
        rw [doubled] at same
        exact ne_append_of_notMem noU _ (List.append_inj_left' same rfl)
    have noSuffix : dropEnding? ['u'] (digits ++ ['l']) = none :=
      dropEnding?_eq_none fun body => append_ne_append (by decide)
    have same : digits ++ IntKind.long.suffix.toList = digits ++ ['l'] := rfl
    simp only [same, integerSuffix, noUL, noSuffix, drops]
  | ulong =>
    have same : digits ++ IntKind.ulong.suffix.toList = digits ++ ['u', 'l'] := rfl
    simp only [same, integerSuffix, drops]

/-- Integer numerals are read as what they write. -/
theorem integerNumeral?_eq_some_iff : integerNumeral? text = some (kind, n) ↔
    ∃ body, text = body ++ kind.suffix.toList ∧ WritesInteger body n := by
  constructor
  · intro read
    simp only [integerNumeral?] at read
    split at read
    · next all =>
      cases read
      have signed := signed_splitSign text
      have behind : (splitSign text).2 = _ := eq_append_of_integerSuffix rfl
      rw [behind] at signed
      obtain ⟨body, same, signed⟩ := signed.exists_append
      rw [digitsValue_eq]
      exact ⟨body, same, .intro signed all⟩
    · cases read
  · rintro ⟨body, rfl, @⟨negative, _, signed, all⟩⟩
    obtain ⟨c, rest, rfl, digit⟩ := exists_cons_of_isDigits all
    have split : splitSign (body ++ kind.suffix.toList) =
        (negative, c :: rest ++ kind.suffix.toList) :=
      splitSign_of_digit (signed.append kind.suffix.toList) digit
    simp only [integerNumeral?, split, integerSuffix_append all kind, all, digitsValue_eq,
      ↓reduceIte]

/-! ## Mantissas and exponents -/

/-- What a text is split into in front of the first character that is unlike the ones before. -/
theorem takeWhile_append_cons {p : Char → Bool} {front back : List Char} {c : Char}
    (alike : ∀ c ∈ front, p c = true) (unlike : p c = false) :
    (front ++ c :: back).takeWhile p = front ∧ (front ++ c :: back).dropWhile p = c :: back := by
  rw [List.takeWhile_append_of_pos alike, List.dropWhile_append_of_pos alike]
  simp [unlike]

theorem takeWhile_of_all {p : Char → Bool} (alike : ∀ c ∈ text, p c = true) :
    text.takeWhile p = text ∧ text.dropWhile p = [] :=
  ⟨List.takeWhile_eq_self_iff.mpr alike, List.dropWhile_eq_nil_iff.mpr alike⟩

/-- Mantissas are read as what they write. -/
theorem mantissa?_eq_some_iff {whole places : List Char} :
    mantissa? text = some (whole, places) ↔ WritesMantissa text whole places := by
  constructor
  · intro read
    have parts := List.takeWhile_append_dropWhile (p := (· != '.')) (l := text)
    simp only [mantissa?] at read
    split at read
    · next noPoint =>
      rw [noPoint, List.append_nil] at parts
      rw [parts] at read
      split at read
      · next all =>
        cases read
        exact .whole all
      · cases read
    · next point behind split =>
      have isPoint : point = '.' := by
        have unlike := List.head?_dropWhile_not (· != '.') text
        simpa [split] using unlike
      split at read
      · next all =>
        cases read
        rw [Bool.and_eq_true] at all
        rw [split, isPoint] at parts
        have written := WritesMantissa.point all.1 all.2
        rwa [parts] at written
      · cases read
  · intro written
    have noPoint {c : Char} (digit : isDigit c = true) : (c != '.') = true := by
      rw [bne_iff_ne]
      rintro rfl
      cases digit
    cases written with
    | whole all =>
      have split := takeWhile_of_all fun c here => noPoint (isDigit_of_mem all here)
      simp only [mantissa?, split, all, ↓reduceIte]
    | point before behind =>
      have split := @takeWhile_append_cons (· != '.') whole places '.'
        (fun c here => noPoint (List.all_eq_true.mp before c here)) rfl
      simp only [mantissa?, split, before, behind, Bool.and_self, ↓reduceIte]

theorem isExponentMark_iff {c : Char} : isExponentMark c = true ↔ c = 'e' ∨ c = 'E' := by
  simp [isExponentMark]

/-- What holds of the digits and of the point holds of all characters of a mantissa. -/
theorem WritesMantissa.forall_mem {p : Char → Prop} {whole places : List Char}
    (written : WritesMantissa text whole places) (digits : ∀ c, isDigit c = true → p c)
    (point : p '.') : ∀ c ∈ text, p c := by
  cases written with
  | whole all => exact fun c here => digits c (isDigit_of_mem all here)
  | point before behind =>
    intro c here
    rcases List.mem_append.mp here with here | here
    · exact digits c (List.all_eq_true.mp before c here)
    · rcases List.mem_cons.mp here with rfl | here
      · exact point
      · exact digits c (isDigit_of_mem behind here)

/-- Digits and points introduce no exponent. -/
theorem WritesMantissa.noMark {whole places : List Char}
    (written : WritesMantissa text whole places) : ∀ c ∈ text, (!isExponentMark c) = true := by
  refine written.forall_mem (fun c digit => ?_) rfl
  rw [Bool.not_eq_true', Bool.eq_false_iff, ne_eq, isExponentMark_iff]
  rintro (rfl | rfl) <;> cases digit

/-- The first character of a mantissa is no sign. -/
theorem WritesMantissa.exists_cons {whole places : List Char}
    (written : WritesMantissa text whole places) :
    ∃ c rest, text = c :: rest ∧ c ≠ '-' ∧ c ≠ '+' := by
  have unsigned : ∀ c ∈ text, c ≠ '-' ∧ c ≠ '+' := by
    refine written.forall_mem (fun c digit => ?_) (by decide)
    constructor <;>
      · rintro rfl
        cases digit
  have notEmpty : text ≠ [] := by
    cases written with
    | whole all =>
      rintro rfl
      cases all
    | point => exact List.append_ne_nil_of_right_ne_nil _ (List.cons_ne_nil _ _)
  obtain ⟨c, rest, rfl⟩ := List.exists_cons_of_ne_nil notEmpty
  exact ⟨c, rest, rfl, unsigned c List.mem_cons_self⟩

/-- Real numerals are read as what they write. -/
theorem realNumeral?_eq_some_iff {numeral : RealNumeral} :
    realNumeral? text = some numeral ↔ WritesReal text numeral := by
  constructor
  · intro read
    have signed := signed_splitSign text
    have parts := List.takeWhile_append_dropWhile (p := fun c => !isExponentMark c)
      (l := (splitSign text).2)
    rw [← parts] at signed
    simp only [realNumeral?] at read
    split at read
    · cases read
    · next whole places number noPower =>
      cases read
      rw [noPower] at signed
      exact .intro signed (mantissa?_eq_some_iff.mp number) .none
    · next whole places mark power number split =>
      obtain ⟨n, scale, rfl⟩ := Option.map_eq_some_iff.mp read
      have marked := List.head?_dropWhile_not (fun c => !isExponentMark c) (splitSign text).2
      rw [split] at signed marked
      have marked : isExponentMark mark = true := by simpa using marked
      exact .intro signed (mantissa?_eq_some_iff.mp number)
        (.some (isExponentMark_iff.mp marked) (exponent?_eq_some_iff.mp scale))
  · rintro @⟨negative, mantissa, power, whole, places, exponent, signed, number, scale⟩
    -- A mantissa starts with no sign and contains no mark, so the text is taken apart at its seams.
    obtain ⟨c, rest, rfl, noMinus, noPlus⟩ := number.exists_cons
    have split : splitSign text = (negative, c :: rest ++ power) :=
      splitSign_of_signed signed noMinus noPlus
    have noMark := number.noMark
    have read := mantissa?_eq_some_iff.mpr number
    cases scale with
    | none =>
      rw [List.append_nil] at split
      simp only [realNumeral?, split, takeWhile_of_all noMark, read]
    | @some mark power n marked written =>
      have unlike : (!isExponentMark mark) = false := by
        rw [isExponentMark_iff.mpr marked, Bool.not_true]
      have cut := @takeWhile_append_cons _ _ power mark noMark unlike
      simp only [realNumeral?, split, cut, read, exponent?_eq_some_iff.mpr written, Option.map_some]

/-! ## The characters of numerals -/

/-- The characters of numerals without a suffix. -/
def isNumeric (c : Char) : Bool :=
  isDigit c || c == '-' || c == '+' || c == '.' || c == 'e' || c == 'E'

theorem isNumeric_of_digit {c : Char} (digit : isDigit c = true) : isNumeric c = true := by
  simp [isNumeric, digit]

theorem Signed.numeric {rest : List Char} (signed : Signed text negative rest)
    (behind : ∀ c ∈ rest, isNumeric c = true) : ∀ c ∈ text, isNumeric c = true := by
  cases signed with
  | minus | plus =>
    intro c here
    rcases List.mem_cons.mp here with rfl | here
    · rfl
    · exact behind c here
  | unsigned => exact behind

theorem WritesInteger.numeric (written : WritesInteger text n) : ∀ c ∈ text, isNumeric c = true := by
  obtain ⟨signed, all⟩ := written
  exact signed.numeric fun c here => isNumeric_of_digit (isDigit_of_mem all here)

theorem WritesMantissa.numeric {whole places : List Char}
    (written : WritesMantissa text whole places) : ∀ c ∈ text, isNumeric c = true :=
  written.forall_mem (fun _ => isNumeric_of_digit) rfl

theorem WritesExponent.numeric {exponent : Option Int} (written : WritesExponent text exponent) :
    ∀ c ∈ text, isNumeric c = true := by
  cases written with
  | none => exact fun c here => absurd here List.not_mem_nil
  | some marked power =>
    intro c here
    rcases List.mem_cons.mp here with rfl | here
    · rcases marked with rfl | rfl <;> rfl
    · exact power.numeric c here

theorem WritesReal.numeric {numeral : RealNumeral} (written : WritesReal text numeral) :
    ∀ c ∈ text, isNumeric c = true := by
  obtain ⟨sign, number, scale⟩ := written
  refine sign.numeric fun c here => ?_
  rcases List.mem_append.mp here with here | here
  · exact number.numeric c here
  · exact scale.numeric c here

/-- A numeral without its suffix has no other character. -/
theorem notMem_of_numeric {c : Char} (numeric : ∀ c ∈ text, isNumeric c = true)
    (other : isNumeric c = false) : c ∉ text := by
  intro here
  have inside := numeric c here
  rw [other] at inside
  cases inside

/-! ## The suffixes of real numerals -/

theorem exists_realSuffix {ty : Ty} (split : realSuffix text = (ty, body)) :
    ∃ suffix, text = body ++ suffix ∧ RealSuffix ty suffix := by
  unfold realSuffix at split
  split at split
  · next dropped =>
    cases split
    exact ⟨_, dropEnding?_eq_some_iff.mp dropped, .float⟩
  · next dropped =>
    cases split
    exact ⟨_, dropEnding?_eq_some_iff.mp dropped, .decimal⟩
  · cases split
    exact ⟨[], (List.append_nil _).symm, .double⟩

/-- The suffix behind a real numeral is found. -/
theorem realSuffix_append {ty : Ty} {suffix : List Char}
    (numeric : ∀ c ∈ body, isNumeric c = true) (ending : RealSuffix ty suffix) :
    realSuffix (body ++ suffix) = (ty, body) := by
  have drops (ending : List Char) : dropEnding? ending (body ++ ending) = some body :=
    dropEnding?_eq_some_iff.mpr rfl
  cases ending with
  | float => simp only [realSuffix, drops]
  | decimal =>
    have noFloat : dropEnding? ['f'] (body ++ ['m']) = none :=
      dropEnding?_eq_none fun _ => append_ne_append (by decide)
    simp only [realSuffix, noFloat, drops]
  | double =>
    have noF : 'f' ∉ body := notMem_of_numeric numeric rfl
    have noM : 'm' ∉ body := notMem_of_numeric numeric rfl
    simp only [List.append_nil, realSuffix, dropEnding?_eq_none (ne_append_of_notMem noF),
      dropEnding?_eq_none (ne_append_of_notMem noM)]

/-! ## The numbers of atoms -/

theorem integerNumeral?_eq_none_iff :
    integerNumeral? text = none ↔ text ∉ Grammar.integer.matches' := by
  rw [← not_iff_not, not_not, Grammar.mem_integer_iff, ← ne_eq, Option.ne_none_iff_exists']
  constructor
  · rintro ⟨⟨kind, n⟩, read⟩
    obtain ⟨body, same, written⟩ := integerNumeral?_eq_some_iff.mp read
    exact ⟨kind, body, n, same, written⟩
  · rintro ⟨kind, body, n, same, written⟩
    exact ⟨_, integerNumeral?_eq_some_iff.mpr ⟨body, same, written⟩⟩

/-- The number of an integer numeral. -/
theorem number?_integer {text : String} (same : text.toList = body ++ kind.suffix.toList)
    (written : WritesInteger body n) :
    number? text = match kind.ofInt? n with
      | some word => .ok (some (.integer kind word))
      | none => .error (.integerOutOfRange text (.integer kind)) := by
  have read : integerNumeral? text.toList = some (kind, n) :=
    integerNumeral?_eq_some_iff.mpr ⟨body, same, written⟩
  cases ranged : kind.ofInt? n <;> simp only [number?, read, ranged]

/-- The number of a real numeral that is no integer numeral. -/
theorem number?_real {text : String} {ty : Ty} {suffix : List Char} {numeral : RealNumeral}
    (noInteger : text.toList ∉ Grammar.integer.matches') (same : text.toList = body ++ suffix)
    (ending : RealSuffix ty suffix) (written : WritesReal body numeral) :
    number? text = match realDatum? numeral ty with
      | some datum => .ok (some datum)
      | none => .error (.invalidLiteral text ty) := by
  have split : realSuffix text.toList = (ty, body) := by
    rw [same, realSuffix_append written.numeric ending]
  have noNumeral := integerNumeral?_eq_none_iff.mpr noInteger
  have read := realNumeral?_eq_some_iff.mpr written
  cases converted : realDatum? numeral ty <;> simp only [number?, noNumeral, split, read, converted]

/-- An atom of neither grammar is no number. -/
theorem number?_name {text : String} (noInteger : text.toList ∉ Grammar.integer.matches')
    (noReal : text.toList ∉ Grammar.real.matches') : number? text = .ok none := by
  have read : realNumeral? (realSuffix text.toList).2 = none := by
    cases read : realNumeral? (realSuffix text.toList).2 with
    | none => rfl
    | some numeral =>
      obtain ⟨suffix, same, ending⟩ := @exists_realSuffix text.toList _ _ rfl
      exact absurd (Grammar.mem_real_iff.mpr ⟨_, _, suffix, numeral, same, ending,
        realNumeral?_eq_some_iff.mp read⟩) noReal
  simp only [number?, integerNumeral?_eq_none_iff.mpr noInteger, read]

theorem matches_of_number? {text : String} (number : number? text ≠ .ok none) :
    text.toList ∈ Grammar.integer.matches' ∨ text.toList ∈ Grammar.real.matches' := by
  by_contra name
  rw [not_or] at name
  exact number (number?_name name.1 name.2)

/-- Numerals do not contain quotes. -/
theorem quote_notMem (numeral : text ∈ Grammar.integer.matches' ∨ text ∈ Grammar.real.matches') :
    '"' ∉ text := by
  intro here
  rcases numeral with integer | real
  · obtain ⟨kind, body, n, rfl, written⟩ := Grammar.mem_integer_iff.mp integer
    rcases List.mem_append.mp here with here | here
    · exact notMem_of_numeric written.numeric rfl here
    · revert here
      cases kind <;> decide
  · obtain ⟨ty, body, suffix, numeral, rfl, ending, written⟩ := Grammar.mem_real_iff.mp real
    rcases List.mem_append.mp here with here | here
    · exact notMem_of_numeric written.numeric rfl here
    · revert here
      cases ending <;> decide

/-- What is a number is no keyword and no string. -/
theorem constant?_of_number? {text : String} {datum : Datum}
    (number : number? text = .ok (some datum)) :
    constant? text = .ok (some (datum, datum.ty?.getD .object)) := by
  unfold constant?
  split
  -- The keywords are no numbers.
  · cases number
  · cases number
  · cases number
  · have noString : string? text.toList = none := by
      unfold string?
      split
      · next quoted =>
        have noQuote := quote_notMem (@matches_of_number? text (by rw [number]; nofun))
        rw [quoted] at noQuote
        exact absurd List.mem_cons_self noQuote
      · rfl
    rw [noString, number]
    rfl

/-! ## Texts of integers -/

theorem isDigits_toDigits (n : Nat) : isDigits (Nat.toDigits 10 n) = true := by
  have all : (Nat.toDigits 10 n).all isDigit = true := by
    rw [List.all_eq_true]
    intro c here
    exact Nat.isDigit_of_mem_toDigits (by decide) (by decide) here
  simp [isDigits, all, Nat.toDigits_ne_nil]

/-- The text of an integer writes it. -/
theorem writesInteger_toString (n : Int) : WritesInteger (toString n).toList n := by
  cases n with
  | ofNat m =>
    have text : (toString (Int.ofNat m)).toList = Nat.toDigits 10 m := by
      simp [Int.toString_eq_repr, Int.repr]
    have written := WritesInteger.intro (.unsigned _) (isDigits_toDigits m)
    simp only [Bool.false_eq_true, ↓reduceIte, Nat.ofDigitChars_ten_toDigits] at written
    rwa [text]
  | negSucc m =>
    have text : (toString (Int.negSucc m)).toList = '-' :: Nat.toDigits 10 (m + 1) := by
      simp [Int.toString_eq_repr, Int.repr]
    have written := WritesInteger.intro (.minus _) (isDigits_toDigits (m + 1))
    simp only [↓reduceIte, Nat.ofDigitChars_ten_toDigits] at written
    rwa [text]

/-- The text of a number of an integer type with the suffix of the type stands for the number. -/
theorem number?_text (kind : IntKind) (word : kind.Word) :
    number? ((Datum.integer kind word).text ++ kind.suffix) = .ok (some (.integer kind word)) := by
  have same : ((Datum.integer kind word).text ++ kind.suffix).toList =
      (toString (kind.toInt word)).toList ++ kind.suffix.toList := String.toList_append
  have back : kind.ofInt? (kind.toInt word) = some word := by
    rw [IntKind.ofInt?, if_pos ⟨kind.least_le_toInt word, kind.toInt_le_greatest word⟩,
      kind.ofInt_toInt]
  rw [number?_integer same (writesInteger_toString _), back]

/-! ## Classification -/

/-- What an atom that writes an integer stands for. -/
structure IntegerConstant (text : String) (kind : IntKind) (n : Int) : Prop where
  inRange (least : kind.least ≤ n) (greatest : n ≤ kind.greatest) :
    ∃ word, kind.toInt word = n ∧ number? text = .ok (some (.integer kind word))
  outOfRange (outside : ¬ (kind.least ≤ n ∧ n ≤ kind.greatest)) :
    number? text = .error (.integerOutOfRange text (.integer kind))

/-- What an atom that writes a real numeral stands for, by the type of its suffix. -/
inductive RealConstant (text : String) (numeral : RealNumeral) : Ty → Prop where
  | float (number : number? text = .ok (some (.float numeral.toBinary))) :
      RealConstant text numeral .float
  | double (number : number? text = .ok (some (.double numeral.toBinary))) :
      RealConstant text numeral .double
  | decimal {d : Decimal} (written : numeral.toDecimal? = some d)
      (number : number? text = .ok (some (.decimal d))) : RealConstant text numeral .decimal
  | tooLong (noDecimal : numeral.toDecimal? = none)
      (failed : number? text = .error (.invalidLiteral text .decimal)) :
      RealConstant text numeral .decimal

theorem integerConstant {text : String} (same : text.toList = body ++ kind.suffix.toList)
    (written : WritesInteger body n) : IntegerConstant text kind n where
  inRange least greatest := by
    refine ⟨kind.ofInt n, kind.toInt_ofInt least greatest, ?_⟩
    rw [number?_integer same written, IntKind.ofInt?, if_pos ⟨least, greatest⟩]
  outOfRange outside := by
    rw [number?_integer same written, IntKind.ofInt?, if_neg outside]

theorem realConstant {text : String} {ty : Ty} {suffix : List Char} {numeral : RealNumeral}
    (noInteger : text.toList ∉ Grammar.integer.matches') (same : text.toList = body ++ suffix)
    (ending : RealSuffix ty suffix) (written : WritesReal body numeral) :
    RealConstant text numeral ty := by
  have number := number?_real noInteger same ending written
  cases ending with
  | float => exact .float number
  | double => exact .double number
  | decimal =>
    cases converted : numeral.toDecimal? with
    | none => exact .tooLong converted (by rw [number, realDatum?, converted]; rfl)
    | some d => exact .decimal converted (by rw [number, realDatum?, converted]; rfl)

/-- What is of one of the grammars is a number or a fault about its value. -/
theorem number?_of_matches {text : String} (numeral : text.toList ∈ Grammar.integer.matches' ∨
      text.toList ∈ Grammar.real.matches') :
    (∃ datum, number? text = .ok (some datum)) ∨
      ∃ fault, number? text = .error fault ∧ fault.code = .invalidLiteral := by
  by_cases integer : text.toList ∈ Grammar.integer.matches'
  · obtain ⟨kind, body, n, same, written⟩ := Grammar.mem_integer_iff.mp integer
    have constant := integerConstant same written
    by_cases range : kind.least ≤ n ∧ n ≤ kind.greatest
    · obtain ⟨word, -, number⟩ := constant.inRange range.1 range.2
      exact .inl ⟨_, number⟩
    · exact .inr ⟨_, constant.outOfRange range, rfl⟩
  · have real := numeral.resolve_left integer
    obtain ⟨ty, body, suffix, numeral, same, ending, written⟩ := Grammar.mem_real_iff.mp real
    cases realConstant integer same ending written with
    | float number | double number | decimal _ number => exact .inl ⟨_, number⟩
    | tooLong _ failed => exact .inr ⟨_, failed, rfl⟩

/-- **Numeric atoms follow the grammar.** An atom is a number or an invalid literal exactly if it is of
one of the two grammars. An integer numeral stands for the constant of the type of its suffix with the
integer that it writes, if that is in the range of the type. Every other numeral is of the type that
its suffix selects, and only a decimal can be invalid. The text of a number of an integer type with
the suffix of the type compiles to the constant with that number. -/
theorem numerals_follow_grammar :
    (∀ text : String,
      (number? text = .ok none ↔
        text.toList ∉ Grammar.integer.matches' ∧ text.toList ∉ Grammar.real.matches') ∧
      ∀ fault, number? text = .error fault → fault.code = .invalidLiteral) ∧
    (∀ text : String, text.toList ∈ Grammar.integer.matches' →
      ∃ (kind : IntKind) (body : List Char) (n : Int),
        text.toList = body ++ kind.suffix.toList ∧ WritesInteger body n ∧
          IntegerConstant text kind n) ∧
    (∀ text : String, text.toList ∉ Grammar.integer.matches' →
      text.toList ∈ Grammar.real.matches' →
      ∃ (ty : Ty) (body suffix : List Char) (numeral : RealNumeral),
        text.toList = body ++ suffix ∧ RealSuffix ty suffix ∧ WritesReal body numeral ∧
          RealConstant text numeral ty) ∧
    ∀ (elaborator : Elaborator) (scope : Scope) (depth supply : Nat) (loc : Location)
      (kind : IntKind) (word : kind.Word), depth ≤ elaborator.maxDepth →
      elaborator.elaborateAt scope depth
          (.atom ((Datum.integer kind word).text ++ kind.suffix) loc) supply =
        .ok (.constant ⟨.integer kind, loc⟩ (.integer kind word), supply) := by
  refine ⟨fun text => ⟨⟨fun name => ?_, fun name => number?_name name.1 name.2⟩, ?_⟩, ?_, ?_, ?_⟩
  · rw [← not_or]
    intro numeral
    rcases number?_of_matches numeral with ⟨datum, number⟩ | ⟨fault, failed, -⟩
    · cases name.symm.trans number
    · cases name.symm.trans failed
  · intro fault failed
    have numeral := @matches_of_number? text (by rw [failed]; nofun)
    rcases number?_of_matches numeral with ⟨datum, number⟩ | ⟨other, same, code⟩
    · cases number.symm.trans failed
    · cases same.symm.trans failed
      exact code
  · intro text integer
    obtain ⟨kind, body, n, same, written⟩ := Grammar.mem_integer_iff.mp integer
    exact ⟨kind, body, n, same, written, integerConstant same written⟩
  · intro text noInteger real
    obtain ⟨ty, body, suffix, numeral, same, ending, written⟩ := Grammar.mem_real_iff.mp real
    exact ⟨ty, body, suffix, numeral, same, ending, written,
      realConstant noInteger same ending written⟩
  · intro elaborator scope depth supply loc kind word shallow
    have literal := constant?_of_number? (number?_text kind word)
    exact (Elaborator.Elaborates.constant shallow literal).ok

/-- Without digits behind its mark an exponent makes an atom a name, and `42ul` compiles to a
constant. -/
theorem numerals_follow_grammar_ulong :
    number? "1e" = .ok none ∧
      ({} : Elaborator).elaborateAt {} 0 (.atom "42ul" ⟨"text", 1, 1⟩) 1 =
        .ok (.constant ⟨.integer .ulong, ⟨"text", 1, 1⟩⟩ (.integer .ulong 42), 1) :=
  ⟨(numerals_follow_grammar.1 "1e").1.mpr ⟨by decide, by decide⟩,
    numerals_follow_grammar.2.2.2 {} {} 0 1 ⟨"text", 1, 1⟩ .ulong 42 (by decide)⟩

end Literal

end ExprLang
