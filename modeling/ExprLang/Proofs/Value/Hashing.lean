import ExprLang.Proofs.Value.Equality
import ExprLang.Value.Hash

/-!
# Lookups by hash

Values that are the same key feed the same to a hasher (`Named.feed_eq`), so a hash table, which
compares a key only with stored keys of the same hash, finds what a comparison with all keys finds
(`findHashed?_eq`). With the laws of an equivalence this makes values lawful keys
(`Value.lawfulEquality`). What the library of decimals feeds is assumed to agree with their equality. Host
objects are the same by identity and feed the name of their type, so an identity has to belong to one
name only; a `Roster` says to which one.
-/

namespace ExprLang

attribute [local instance (high)] instPowNat

/-- The type names of the host objects that were made, by identity. -/
abbrev Roster := Nat → Option String

/-- A binary number is determined by its bits. -/
theorem Binary.bits_inj {format : Format} {x y : Binary format} : x.bits = y.bits ↔ x = y := by
  constructor
  · intro equal
    have code := x.code.isLt
    have otherCode := y.code.isLt
    obtain ⟨negative, code, _⟩ := x
    obtain ⟨otherNegative, otherCode, _⟩ := y
    unfold bits at equal
    dsimp only at *
    cases negative <;> cases otherNegative <;> simp at equal ⊢ <;> omega
  · rintro rfl
    rfl

/-- Decimals of the same value feed the same to a hasher. -/
def Decimal.HashAgrees (decimal : Decimal → List HashWrite) : Prop :=
  ∀ a b, a.equal b = true → decimal a = decimal b

variable {decimal : Decimal → List HashWrite} (agrees : Decimal.HashAgrees decimal)

include agrees in
theorem Datum.feed_eq {a b : Datum} (same : a.same b = true) :
    a.feed decimal = b.feed decimal := by
  rcases same_iff.mp same with rfl | ⟨d, e, rfl, rfl, equal⟩
  · rfl
  · rw [feed, feed, agrees d e equal]

namespace Value

/-- The host objects that a value is compared by have the type names of a roster. -/
inductive Named (roster : Roster) : Value → Prop where
  | datum {leaf : Datum} : Named roster (.datum leaf)
  | list {id : Nat} {element : Ty} {items : List Value} (parts : ∀ item ∈ items, Named roster item) :
      Named roster (.list id element items)
  | map {id : Nat} {key value : Ty} {entries : List (Value × Value)} :
      Named roster (.map id key value entries)
  | function {closure : Closure Value} : Named roster (.function closure)
  | object {id : Nat} {typeName : String} {slots : List Value} (known : roster id = some typeName) :
      Named roster (.object id typeName slots)

variable {roster : Roster} {a b key value : Value} {entries : List (Value × Value)}

theorem feedAll_eq {items others : List Value}
    (feeds : ∀ item ∈ items, ∀ {other : Value}, other.Named roster → item.same other = true →
      item.feed decimal = other.feed decimal)
    (named : ∀ other ∈ others, other.Named roster) (same : sameItems items others = true) :
    items.length = others.length ∧ feedAll decimal items = feedAll decimal others := by
  induction items generalizing others with
  | nil =>
    cases others with
    | nil => exact ⟨rfl, rfl⟩
    | cons => cases same
  | cons item rest ih =>
    cases others with
    | nil => cases same
    | cons other more =>
      rw [List.forall_mem_cons] at feeds named
      rw [sameItems, Bool.and_eq_true] at same
      obtain ⟨count, feed⟩ := ih feeds.2 named.2 same.2
      rw [feedAll, feedAll, feeds.1 named.1 same.1, feed, List.length_cons, List.length_cons, count]
      exact ⟨rfl, rfl⟩

include agrees

/-- Values that are the same key feed the same to a hasher. -/
theorem Named.feed_eq (named : a.Named roster) (otherNamed : b.Named roster)
    (same : a.same b = true) : a.feed decimal = b.feed decimal := by
  induction named generalizing b with
  | datum =>
    cases otherNamed with
    | datum => exact Datum.feed_eq agrees same
    | list | map | function | object => cases same
  | list _ ih =>
    cases otherNamed with
    | list parts =>
      rw [Value.same, Bool.and_eq_true] at same
      obtain ⟨count, feed⟩ := feedAll_eq ih parts same.2
      rw [Value.feed, Value.feed, count, feed]
    | datum | map | function | object => cases same
  | map =>
    cases otherNamed with
    | map =>
      simp only [Value.same, Bool.and_eq_true, beq_iff_eq] at same
      rw [Value.feed, Value.feed, same.1.2]
    | datum | list | function | object => cases same
  | function =>
    cases otherNamed with
    | function =>
      simp only [Value.same, Bool.and_eq_true, beq_iff_eq] at same
      rw [Value.feed, Value.feed, same.1]
    | datum | list | map | object => cases same
  | object known =>
    cases otherNamed with
    | object otherKnown =>
      simp only [Value.same, beq_iff_eq] at same
      subst same
      rw [Value.feed, Value.feed, Option.some.inj (known.symm.trans otherKnown)]
    | datum | list | map | function => cases same

/-- A hash table finds what a comparison with all keys finds, whatever the hash function makes of what
it is fed. -/
theorem findHashed?_eq (digest : List HashWrite → UInt64) (keyNamed : key.Named roster)
    (named : ∀ entry ∈ entries, entry.1.Named roster) :
    findHashed? decimal digest key entries = findEntry? key entries := by
  unfold findHashed? findEntry?
  induction entries with
  | nil => rfl
  | cons entry rest ih =>
    rw [List.forall_mem_cons] at named
    have hit : (digest (entry.1.feed decimal) == digest (key.feed decimal) && key.same entry.1) =
        key.same entry.1 := by
      cases same : key.same entry.1 with
      | false => rw [Bool.and_false]
      | true => simp [keyNamed.feed_eq agrees named.1 same]
    rw [List.find?_cons, List.find?_cons, hit]
    cases key.same entry.1 with
    | true => rfl
    | false => exact ih named.2

omit agrees

/-! ## What a lookup finds -/

/-- A lookup finds the value of the entry whose key is the same. -/
theorem findEntry?_eq_some_iff (keyKeyed : key.Keyed) (keyed : KeyedEntries entries) :
    findEntry? key entries = some value ↔
      ∃ entry ∈ entries, key.same entry.1 = true ∧ entry.2 = value := by
  unfold findEntry?
  rw [Option.map_eq_some_iff]
  constructor
  · rintro ⟨entry, found, rfl⟩
    obtain ⟨belongs, hit⟩ := hit_of_find? found
    exact ⟨entry, belongs, hit, rfl⟩
  · rintro ⟨entry, belongs, hit, rfl⟩
    have isSome : (entries.find? fun other => key.same other.1).isSome = true :=
      List.find?_isSome.mpr ⟨entry, belongs, hit⟩
    obtain ⟨other, found⟩ := Option.isSome_iff_exists.mp isSome
    obtain ⟨otherBelongs, otherHit⟩ := hit_of_find? found
    have entryKey := keyed.keys entry belongs
    have otherKey := keyed.keys other otherBelongs
    obtain rfl := keyed.distinct.eq_of_same belongs otherBelongs
      (keyKeyed.equates.euclid entryKey otherKey hit otherHit)
      (keyKeyed.equates.euclid otherKey entryKey otherHit hit)
    exact ⟨entry, found, rfl⟩

/-! ## The laws of keys -/

/-- Which values are the same key, for each kind of values that holds others or is not compared by its
content, and the laws that a hash table needs of its keys. -/
structure LawfulEquality (decimal : Decimal → List HashWrite) : Prop where
  refl : ∀ {a : Value}, a.Keyed → a.same a = true
  symm : ∀ {a b : Value}, a.Keyed → b.Keyed → a.same b = b.same a
  trans : ∀ {a b c : Value}, a.Keyed → b.Keyed → c.Keyed →
    a.same b = true → b.same c = true → a.same c = true
  feed : ∀ {roster : Roster} {a b : Value}, a.Named roster → b.Named roster →
    a.same b = true → a.feed decimal = b.feed decimal
  /-- NaNs are no exception. -/
  floats : ∀ x y : Binary .single,
    same (.datum (.float x)) (.datum (.float y)) = true ↔ x.bits = y.bits
  doubles : ∀ x y : Binary .double,
    same (.datum (.double x)) (.datum (.double y)) = true ↔ x.bits = y.bits
  lists : ∀ (id id' : Nat) (element element' : Ty) (items items' : List Value),
    same (.list id element items) (.list id' element' items') = true ↔
      element = element' ∧ items.Forall₂ (fun item item' => item.same item' = true) items'
  /-- The order of the entries does not count. -/
  maps : ∀ (id id' : Nat) (key key' value value' : Ty) (entries entries' : List (Value × Value)),
    KeyedEntries entries → KeyedEntries entries' →
    (same (.map id key value entries) (.map id' key' value' entries') = true ↔
      key = key' ∧ value = value' ∧ entries.length = entries'.length ∧
        ∀ entry ∈ entries, ∃ entry' ∈ entries', Corresponds entry entry')
  functions : ∀ closure closure' : Closure Value,
    same (.function closure) (.function closure') = true ↔
      closure.lambda = closure'.lambda ∧ closure.frame.id = closure'.frame.id
  objects : ∀ (id id' : Nat) (typeName typeName' : String) (slots slots' : List Value),
    same (.object id typeName slots) (.object id' typeName' slots') = true ↔ id = id'

theorem sameItems_iff {items others : List Value} : sameItems items others = true ↔
    items.Forall₂ (fun item other => item.same other = true) others := by
  induction items generalizing others with
  | nil => cases others <;> simp [sameItems]
  | cons item rest ih =>
    cases others with
    | nil => simp [sameItems]
    | cons other more => rw [sameItems, Bool.and_eq_true, ih, List.forall₂_cons]

/-- Entries with distinct keys are found in others exactly if each corresponds to one of them. -/
theorem KeyedEntries.sameEntries_iff_total {others : List (Value × Value)}
    (keyed : KeyedEntries entries) (otherKeyed : KeyedEntries others) :
    sameEntries entries others = true ↔
      ∀ entry ∈ entries, ∃ other ∈ others, Corresponds entry other :=
  ⟨exists_corresponds, sameEntries_of_total
    (fun entry belongs =>
      ⟨(keyed.keys entry belongs).equates, (keyed.values entry belongs).equates⟩) otherKeyed⟩

/-- **Values are lawful keys**, if decimals are. -/
theorem lawfulEquality (agrees : Decimal.HashAgrees decimal) : LawfulEquality decimal where
  refl keyed := keyed.equates.refl
  symm keyed otherKeyed := keyed.equates.symm otherKeyed
  trans keyed otherKeyed thirdKeyed := keyed.equates.trans otherKeyed thirdKeyed
  feed named otherNamed := named.feed_eq agrees otherNamed
  floats x y := by simp [same, Datum.same, Binary.bits_inj]
  doubles x y := by simp [same, Datum.same, Binary.bits_inj]
  lists id id' element element' items items' := by
    rw [same, Bool.and_eq_true, beq_iff_eq, sameItems_iff]
  maps id id' key key' value value' entries entries' keyed otherKeyed := by
    rw [same, Bool.and_eq_true, keyed.sameEntries_iff_total otherKeyed]
    simp only [Bool.and_eq_true, beq_iff_eq, and_assoc]
  functions closure closure' := by simp [same]
  objects id id' typeName typeName' slots slots' := by simp [same]

end Value

/-! ## Decimals without trailing zeros -/

namespace Decimal

/-- A coefficient and its scale without trailing zero places. -/
def strip : Nat → Nat → Nat × Nat
  | coefficient, 0 => (coefficient, 0)
  | coefficient, scale + 1 =>
    if coefficient % 10 = 0 then strip (coefficient / 10) scale else (coefficient, scale + 1)

/-- What a decimal feeds to a hasher in its shortest form: the three words of the coefficient, and
the scale and the sign. A zero has no sign. -/
def normalFeed (d : Decimal) : List HashWrite :=
  let (coefficient, scale) := strip d.coefficient d.scale
  let sign := if d.negative && coefficient != 0 then 2 ^ (31 : Nat) else 0
  [.number 32 (coefficient % 2 ^ (32 : Nat)),
    .number 32 (coefficient / 2 ^ (32 : Nat) % 2 ^ (32 : Nat)),
    .number 32 (coefficient / 2 ^ (64 : Nat)), .number 32 (scale * 2 ^ (16 : Nat) + sign)]

/-- Stripping gives what a coefficient without trailing zeros, or one without places, stands for. -/
theorem strip_spec (coefficient scale : Nat) :
    ∃ zeros, (strip coefficient scale).1 * 10 ^ zeros = coefficient ∧
      (strip coefficient scale).2 + zeros = scale ∧
      ((strip coefficient scale).2 = 0 ∨ (strip coefficient scale).1 % 10 ≠ 0) := by
  induction scale generalizing coefficient with
  | zero => exact ⟨0, by simp [strip], rfl, .inl rfl⟩
  | succ scale ih =>
    by_cases divisible : coefficient % 10 = 0
    · obtain ⟨zeros, whole, places, short⟩ := ih (coefficient / 10)
      rw [strip, if_pos divisible]
      refine ⟨zeros + 1, ?_, by omega, short⟩
      rw [Nat.pow_succ, ← Nat.mul_assoc, whole]
      omega
    · rw [strip, if_neg divisible]
      exact ⟨0, by simp, rfl, .inr divisible⟩

theorem tenPow_pos (places : Nat) : 0 < 10 ^ places :=
  Nat.pow_pos (by decide)

/-- What does not end in a zero has no more places than what it equals. -/
theorem scale_le_of_short {first second firstScale secondScale : Nat}
    (equal : first * 10 ^ secondScale = second * 10 ^ firstScale)
    (short : secondScale = 0 ∨ second % 10 ≠ 0) : secondScale ≤ firstScale := by
  rcases short with rfl | short
  · exact Nat.zero_le _
  · by_contra longer
    obtain ⟨more, rfl⟩ : ∃ more, secondScale = firstScale + more + 1 :=
      ⟨secondScale - firstScale - 1, by omega⟩
    have cancelled : first * 10 ^ more * 10 = second := by
      refine Nat.eq_of_mul_eq_mul_right (tenPow_pos firstScale) ?_
      rw [← equal, Nat.pow_succ, Nat.pow_add]
      ac_rfl
    omega

/-- Decimals of the same magnitude have the same shortest form. -/
theorem strip_eq {first second firstScale secondScale : Nat}
    (equal : first * 10 ^ secondScale = second * 10 ^ firstScale) :
    strip first firstScale = strip second secondScale := by
  obtain ⟨zeros, whole, places, short⟩ := strip_spec first firstScale
  obtain ⟨otherZeros, otherWhole, otherPlaces, otherShort⟩ := strip_spec second secondScale
  generalize strip first firstScale = stripped at *
  generalize strip second secondScale = other at *
  obtain ⟨coefficient, scale⟩ := stripped
  obtain ⟨otherCoefficient, otherScale⟩ := other
  dsimp only at *
  subst whole otherWhole places otherPlaces
  have magnitude : coefficient * 10 ^ otherScale = otherCoefficient * 10 ^ scale := by
    refine Nat.eq_of_mul_eq_mul_right (tenPow_pos (zeros + otherZeros)) ?_
    calc coefficient * 10 ^ otherScale * 10 ^ (zeros + otherZeros)
      _ = coefficient * 10 ^ zeros * 10 ^ (otherScale + otherZeros) := by
        rw [Nat.pow_add, Nat.pow_add]
        ac_rfl
      _ = otherCoefficient * 10 ^ otherZeros * 10 ^ (scale + zeros) := equal
      _ = otherCoefficient * 10 ^ scale * 10 ^ (zeros + otherZeros) := by
        rw [Nat.pow_add, Nat.pow_add]
        ac_rfl
  have scales : scale = otherScale :=
    Nat.le_antisymm (scale_le_of_short magnitude.symm short) (scale_le_of_short magnitude otherShort)
  subst scales
  have coefficients := Nat.eq_of_mul_eq_mul_right (tenPow_pos scale) magnitude
  rw [coefficients]

theorem natAbs_signed (d : Decimal) : d.signed.natAbs = d.coefficient := by
  unfold signed
  split <;> simp

/-- Decimals of the same value have the same sign unless they are zero. -/
theorem negative_eq_of_equal {a b : Decimal} (nonzero : a.coefficient ≠ 0)
    (otherNonzero : b.coefficient ≠ 0)
    (equal : a.signed * 10 ^ b.scale = b.signed * 10 ^ a.scale) : a.negative = b.negative := by
  have positive : (0 : Int) < a.coefficient * 10 ^ b.scale :=
    Int.mul_pos (by omega) (Int.pow_pos (by decide))
  have otherPositive : (0 : Int) < b.coefficient * 10 ^ a.scale :=
    Int.mul_pos (by omega) (Int.pow_pos (by decide))
  unfold signed at equal
  cases sign : a.negative <;> cases otherSign : b.negative <;>
    simp only [sign, otherSign, if_true, if_false, Bool.false_eq_true, Int.neg_mul] at equal ⊢ <;>
    omega

/-- Hashing the shortest form agrees with the equality of decimals. -/
theorem hashAgrees_normalFeed : HashAgrees normalFeed := by
  intro a b equal
  rw [equal_iff] at equal
  have magnitude : a.coefficient * 10 ^ b.scale = b.coefficient * 10 ^ a.scale := by
    have absolute := congrArg Int.natAbs equal
    simpa [Int.natAbs_mul, Int.natAbs_pow, natAbs_signed] using absolute
  have form := strip_eq magnitude
  obtain ⟨zeros, whole, -⟩ := strip_spec a.coefficient a.scale
  obtain ⟨otherZeros, otherWhole, -⟩ := strip_spec b.coefficient b.scale
  have sign : (a.negative && (strip a.coefficient a.scale).1 != 0) =
      (b.negative && (strip a.coefficient a.scale).1 != 0) := by
    by_cases zero : (strip a.coefficient a.scale).1 = 0
    · simp [zero]
    · have nonzero : a.coefficient ≠ 0 := by
        rw [← whole]
        exact Nat.mul_ne_zero zero (Nat.ne_of_gt (tenPow_pos zeros))
      have otherNonzero : b.coefficient ≠ 0 := by
        rw [← otherWhole, ← form]
        exact Nat.mul_ne_zero zero (Nat.ne_of_gt (tenPow_pos otherZeros))
      rw [negative_eq_of_equal nonzero otherNonzero equal]
  simp only [normalFeed, sign, ← form]

end Decimal

end ExprLang
