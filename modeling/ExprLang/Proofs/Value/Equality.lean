import ExprLang.Value.Same
import Mathlib.Data.List.Forall2

/-!
# Identity equality is an equivalence

Values are compared as keys of maps by `Value.same`. On values whose maps have pairwise different
keys (`Value.Keyed`) this is an equivalence (`Keyed.equates`). For maps, whose entries are looked up
in each other, that takes an argument: an entry of one map corresponds to the only entry of the other
that has the same key and the same value, so maps of the same size correspond in both directions
(`exists_corresponding`).
-/

namespace ExprLang

attribute [local instance (high)] instPowNat

/-! ## Data -/

namespace Decimal

theorem equal_iff {a b : Decimal} :
    a.equal b = true ↔ a.signed * 10 ^ b.scale = b.signed * 10 ^ a.scale := by
  simp [equal]

theorem equal_trans {a b c : Decimal} (first : a.equal b = true) (second : b.equal c = true) :
    a.equal c = true := by
  rw [equal_iff] at *
  have positive : (0 : Int) < 10 ^ b.scale := Int.pow_pos (by decide)
  refine Int.eq_of_mul_eq_mul_right (Int.ne_of_gt positive) ?_
  calc a.signed * 10 ^ c.scale * 10 ^ b.scale
    _ = a.signed * 10 ^ b.scale * 10 ^ c.scale := Int.mul_right_comm ..
    _ = b.signed * 10 ^ c.scale * 10 ^ a.scale := by rw [first, Int.mul_right_comm]
    _ = c.signed * 10 ^ a.scale * 10 ^ b.scale := by rw [second, Int.mul_right_comm]

end Decimal

namespace Datum

/-- Data are the same key if they are equal, or decimals of the same value. -/
theorem same_iff {a b : Datum} :
    a.same b = true ↔ a = b ∨ ∃ d e, a = .decimal d ∧ b = .decimal e ∧ d.equal e = true := by
  cases a <;> cases b <;> try simp [same]
  case integer.integer kind word other second =>
    by_cases equal : kind = other
    · subst equal
      simp
    · simp [equal]
  case decimal.decimal d e =>
    rintro rfl
    exact d.equal_refl

theorem same_refl (a : Datum) : a.same a = true :=
  same_iff.mpr (.inl rfl)

theorem same_symm {a b : Datum} (same : a.same b = true) : b.same a = true := by
  rw [same_iff] at *
  rcases same with rfl | ⟨d, e, rfl, rfl, equal⟩
  · exact .inl rfl
  · exact .inr ⟨e, d, rfl, rfl, (Decimal.equal_symm e d).trans equal⟩

theorem same_trans {a b c : Datum} (first : a.same b = true) (second : b.same c = true) :
    a.same c = true := by
  rw [same_iff] at *
  rcases first with rfl | ⟨d, e, rfl, rfl, equal⟩
  · exact second
  · rcases second with rfl | ⟨_, f, same, rfl, other⟩
    · exact .inr ⟨d, e, rfl, rfl, equal⟩
    · cases same
      exact .inr ⟨d, f, rfl, rfl, Decimal.equal_trans equal other⟩

end Datum

namespace Value

/-! ## Entries -/

/-- No two entries have the same key. -/
def DistinctKeys (entries : List (Value × Value)) : Prop :=
  entries.Pairwise fun entry other => entry.1.same other.1 = false

/-- Two entries have the same key and the same value. -/
def Corresponds (entry other : Value × Value) : Prop :=
  entry.1.same other.1 = true ∧ entry.2.same other.2 = true

/-- If no two members of a list correspond to the same member of another list of the same length,
then a correspondence that takes all of the one list reaches all of the other. -/
theorem exists_corresponding {α β : Type} {related : α → β → Prop} {first : List α} {second : List β}
    (count : first.length = second.length)
    (apart : first.Pairwise fun a other => ∀ b ∈ second, related a b → ¬ related other b)
    (total : ∀ a ∈ first, ∃ b ∈ second, related a b) :
    ∀ b ∈ second, ∃ a ∈ first, related a b := by
  induction first generalizing second with
  | nil =>
    rw [List.eq_nil_of_length_eq_zero count.symm]
    nofun
  | cons a rest ih =>
    rw [List.pairwise_cons] at apart
    rw [List.forall_mem_cons] at total
    obtain ⟨⟨b, belongs, hit⟩, total⟩ := total
    obtain ⟨before, behind, rfl⟩ := List.append_of_mem belongs
    have others {c : β} (elsewhere : c ∈ before ++ behind) : c ∈ before ++ b :: behind := by
      rw [List.mem_append, List.mem_cons]
      exact (List.mem_append.mp elsewhere).imp_right .inr
    have shorter : rest.length = (before ++ behind).length := by
      simp only [List.length_cons, List.length_append] at count ⊢
      omega
    have reached := ih shorter
      (apart.2.imp fun away c elsewhere => away c (others elsewhere))
      (fun other belongsOther => by
        obtain ⟨c, found, related⟩ := total other belongsOther
        rw [List.mem_append, List.mem_cons] at found
        rcases found with early | rfl | late
        · exact ⟨c, List.mem_append_left _ early, related⟩
        · exact absurd related (apart.1 other belongsOther c belongs hit)
        · exact ⟨c, List.mem_append_right _ late, related⟩)
    intro c found
    rw [List.mem_append, List.mem_cons] at found
    rcases found with early | rfl | late
    · obtain ⟨other, belongsOther, related⟩ := reached c (List.mem_append_left _ early)
      exact ⟨other, List.mem_cons_of_mem _ belongsOther, related⟩
    · exact ⟨a, List.mem_cons_self, hit⟩
    · obtain ⟨other, belongsOther, related⟩ := reached c (List.mem_append_right _ late)
      exact ⟨other, List.mem_cons_of_mem _ belongsOther, related⟩

/-- Entries with the same key are the same entry where keys are distinct. -/
theorem DistinctKeys.eq_of_same {entries : List (Value × Value)} (distinct : DistinctKeys entries)
    {entry other : Value × Value} (belongs : entry ∈ entries) (otherBelongs : other ∈ entries)
    (same : entry.1.same other.1 = true) (back : other.1.same entry.1 = true) : entry = other := by
  induction entries with
  | nil => cases belongs
  | cons head rest ih =>
    obtain ⟨apart, distinct⟩ := List.pairwise_cons.mp distinct
    rcases List.mem_cons.mp belongs with rfl | inside <;>
      rcases List.mem_cons.mp otherBelongs with rfl | otherInside
    · rfl
    · exact absurd (same.symm.trans (apart other otherInside)) nofun
    · exact absurd (back.symm.trans (apart entry inside)) nofun
    · exact ih distinct inside otherInside

theorem hit_of_find? {entries : List (Value × Value)} {key : Value} {entry : Value × Value}
    (found : entries.find? (fun other => key.same other.1) = some entry) :
    entry ∈ entries ∧ key.same entry.1 = true := by
  have hit := List.find?_some found
  exact ⟨List.mem_of_find?_eq_some found, hit⟩

theorem sameEntries_iff {entries others : List (Value × Value)} :
    sameEntries entries others = true ↔ ∀ entry ∈ entries, ∃ other,
      others.find? (fun other => entry.1.same other.1) = some other ∧
        entry.2.same other.2 = true := by
  induction entries with
  | nil => simp [sameEntries]
  | cons entry rest ih =>
    rw [List.forall_mem_cons, ← ih, sameEntries, Bool.and_eq_true]
    cases others.find? fun other => entry.1.same other.1 <;> simp

/-- Entries that are found in others correspond to them. -/
theorem exists_corresponds {entries others : List (Value × Value)}
    (same : sameEntries entries others = true) :
    ∀ entry ∈ entries, ∃ other ∈ others, Corresponds entry other := by
  intro entry belongs
  obtain ⟨other, found, values⟩ := sameEntries_iff.mp same entry belongs
  obtain ⟨otherBelongs, keys⟩ := hit_of_find? found
  exact ⟨other, otherBelongs, keys, values⟩

/-- Entries are found in others if they correspond to them and none of their keys is the same as two
of the others'. -/
theorem sameEntries_of_corresponds {entries others : List (Value × Value)}
    (distinct : DistinctKeys others)
    (only : ∀ entry ∈ entries, ∀ other ∈ others, ∀ second ∈ others,
      entry.1.same other.1 = true → entry.1.same second.1 = true → other.1.same second.1 = true)
    (total : ∀ entry ∈ entries, ∃ other ∈ others, Corresponds entry other) :
    sameEntries entries others = true := by
  refine sameEntries_iff.mpr fun entry belongs => ?_
  obtain ⟨other, otherBelongs, keys, values⟩ := total entry belongs
  have isSome : (others.find? fun other => entry.1.same other.1).isSome = true :=
    List.find?_isSome.mpr ⟨other, otherBelongs, keys⟩
  obtain ⟨second, found⟩ := Option.isSome_iff_exists.mp isSome
  obtain ⟨secondBelongs, hit⟩ := hit_of_find? found
  have same := only entry belongs other otherBelongs second secondBelongs keys hit
  have back := only entry belongs second secondBelongs other otherBelongs hit keys
  obtain rfl := distinct.eq_of_same otherBelongs secondBelongs same back
  exact ⟨other, found, values⟩

/-! ## Values -/

/-- The keys of all maps that are compared with a value are distinct. -/
inductive Keyed : Value → Prop where
  | datum {leaf : Datum} : Keyed (.datum leaf)
  | list {id : Nat} {element : Ty} {items : List Value} (parts : ∀ item ∈ items, Keyed item) :
      Keyed (.list id element items)
  | map {id : Nat} {key value : Ty} {entries : List (Value × Value)}
      (distinct : DistinctKeys entries) (keys : ∀ entry ∈ entries, Keyed entry.1)
      (values : ∀ entry ∈ entries, Keyed entry.2) : Keyed (.map id key value entries)
  | function {closure : Closure Value} : Keyed (.function closure)
  | object {id : Nat} {typeName : String} {slots : List Value} : Keyed (.object id typeName slots)

/-- Comparing a value with others, and others by way of it, is as for an equivalence. -/
structure Equates (a : Value) : Prop where
  refl : a.same a = true
  symm : ∀ {b}, b.Keyed → a.same b = b.same a
  /-- What is the same compares alike with everything else. -/
  agree : ∀ {b c}, b.Keyed → c.Keyed → a.same b = true → a.same c = b.same c

namespace Equates

variable {a b c : Value} (equates : a.Equates) (keyed : b.Keyed) (otherKeyed : c.Keyed)
include equates keyed otherKeyed

theorem trans (first : a.same b = true) (second : b.same c = true) : a.same c = true :=
  (equates.agree keyed otherKeyed first).trans second

theorem euclid (first : a.same b = true) (second : a.same c = true) : b.same c = true :=
  (equates.agree keyed otherKeyed first).symm.trans second

end Equates

theorem equates_datum (leaf : Datum) : Equates (.datum leaf) where
  refl := leaf.same_refl
  symm {b} _ := by
    cases b with
    | datum other =>
      rw [same, same, Bool.eq_iff_iff]
      exact ⟨Datum.same_symm, Datum.same_symm⟩
    | list | map | function | object => rfl
  agree {b c} _ _ first := by
    cases b with
    | datum other =>
      cases c with
      | datum third =>
        rw [same, same, Bool.eq_iff_iff]
        exact ⟨Datum.same_trans (Datum.same_symm first), Datum.same_trans first⟩
      | list | map | function | object => rfl
    | list | map | function | object => cases first

theorem equates_function (closure : Closure Value) : Equates (.function closure) where
  refl := by simp [same]
  symm {b} _ := by
    cases b with
    | function other => simp only [same, Bool.beq_comm]
    | datum | list | map | object => rfl
  agree {b c} _ _ first := by
    cases b with
    | function other =>
      simp only [same, Bool.and_eq_true, beq_iff_eq] at first
      cases c with
      | function third => rw [same, same, first.1, first.2]
      | datum | list | map | object => rfl
    | datum | list | map | object => cases first

theorem equates_object (id : Nat) (typeName : String) (slots : List Value) :
    Equates (.object id typeName slots) where
  refl := by simp [same]
  symm {b} _ := by
    cases b with
    | object => exact Bool.beq_comm
    | datum | list | map | function => rfl
  agree {b c} _ _ first := by
    cases b with
    | object =>
      simp only [same, beq_iff_eq] at first
      cases c with
      | object => rw [same, same, first]
      | datum | list | map | function => rfl
    | datum | list | map | function => cases first

/-! ## Lists -/

section Items

variable {items others thirds : List Value} (equates : ∀ item ∈ items, Equates item)
include equates

theorem sameItems_refl : sameItems items items = true := by
  induction items with
  | nil => rfl
  | cons item rest ih =>
    rw [List.forall_mem_cons] at equates
    rw [sameItems, equates.1.refl, ih equates.2]
    rfl

theorem sameItems_symm (otherKeyed : ∀ other ∈ others, other.Keyed) :
    sameItems items others = sameItems others items := by
  induction items generalizing others with
  | nil => cases others <;> rfl
  | cons item rest ih =>
    cases others with
    | nil => rfl
    | cons other more =>
      rw [List.forall_mem_cons] at equates otherKeyed
      rw [sameItems, sameItems, equates.1.symm otherKeyed.1, ih equates.2 otherKeyed.2]

theorem sameItems_agree (otherKeyed : ∀ other ∈ others, other.Keyed)
    (thirdKeyed : ∀ third ∈ thirds, third.Keyed) (first : sameItems items others = true) :
    sameItems items thirds = sameItems others thirds := by
  induction items generalizing others thirds with
  | nil =>
    cases others with
    | nil => rfl
    | cons => cases first
  | cons item rest ih =>
    cases others with
    | nil => cases first
    | cons other more =>
      cases thirds with
      | nil => rfl
      | cons third last =>
        rw [List.forall_mem_cons] at equates otherKeyed thirdKeyed
        rw [sameItems, Bool.and_eq_true] at first
        rw [sameItems, sameItems, equates.1.agree otherKeyed.1 thirdKeyed.1 first.1,
          ih equates.2 otherKeyed.2 thirdKeyed.2 first.2]

end Items

theorem equates_list (id : Nat) (element : Ty) {items : List Value}
    (equates : ∀ item ∈ items, Equates item) : Equates (.list id element items) where
  refl := by
    rw [same, sameItems_refl equates]
    simp
  symm {b} keyed := by
    cases keyed with
    | list parts => rw [same, same, sameItems_symm equates parts, Bool.beq_comm]
    | datum | map | function | object => rfl
  agree {b c} keyed thirdKeyed first := by
    cases keyed with
    | list parts =>
      simp only [same, Bool.and_eq_true, beq_iff_eq] at first
      cases thirdKeyed with
      | list thirdParts =>
        rw [same, same, first.1, sameItems_agree equates parts thirdParts first.2]
      | datum | map | function | object => rfl
    | datum | map | function | object => cases first

/-! ## Maps -/

structure KeyedEntries (entries : List (Value × Value)) : Prop where
  distinct : DistinctKeys entries
  keys : ∀ entry ∈ entries, entry.1.Keyed
  values : ∀ entry ∈ entries, entry.2.Keyed

section Entries

variable {entries others thirds : List (Value × Value)}
  (equates : ∀ entry ∈ entries, Equates entry.1 ∧ Equates entry.2) (keyed : KeyedEntries entries)
  (otherKeyed : KeyedEntries others) (thirdKeyed : KeyedEntries thirds)

include equates

section
include keyed

theorem sameEntries_refl : sameEntries entries entries = true := by
  refine sameEntries_of_corresponds keyed.distinct ?_ fun entry belongs =>
    ⟨entry, belongs, (equates entry belongs).1.refl, (equates entry belongs).2.refl⟩
  intro entry belongs other otherBelongs second secondBelongs first hit
  exact (equates entry belongs).1.euclid (keyed.keys other otherBelongs)
    (keyed.keys second secondBelongs) first hit

end

include otherKeyed

/-- Entries that correspond to others are found in them. -/
theorem sameEntries_of_total
    (total : ∀ entry ∈ entries, ∃ other ∈ others, Corresponds entry other) :
    sameEntries entries others = true := by
  refine sameEntries_of_corresponds otherKeyed.distinct ?_ total
  intro entry belongs other otherBelongs second secondBelongs first hit
  exact (equates entry belongs).1.euclid (otherKeyed.keys other otherBelongs)
    (otherKeyed.keys second secondBelongs) first hit

/-- Entries that are found among as many others reach all of them. -/
theorem reached_of_sameEntries (keyed : KeyedEntries entries)
    (count : entries.length = others.length) (same : sameEntries entries others = true) :
    ∀ other ∈ others, ∃ entry ∈ entries, Corresponds entry other := by
  refine exists_corresponding count ?_ (exists_corresponds same)
  refine keyed.distinct.imp_of_mem fun {entry second} belongs secondBelongs apart => ?_
  rintro other otherBelongs ⟨keys, -⟩ ⟨secondKeys, -⟩
  have otherKey := otherKeyed.keys other otherBelongs
  rw [(equates second secondBelongs).1.symm otherKey] at secondKeys
  have together := (equates entry belongs).1.trans otherKey (keyed.keys second secondBelongs)
    keys secondKeys
  exact absurd (together.symm.trans apart) nofun

theorem sameEntries_symm (keyed : KeyedEntries entries) (count : entries.length = others.length) :
    sameEntries entries others = sameEntries others entries := by
  have flip {entry other : Value × Value} (belongs : entry ∈ entries)
      (otherBelongs : other ∈ others) : Corresponds entry other ↔ Corresponds other entry := by
    unfold Corresponds
    rw [(equates entry belongs).1.symm (otherKeyed.keys other otherBelongs),
      (equates entry belongs).2.symm (otherKeyed.values other otherBelongs)]
  rw [Bool.eq_iff_iff]
  constructor
  · intro same
    have reached := reached_of_sameEntries equates otherKeyed keyed count same
    refine sameEntries_of_corresponds keyed.distinct ?_ fun other otherBelongs => ?_
    · intro other otherBelongs entry belongs second secondBelongs first hit
      have otherKey := otherKeyed.keys other otherBelongs
      rw [← (equates entry belongs).1.symm otherKey] at first
      exact (equates entry belongs).1.trans otherKey (keyed.keys second secondBelongs) first hit
    · obtain ⟨entry, belongs, corresponds⟩ := reached other otherBelongs
      exact ⟨entry, belongs, (flip belongs otherBelongs).mp corresponds⟩
  · intro same
    have total : ∀ other ∈ others, ∃ entry ∈ entries, Corresponds entry other := by
      intro other otherBelongs
      obtain ⟨entry, belongs, corresponds⟩ := exists_corresponds same other otherBelongs
      exact ⟨entry, belongs, (flip belongs otherBelongs).mpr corresponds⟩
    refine sameEntries_of_total equates otherKeyed (exists_corresponding count.symm ?_ total)
    refine otherKeyed.distinct.imp_of_mem fun {other second} belongs secondBelongs apart => ?_
    rintro entry entryBelongs ⟨keys, -⟩ ⟨secondKeys, -⟩
    have together := (equates entry entryBelongs).1.euclid (otherKeyed.keys other belongs)
      (otherKeyed.keys second secondBelongs) keys secondKeys
    exact absurd (together.symm.trans apart) nofun

include thirdKeyed

theorem sameEntries_trans (first : sameEntries entries others = true)
    (second : sameEntries others thirds = true) : sameEntries entries thirds = true := by
  refine sameEntries_of_total equates thirdKeyed fun entry belongs => ?_
  obtain ⟨other, otherBelongs, keys, values⟩ := exists_corresponds first entry belongs
  obtain ⟨third, thirdBelongs, otherKeys, otherValues⟩ := exists_corresponds second other otherBelongs
  obtain ⟨key, value⟩ := equates entry belongs
  exact ⟨third, thirdBelongs,
    key.trans (otherKeyed.keys other otherBelongs) (thirdKeyed.keys third thirdBelongs) keys
      otherKeys,
    value.trans (otherKeyed.values other otherBelongs) (thirdKeyed.values third thirdBelongs) values
      otherValues⟩

theorem sameEntries_euclid (keyed : KeyedEntries entries) (count : entries.length = others.length)
    (first : sameEntries entries others = true) (second : sameEntries entries thirds = true) :
    sameEntries others thirds = true := by
  have reached := reached_of_sameEntries equates otherKeyed keyed count first
  refine sameEntries_of_corresponds thirdKeyed.distinct ?_ fun other otherBelongs => ?_
  · intro other otherBelongs third thirdBelongs last lastBelongs hit lastHit
    obtain ⟨entry, belongs, keys, -⟩ := reached other otherBelongs
    obtain ⟨key, -⟩ := equates entry belongs
    have otherKey := otherKeyed.keys other otherBelongs
    have thirdKey := thirdKeyed.keys third thirdBelongs
    have lastKey := thirdKeyed.keys last lastBelongs
    exact key.euclid thirdKey lastKey (key.trans otherKey thirdKey keys hit)
      (key.trans otherKey lastKey keys lastHit)
  · obtain ⟨entry, belongs, keys, values⟩ := reached other otherBelongs
    obtain ⟨third, thirdBelongs, thirdKeys, thirdValues⟩ := exists_corresponds second entry belongs
    obtain ⟨key, value⟩ := equates entry belongs
    exact ⟨third, thirdBelongs,
      key.euclid (otherKeyed.keys other otherBelongs) (thirdKeyed.keys third thirdBelongs) keys
        thirdKeys,
      value.euclid (otherKeyed.values other otherBelongs) (thirdKeyed.values third thirdBelongs)
        values thirdValues⟩

theorem sameEntries_agree (keyed : KeyedEntries entries) (count : entries.length = others.length)
    (first : sameEntries entries others = true) :
    sameEntries entries thirds = sameEntries others thirds :=
  Bool.eq_iff_iff.mpr
    ⟨sameEntries_euclid equates otherKeyed thirdKeyed keyed count first,
      sameEntries_trans equates otherKeyed thirdKeyed first⟩

end Entries

theorem equates_map (id : Nat) (key value : Ty) {entries : List (Value × Value)}
    (equates : ∀ entry ∈ entries, Equates entry.1 ∧ Equates entry.2)
    (keyed : KeyedEntries entries) : Equates (.map id key value entries) where
  refl := by
    rw [same, sameEntries_refl equates keyed]
    simp
  symm {b} otherKeyed := by
    cases otherKeyed with
    | map distinct keys values =>
      have flip := sameEntries_symm equates ⟨distinct, keys, values⟩ keyed
      rw [Bool.eq_iff_iff]
      simp only [same, Bool.and_eq_true, beq_iff_eq]
      constructor
      · rintro ⟨⟨⟨keyTypes, valueTypes⟩, count⟩, found⟩
        exact ⟨⟨⟨keyTypes.symm, valueTypes.symm⟩, count.symm⟩, flip count ▸ found⟩
      · rintro ⟨⟨⟨keyTypes, valueTypes⟩, count⟩, found⟩
        exact ⟨⟨⟨keyTypes.symm, valueTypes.symm⟩, count.symm⟩, flip count.symm ▸ found⟩
    | datum | list | function | object => rfl
  agree {b c} otherKeyed thirdKeyed first := by
    cases otherKeyed with
    | map distinct keys values =>
      simp only [same, Bool.and_eq_true, beq_iff_eq] at first
      obtain ⟨⟨⟨keyTypes, valueTypes⟩, count⟩, found⟩ := first
      cases thirdKeyed with
      | map thirdDistinct thirdKeys thirdValues =>
        have agree := sameEntries_agree equates ⟨distinct, keys, values⟩
          ⟨thirdDistinct, thirdKeys, thirdValues⟩ keyed count found
        rw [same, same, keyTypes, valueTypes, count, agree]
      | datum | list | function | object => rfl
    | datum | list | function | object => cases first

/-- **Identity equality is an equivalence** on values whose maps have distinct keys. -/
theorem Keyed.equates {a : Value} (keyed : a.Keyed) : Equates a := by
  induction keyed with
  | @datum leaf => exact equates_datum leaf
  | list _ ih => exact equates_list _ _ ih
  | map distinct keys values keysEquate valuesEquate =>
    exact equates_map _ _ _ (fun entry belongs =>
      ⟨keysEquate entry belongs, valuesEquate entry belongs⟩) ⟨distinct, keys, values⟩
  | @function closure => exact equates_function closure
  | object => exact equates_object _ _ _

end Value

end ExprLang
