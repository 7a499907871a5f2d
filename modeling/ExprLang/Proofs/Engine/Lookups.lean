import ExprLang.Proofs.Engine.Invariants
import ExprLang.Proofs.Engine.Keys

/-!
# Lookups in reachable maps

Identity equality is an equivalence that hashing agrees with (`Value.LawfulEquality`), and in a session
every map that the host gets, or that is anywhere in what it gets, has keys that are pairwise different,
so that a key finds the value of the entry with the same key, by hash and by comparison with all keys
(`Value.LawfulLookups`). Both are put together in `Engine.lookups_are_lawful`. That code of the host
keeps to lawful values is assumed; recipes do (`Recipe.lawful`).
-/

namespace ExprLang

/-! ## Lookups -/

namespace Value

/-- Lookups in the entries of a map: by comparison with all keys, in a hash table whatever the hash
function makes of what it is fed, and by the indexer. Keys may have objects that were made after the
map. -/
structure LawfulLookups (decimal : Decimal → List HashWrite) (roster : Roster)
    (entries : List (Value × Value)) : Prop where
  distinct : DistinctKeys entries
  compared : ∀ wider : Roster, wider.Extends roster → ∀ key : Value, key.Lawful wider →
    ∀ value, findEntry? key entries = some value ↔
      ∃ entry ∈ entries, key.same entry.1 = true ∧ entry.2 = value
  hashed : ∀ wider : Roster, wider.Extends roster → ∀ key : Value, key.Lawful wider →
    ∀ digest, findHashed? decimal digest key entries = findEntry? key entries
  indexed : ∀ wider : Roster, wider.Extends roster → ∀ key : Value, key.Lawful wider →
    ∀ (setting : Setting) loc keyType valueType id mapKey mapValue value next later,
      setting.index loc (.mapEntry keyType valueType) (.map id mapKey mapValue entries) [key] next =
          .ok (value, later) ↔
        later = next ∧ ∃ entry ∈ entries, key.same entry.1 = true ∧ entry.2 = value

/-- Lookups are lawful in every map that is somewhere in a value. -/
def LawfulMaps (decimal : Decimal → List HashWrite) (roster : Roster) (value : Value) : Prop :=
  ∀ {id keyType valueType entries}, Inside (.map id keyType valueType entries) value →
    LawfulLookups decimal roster entries

section Index

variable {setting : Setting} {loc : Location} {keyType valueType mapKey mapValue : Ty}
  {id next later : Nat} {key value : Value} {entries : List (Value × Value)}

/-- The indexer of a map gives what a lookup finds, or reports the key. -/
theorem index_mapEntry :
    setting.index loc (.mapEntry keyType valueType) (.map id mapKey mapValue entries) [key] next =
      match findEntry? key entries with
      | some value => .ok (value, next)
      | none => faultAt loc (.keyMissing key.text) := by
  have filled : (Value.map id mapKey mapValue entries).isNull = false := rfl
  simp only [Setting.index, filled, Bool.false_eq_true, if_false]
  cases findEntry? key entries <;> rfl

theorem index_mapEntry_ok :
    setting.index loc (.mapEntry keyType valueType) (.map id mapKey mapValue entries) [key] next =
        .ok (value, later) ↔
      later = next ∧ findEntry? key entries = some value := by
  rw [index_mapEntry]
  cases findEntry? key entries with
  | none => exact ⟨nofun, nofun⟩
  | some held =>
    simp only [Except.ok.injEq, Prod.mk.injEq, Option.some.injEq]
    rw [and_comm, eq_comm]

end Index

variable {decimal : Decimal → List HashWrite} {roster : Roster} {value : Value}
  {entries : List (Value × Value)}

theorem LawfulEntries.lookups (agrees : Decimal.HashAgrees decimal)
    (lawful : LawfulEntries roster entries) : LawfulLookups decimal roster entries where
  distinct := lawful.distinct
  compared wider _ key keyLawful held := findEntry?_eq_some_iff keyLawful.keyed lawful.keyed
  hashed wider grown key keyLawful digest :=
    findHashed?_eq agrees digest keyLawful.named fun entry belongs =>
      ((lawful.mono grown).keys entry belongs).named
  indexed wider _ key keyLawful setting loc keyType valueType id mapKey mapValue held next later := by
    rw [index_mapEntry_ok, findEntry?_eq_some_iff keyLawful.keyed lawful.keyed]

/-- Lookups are lawful in every map that is somewhere in a lawful value. -/
theorem Lawful.maps (agrees : Decimal.HashAgrees decimal) (lawful : value.Lawful roster) :
    value.LawfulMaps decimal roster := by
  intro id keyType valueType entries inside
  cases lawful.inside inside with
  | map distinct keys values => exact LawfulEntries.lookups agrees ⟨distinct, keys, values⟩

end Value

/-- Nothing is asked of code, so elaboration has nothing to keep. -/
theorem elaborated_keys : Invariant.keys.Elaborated := by
  intro elaborator scope depth form next expr later roster free elaborates
  exact ⟨roster, .refl roster, Invariant.keys.free_of_le free elaborates.next_le, trivial⟩

namespace Engine

/-- **Lookups are lawful.** Values are lawful keys. What evaluation makes in a frame of lawful values
is lawful, so no map that it makes on its way holds a key twice, and neither does one that is anywhere
in what a host has after a session: a lookup finds the value of an entry, by comparison or by hash,
exactly if the key of the entry is the same. -/
theorem lookups_are_lawful {decimal : Decimal → List HashWrite}
    (agrees : Decimal.HashAgrees decimal) :
    Value.LawfulEquality decimal ∧
      (∀ (setting : Setting) (base roster : Roster) (frame : Frame Value) (expr : Expr) (next : Nat),
        setting.host.Lawful base → roster.Extends base → roster.FreeFrom next → frame.Lawful roster →
        ∀ value later, setting.evaluate frame expr next = .ok (value, later) →
          ∃ wider : Roster, wider.Extends roster ∧ wider.FreeFrom later ∧
            value.Lawful wider ∧ value.LawfulMaps decimal wider) ∧
      ∀ (engine : Engine) (base : Roster), engine.host.Lawful base →
        base.FreeFrom engine.supply → engine.globals.Lawful base → ∀ moves : List Move,
        ∃ roster : Roster, roster.Extends base ∧
          (machine.after ⟨engine, [], []⟩ moves).state.globals.Lawful roster ∧
          ∀ value ∈ (machine.after ⟨engine, [], []⟩ moves).values,
            value.Lawful roster ∧ value.LawfulMaps decimal roster := by
  refine ⟨Value.lawfulEquality agrees, ?_, ?_⟩
  · intro setting base roster frame expr next host grown free held value later ok
    have keeps := Setting.keeps_evaluate (Host.lawful_iff.mp host) expr grown
      (Invariant.held_keys.mpr held) trivial
    obtain ⟨wider, further, widerFree, lawful⟩ := keeps next free value later ok
    exact ⟨wider, further, widerFree, lawful, lawful.maps agrees⟩
  · intro engine base host free globals moves
    have start : Session.Keeps .keys base base ⟨engine, [], []⟩ :=
      { host := Host.lawful_iff.mp host
        grown := .refl base
        free := free
        globals := Invariant.held_keys.mpr globals
        units := nofun
        values := nofun }
    obtain ⟨roster, keeps⟩ := start.after elaborated_keys moves
    refine ⟨roster, keeps.grown, Invariant.held_keys.mp keeps.globals, fun value belongs => ?_⟩
    have lawful : value.Lawful roster := keeps.values value belongs
    exact ⟨lawful, lawful.maps agrees⟩

end Engine

/-! ## A session with lists of points as keys -/

namespace PointKeys

def engine : Engine :=
  { host := ⟨[(Recipe.make "Point").callback]⟩ }

def name (text : String) : Form := .atom text ⟨"keys", 1, 1⟩

/-- The list `[first second]` of two names. -/
def pair (first second : String) : Form :=
  .combo .square [name first, name second] ⟨"keys", 1, 1⟩

/-- A session that makes two points, the map `{[p q] 1 [q p] 2}` and another list `[q p]`. -/
def moves : List Move :=
  [.datum (.int 7), .code 0 0 [0], .code 0 0 [0], .define "p" 1, .define "q" 2,
    .compile (.combo .curly [pair "p" "q", name "1", pair "q" "p", name "2"] ⟨"keys", 1, 1⟩),
    .compile (pair "q" "p"), .run 0, .run 1]

def point (id : Nat) : Value :=
  .object id "Point" [.datum (.int 7)]

def points (id first second : Nat) : Value :=
  .list id (.named "Point") [point first, point second]

def entries : List (Value × Value) :=
  [(points 7 1 2, .datum (.int 1)), (points 8 2 1, .datum (.int 2))]

theorem host_lawful : engine.host.Lawful fun _ => none := by
  intro callback belongs
  obtain rfl := List.mem_singleton.mp belongs
  exact (Recipe.make "Point").lawful nofun

theorem values_moves : (Engine.machine.after ⟨engine, [], []⟩ moves).values =
    [.datum (.int 7), point 1, point 2, .map 9 (.list (.named "Point")) .int entries,
      points 10 2 1] := rfl

end PointKeys

open PointKeys in
/-- In the session, hashing finds the entry of the first list `[q p]` for the second one. -/
theorem Engine.lookups_are_lawful_pointKeys :
    Decimal.HashAgrees Decimal.normalFeed ∧ (engine.host.Lawful fun _ => none) ∧
      .map 9 (.list (.named "Point")) .int entries ∈
        (machine.after ⟨engine, [], []⟩ moves).values ∧
      ∀ digest, Value.findHashed? Decimal.normalFeed digest (points 10 2 1) entries =
        some (.datum (.int 2)) := by
  have made : .map 9 (.list (.named "Point")) .int entries ∈
      (machine.after ⟨engine, [], []⟩ moves).values := by
    simp [values_moves]
  obtain ⟨-, -, sessions⟩ := lookups_are_lawful Decimal.hashAgrees_normalFeed
  obtain ⟨roster, -, -, lawful⟩ :=
    sessions engine (fun _ => none) host_lawful (fun _ _ => rfl) nofun moves
  have key : (points 10 2 1).Lawful roster := (lawful _ (by simp [values_moves])).1
  have lookups := (lawful _ made).2 .here
  refine ⟨Decimal.hashAgrees_normalFeed, host_lawful, made, fun digest => ?_⟩
  rw [lookups.hashed roster (.refl roster) _ key, lookups.compared roster (.refl roster) _ key]
  exact ⟨(points 8 2 1, .datum (.int 2)), by simp [entries], rfl, rfl⟩

end ExprLang
