import ExprLang.Proofs.Eval.Invariants
import ExprLang.Proofs.Value.Hashing

/-!
# Keys of reachable maps

A value is lawful (`Value.Lawful`) if all maps in it have distinct keys and all host objects in it have
the type name that a roster gives to their identity. This is an invariant of running
(`Invariant.keys`): a map literal appends an entry only where its key was not found. Code of the host
is assumed to keep it (`Callback.Lawful`), as it has to, because a map of the host is a hash map, which
stores a value under a key (`LawfulEntries.insert`), and a host object gets its type name when it gets
its identity. The roster grows by the objects that are made.
-/

namespace ExprLang

/-! ## Rosters -/

namespace Roster

/-- A roster knows all objects of another one under the same names. -/
def Extends (wider roster : Roster) : Prop :=
  ∀ id typeName, roster id = some typeName → wider id = some typeName

/-- A roster knows no object with an identity that is still to be drawn. -/
def FreeFrom (roster : Roster) (next : Nat) : Prop :=
  ∀ id, next ≤ id → roster id = none

variable {roster wider widest : Roster}

theorem Extends.refl (roster : Roster) : roster.Extends roster :=
  fun _ _ known => known

theorem Extends.trans (second : widest.Extends wider) (first : wider.Extends roster) :
    widest.Extends roster :=
  fun id typeName known => second id typeName (first id typeName known)

/-- The roster with an object that is made under the next identity. -/
def enter (roster : Roster) (next : Nat) (typeName : String) : Roster :=
  fun id => if id = next then some typeName else roster id

theorem FreeFrom.enter_extends {next : Nat} (free : roster.FreeFrom next) (typeName : String) :
    (roster.enter next typeName).Extends roster := by
  intro id name known
  have different : id ≠ next := by
    rintro rfl
    rw [free id (Nat.le_refl _)] at known
    cases known
  rw [enter, if_neg different, known]

theorem FreeFrom.enter {next : Nat} (free : roster.FreeFrom next) (typeName : String) :
    (roster.enter next typeName).FreeFrom (next + 1) := by
  intro id above
  have different : id ≠ next := by omega
  rw [Roster.enter, if_neg different]
  exact free id (Nat.le_of_succ_le above)

end Roster

/-! ## Lawful values -/

namespace Value

/-- All maps in a value have distinct keys, and all host objects in it have the type names of a
roster. -/
inductive Lawful (roster : Roster) : Value → Prop where
  | datum {leaf : Datum} : Lawful roster (.datum leaf)
  | list {id : Nat} {element : Ty} {items : List Value}
      (parts : ∀ item ∈ items, Lawful roster item) : Lawful roster (.list id element items)
  | map {id : Nat} {key value : Ty} {entries : List (Value × Value)}
      (distinct : DistinctKeys entries) (keys : ∀ entry ∈ entries, Lawful roster entry.1)
      (values : ∀ entry ∈ entries, Lawful roster entry.2) : Lawful roster (.map id key value entries)
  | function {closure : Closure Value}
      (slots : ∀ slot ∈ closure.frame.slots, Lawful roster slot.2) : Lawful roster (.function closure)
  | object {id : Nat} {typeName : String} {slots : List Value} (known : roster id = some typeName)
      (parts : ∀ slot ∈ slots, Lawful roster slot) : Lawful roster (.object id typeName slots)

/-- A value is somewhere in another one. -/
inductive Inside : Value → Value → Prop where
  | here {value : Value} : Inside value value
  | item {part item : Value} {id : Nat} {element : Ty} {items : List Value} (belongs : item ∈ items)
      (inside : Inside part item) : Inside part (.list id element items)
  | key {part : Value} {id : Nat} {key value : Ty} {entries : List (Value × Value)}
      {entry : Value × Value} (belongs : entry ∈ entries) (inside : Inside part entry.1) :
      Inside part (.map id key value entries)
  | value {part : Value} {id : Nat} {key value : Ty} {entries : List (Value × Value)}
      {entry : Value × Value} (belongs : entry ∈ entries) (inside : Inside part entry.2) :
      Inside part (.map id key value entries)
  | captured {part : Value} {closure : Closure Value} {slot : Nat × Value}
      (belongs : slot ∈ closure.frame.slots) (inside : Inside part slot.2) :
      Inside part (.function closure)
  | slot {part slot : Value} {id : Nat} {typeName : String} {slots : List Value}
      (belongs : slot ∈ slots) (inside : Inside part slot) : Inside part (.object id typeName slots)

variable {roster wider : Roster} {value part : Value}

theorem Lawful.mono (lawful : value.Lawful roster) (grown : wider.Extends roster) :
    value.Lawful wider := by
  induction lawful with
  | datum => exact .datum
  | list _ ih => exact .list ih
  | map distinct _ _ keys values => exact .map distinct keys values
  | function _ ih => exact .function ih
  | object known _ ih => exact .object (grown _ _ known) ih

theorem Lawful.keyed (lawful : value.Lawful roster) : value.Keyed := by
  induction lawful with
  | datum => exact .datum
  | list _ ih => exact .list ih
  | map distinct _ _ keys values => exact .map distinct keys values
  | function => exact .function
  | object => exact .object

theorem Lawful.named (lawful : value.Lawful roster) : value.Named roster := by
  induction lawful with
  | datum => exact .datum
  | list _ ih => exact .list ih
  | map => exact .map
  | function => exact .function
  | object known => exact .object known

/-- What is in a lawful value is lawful. -/
theorem Lawful.inside (lawful : value.Lawful roster) (inside : part.Inside value) :
    part.Lawful roster := by
  induction inside with
  | here => exact lawful
  | item belongs _ ih =>
    cases lawful with
    | list parts => exact ih (parts _ belongs)
  | key belongs _ ih =>
    cases lawful with
    | map _ keys _ => exact ih (keys _ belongs)
  | value belongs _ ih =>
    cases lawful with
    | map _ _ values => exact ih (values _ belongs)
  | captured belongs _ ih =>
    cases lawful with
    | function slots => exact ih (slots _ belongs)
  | slot belongs _ ih =>
    cases lawful with
    | object _ parts => exact ih (parts _ belongs)

/-- The entries of a lawful map. -/
structure LawfulEntries (roster : Roster) (entries : List (Value × Value)) : Prop where
  distinct : DistinctKeys entries
  keys : ∀ entry ∈ entries, entry.1.Lawful roster
  values : ∀ entry ∈ entries, entry.2.Lawful roster

theorem LawfulEntries.mono {entries : List (Value × Value)} (lawful : LawfulEntries roster entries)
    (grown : wider.Extends roster) : LawfulEntries wider entries where
  distinct := lawful.distinct
  keys entry belongs := (lawful.keys entry belongs).mono grown
  values entry belongs := (lawful.values entry belongs).mono grown

theorem LawfulEntries.keyed {entries : List (Value × Value)} (lawful : LawfulEntries roster entries) :
    KeyedEntries entries where
  distinct := lawful.distinct
  keys entry belongs := (lawful.keys entry belongs).keyed
  values entry belongs := (lawful.values entry belongs).keyed

/-- Entries stay lawful when one is appended whose key was not found. -/
theorem LawfulEntries.append {entries : List (Value × Value)} {key held : Value}
    (lawful : LawfulEntries roster entries) (keyLawful : key.Lawful roster)
    (heldLawful : held.Lawful roster) (absent : ¬ (Value.findEntry? key entries).isSome = true) :
    LawfulEntries roster (entries ++ [(key, held)]) := by
  have either {entry : Value × Value} (belongs : entry ∈ entries ++ [(key, held)]) :
      entry ∈ entries ∨ entry = (key, held) := by
    simpa using List.mem_append.mp belongs
  refine ⟨?_, fun entry belongs => ?_, fun entry belongs => ?_⟩
  · refine List.pairwise_append.mpr ⟨lawful.distinct, List.pairwise_singleton _ _, ?_⟩
    intro entry belongs last isLast
    obtain rfl := List.mem_singleton.mp isLast
    -- The key was compared with the stored keys, and is now compared with from their side.
    rw [← keyLawful.keyed.equates.symm (lawful.keys entry belongs).keyed, Bool.eq_false_iff]
    exact fun same => absent (isSome_findEntry?_iff.mpr ⟨entry, belongs, same⟩)
  · rcases either belongs with earlier | rfl
    · exact lawful.keys entry earlier
    · exact keyLawful
  · rcases either belongs with earlier | rfl
    · exact lawful.values entry earlier
    · exact heldLawful

theorem parts_of_mem_insertEntry {entries : List (Value × Value)} {key held : Value}
    {entry : Value × Value} (belongs : entry ∈ insertEntry key held entries) :
    (entry.1 = key ∨ ∃ old ∈ entries, entry.1 = old.1) ∧
      (entry.2 = held ∨ ∃ old ∈ entries, entry.2 = old.2) := by
  induction entries with
  | nil =>
    obtain rfl := List.mem_singleton.mp belongs
    exact ⟨.inl rfl, .inl rfl⟩
  | cons first rest ih =>
    rw [insertEntry] at belongs
    split at belongs
    · rcases List.mem_cons.mp belongs with rfl | later
      · exact ⟨.inr ⟨first, List.mem_cons_self, rfl⟩, .inl rfl⟩
      · have old := List.mem_cons_of_mem first later
        exact ⟨.inr ⟨entry, old, rfl⟩, .inr ⟨entry, old, rfl⟩⟩
    · rcases List.mem_cons.mp belongs with rfl | later
      · exact ⟨.inr ⟨entry, List.mem_cons_self, rfl⟩, .inr ⟨entry, List.mem_cons_self, rfl⟩⟩
      · rw [List.exists_mem_cons_iff, List.exists_mem_cons_iff]
        exact ⟨(ih later).1.imp_right .inr, (ih later).2.imp_right .inr⟩

/-- Entries stay lawful when a value is stored under a key, so maps that code of a host builds entry by
entry are lawful. -/
theorem LawfulEntries.insert {entries : List (Value × Value)} {key held : Value}
    (lawful : LawfulEntries roster entries) (keyLawful : key.Lawful roster)
    (heldLawful : held.Lawful roster) : LawfulEntries roster (insertEntry key held entries) where
  distinct := by
    obtain ⟨distinct, keys, -⟩ := lawful
    unfold DistinctKeys at distinct ⊢
    induction entries with
    | nil => exact List.pairwise_singleton _ _
    | cons first rest ih =>
      rw [List.forall_mem_cons] at keys
      rw [List.pairwise_cons] at distinct
      rw [insertEntry]
      split
      · exact List.pairwise_cons.mpr distinct
      next other =>
        refine List.pairwise_cons.mpr ⟨fun entry belongs => ?_, ih distinct.2 keys.2⟩
        rcases (parts_of_mem_insertEntry belongs).1 with same | ⟨old, earlier, same⟩
        · rw [same, ← keyLawful.keyed.equates.symm keys.1.keyed]
          exact Bool.eq_false_iff.mpr other
        · rw [same]
          exact distinct.1 old earlier
  keys entry belongs := by
    rcases (parts_of_mem_insertEntry belongs).1 with same | ⟨old, earlier, same⟩
    · exact same ▸ keyLawful
    · exact same ▸ lawful.keys old earlier
  values entry belongs := by
    rcases (parts_of_mem_insertEntry belongs).2 with same | ⟨old, earlier, same⟩
    · exact same ▸ heldLawful
    · exact same ▸ lawful.values old earlier

end Value

def Frame.Lawful (roster : Roster) (frame : Frame Value) : Prop :=
  ∀ slot ∈ frame.slots, slot.2.Lawful roster

/-! ## Running -/

/-- Values are lawful: a world is a roster of the objects that were made. -/
def Invariant.keys : Invariant Roster where
  Grows roster wider := wider.Extends roster
  Free roster next := roster.FreeFrom next
  Drawn _ _ := True
  Code _ _ := True
  Entries roster entries := Value.LawfulEntries roster entries
  Holds roster value := value.Lawful roster
  refl := Roster.Extends.refl
  trans first second := second.trans first
  free_of_le free le id above := free id (Nat.le_trans le above)
  draw {roster _} free :=
    ⟨roster, .refl roster, fun id above => free id (Nat.le_of_succ_le above), trivial⟩
  drawn_mono _ _ := trivial
  code_mono _ _ := trivial
  entries_mono grown lawful := lawful.mono grown
  mono grown lawful := lawful.mono grown
  operand _ _ := trivial
  entries_nil := ⟨.nil, nofun, nofun⟩
  entries_append lawful key held absent := lawful.append key held absent
  entries_value lawful := lawful.values
  datum := .datum
  list_iff {roster id element items} := by
    constructor
    · rintro (_ | parts)
      exact ⟨trivial, parts⟩
    · rintro ⟨-, parts⟩
      exact .list parts
  map_iff {roster id key value entries} := by
    constructor
    · rintro (_ | _ | ⟨distinct, keys, values⟩)
      exact ⟨trivial, distinct, keys, values⟩
    · rintro ⟨-, distinct, keys, values⟩
      exact .map distinct keys values
  function _ _ slots := .function slots
  body _ := trivial
  captured lawful := by
    cases lawful with
    | function slots => exact slots
  object {roster next slots} free parts typeName := by
    have grown := free.enter_extends typeName
    have known : roster.enter next typeName next = some typeName := if_pos rfl
    exact ⟨roster.enter next typeName, grown, free.enter typeName,
      .object known fun slot belongs => (parts slot belongs).mono grown⟩
  slot lawful := by
    cases lawful with
    | object _ parts => exact parts

/-- Code of a host makes lawful values of lawful values, from the objects of a roster on. -/
def Callback.Lawful (base : Roster) (callback : Callback) : Prop :=
  ∀ roster : Roster, roster.Extends base → ∀ target args next value later, roster.FreeFrom next →
    target.Lawful roster → (∀ arg ∈ args, arg.Lawful roster) →
    callback target args next = .ok (value, later) →
    ∃ wider : Roster, wider.Extends roster ∧ wider.FreeFrom later ∧ value.Lawful wider

def Host.Lawful (base : Roster) (host : Host) : Prop :=
  ∀ callback ∈ host.callbacks, Callback.Lawful base callback

theorem Host.lawful_iff {base : Roster} {host : Host} :
    host.Lawful base ↔ host.Keeps .keys base :=
  Iff.rfl

/-- Recipes make lawful values; the value of a constant has to be lawful before. -/
theorem Recipe.lawful {base : Roster} (recipe : Recipe)
    (constants : ∀ value, recipe = .constant value → value.Lawful base) :
    Callback.Lawful base recipe.callback := by
  have keeps : Callback.Keeps .keys base recipe.callback := recipe.keeps constants
  exact keeps

theorem Invariant.held_keys {roster : Roster} {frame : Frame Value} :
    Invariant.keys.Held roster frame ↔ frame.Lawful roster :=
  ⟨fun held => held.slots, fun lawful => ⟨trivial, lawful⟩⟩

end ExprLang
