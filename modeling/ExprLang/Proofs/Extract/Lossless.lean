import ExprLang.Proofs.Engine.Keys
import ExprLang.Proofs.Extract.Room
import ExprLang.Proofs.Phases

/-!
# Extraction loses nothing

The data that extraction gives mirrors the value (`Shape.Mirrors`): the same data at the leaves, lists
and maps item by item and entry by entry in the order of the value, and an option that is none exactly
where the value is null.

For maps this needs that no two keys become the same key of the host, which stores entries one by one.
Extraction keeps the equality of keys in both directions (`Shape.Yields.same_eq`), so the keys of a map
stay as different as they are in the value.
-/

namespace ExprLang

/-! ## Comparing what lists and maps are extracted to -/

namespace Extracted

/-- Lists that are compared item by item are compared as their items are. -/
theorem sameItems_eq {related : Value → Extracted → Prop}
    (same : ∀ {item data other theirs}, related item data → related other theirs →
      data.same theirs = item.same other)
    {items others : List Value} {made theirs : List Extracted}
    (first : List.Forall₂ related items made) (second : List.Forall₂ related others theirs) :
    sameItems made theirs = Value.sameItems items others := by
  induction first generalizing others theirs with
  | nil => cases second <;> rfl
  | cons here _ ih =>
    cases second with
    | nil => rfl
    | cons there further => rw [sameItems, Value.sameItems, same here there, ih further]

/-- Entries that are looked up in others are found as their keys are. -/
theorem sameEntries_eq {related : Value × Value → Extracted × Extracted → Prop}
    (keys : ∀ {entry made other theirs}, related entry made → related other theirs →
      made.1.same theirs.1 = entry.1.same other.1)
    (values : ∀ {entry made other theirs}, related entry made → related other theirs →
      made.2.same theirs.2 = entry.2.same other.2)
    {entries others : List (Value × Value)} {made theirs : List (Extracted × Extracted)}
    (first : List.Forall₂ related entries made) (second : List.Forall₂ related others theirs) :
    sameEntries made theirs = Value.sameEntries entries others := by
  induction first with
  | nil => rfl
  | @cons entry data _ _ here _ ih =>
    have found : Option.Rel related (others.find? fun other => entry.1.same other.1)
        (theirs.find? fun other => data.1.same other.1) := by
      clear ih
      induction second with
      | nil => exact .none
      | cons there _ further =>
        rw [List.find?_cons, List.find?_cons, keys here there]
        split
        · exact .some there
        · exact further
    rw [sameEntries, Value.sameEntries, ih]
    generalize (others.find? fun other => entry.1.same other.1) = hit at found
    generalize (theirs.find? fun other => data.1.same other.1) = otherHit at found
    cases found with
    | none => rfl
    | some there =>
      dsimp only
      rw [values here there]

/-- A key that is not there is stored behind all others. -/
theorem insertEntry_of_new {key held : Extracted} {stored : List (Extracted × Extracted)}
    (new : ∀ entry ∈ stored, key.same entry.1 = false) :
    insertEntry key held stored = stored ++ [(key, held)] := by
  induction stored with
  | nil => rfl
  | cons entry rest ih =>
    rw [List.forall_mem_cons] at new
    rw [insertEntry, if_neg (by rw [new.1]; decide), ih new.2, List.cons_append]

/-- A host map that is stored from entries with different keys has all of them, in order. -/
theorem ofEntries_of_distinct {entries : List (Extracted × Extracted)}
    (distinct : entries.Pairwise fun entry later => later.1.same entry.1 = false) :
    ofEntries entries = .map entries := by
  have stores (entries stored : List (Extracted × Extracted))
      (distinct : (stored ++ entries).Pairwise fun entry later => later.1.same entry.1 = false) :
      entries.foldl (fun stored entry => insertEntry entry.1 entry.2 stored) stored =
        stored ++ entries := by
    induction entries generalizing stored with
    | nil => simp
    | cons entry rest ih =>
      have new : ∀ earlier ∈ stored, entry.1.same earlier.1 = false := fun earlier belongs =>
        (List.pairwise_append.mp distinct).2.2 earlier belongs entry List.mem_cons_self
      rw [List.append_cons] at distinct ⊢
      rw [List.foldl_cons, insertEntry_of_new new, ih _ distinct]
  rw [ofEntries, stores entries [] distinct, List.nil_append]

end Extracted

/-- No value but null is the same key as null. -/
theorem Value.null_same {value : Value} (present : value ≠ .null) : Value.null.same value = false := by
  cases value with
  | datum leaf =>
    cases leaf with
    | null => exact absurd rfl present
    | bool | char | byte | integer | float | double | decimal | string | type => rfl
  | list | map | function | object => rfl

namespace Shape

/-! ## What data mirrors a value -/

/-- Data mirrors a value in a shape. -/
def Mirrors : Shape → Value → Extracted → Prop
  | .value, found, data => data = .value found
  | .closure, found, data => ∃ called, found = .function called ∧ data = .closure called
  | .option inner, found, data => (found = .null ∧ data = .none) ∨
      found ≠ .null ∧ ∃ held, data = .some held ∧ inner.Mirrors found held
  | .vec inner, found, data => ∃ id element items made, found = .list id element items ∧
      data = .vec made ∧ List.Forall₂ inner.Mirrors items made
  | .map keys values, found, data => ∃ id key held entries made,
      found = .map id key held entries ∧ data = .map made ∧
        List.Forall₂ (fun entry pair => keys.Mirrors entry.1 pair.1 ∧ values.Mirrors entry.2 pair.2)
          entries made ∧
        made.Pairwise fun pair later => later.1.same pair.1 = false
  | scalar, found, data => ∃ datum, found = .datum datum ∧ data = .datum datum ∧
      ∃ basic, scalar.scalarTy? = some basic ∧ datum.ty? = some basic

variable {registry : Registry} {supplied : Closure Value → Prop} {shape inner keys values : Shape}
  {basic ty element keyTy valueTy : Ty} {value other : Value} {data made : Extracted}

theorem mirrors_scalar (scalar : shape.scalarTy? = some basic) {datum : Datum}
    (shown : datum.ty? = some basic) : shape.Mirrors (.datum datum) (.datum datum) := by
  cases shape <;> cases scalar <;> exact ⟨datum, rfl, rfl, _, rfl, shown⟩

/-! ## What extraction yields -/

/-- Of a well-typed value, whose maps have distinct keys, extraction yields data. -/
structure Yields (registry : Registry) (supplied : Closure Value → Prop) (shape : Shape) (ty : Ty)
    (value : Value) (data : Extracted) : Prop where
  wellTyped : WellTyped registry supplied value ty
  keyed : value.Keyed
  extracted : shape.extract value = some data

namespace Yields

theorem scalar_inv (hostBased : registry.HostBased) (scalar : shape.scalarTy? = some basic)
    (yields : Yields registry supplied shape basic value data) :
    ∃ datum, value = .datum datum ∧ data = .datum datum ∧ datum.ty? = some basic := by
  obtain ⟨prim, rfl, notObject⟩ := scalarTy?_eq_some scalar
  have extracted := yields.extracted
  rcases yields.wellTyped.null_or_datum hostBased notObject with rfl | ⟨datum, rfl, shown⟩
  · rw [extract_datum scalar] at extracted
    cases extracted
  · rw [extract_datum scalar, if_pos shown] at extracted
    cases extracted
    exact ⟨datum, rfl, rfl, shown⟩

theorem value_inv (yields : Yields registry supplied .value ty value data) : data = .value value := by
  have extracted := yields.extracted
  rw [extract] at extracted
  exact (Option.some.inj extracted).symm

theorem closure_inv (yields : Yields registry supplied .closure ty value data) :
    ∃ called, value = .function called ∧ data = .closure called := by
  have extracted := yields.extracted
  cases value with
  | function called =>
    rw [extract] at extracted
    exact ⟨called, rfl, (Option.some.inj extracted).symm⟩
  | datum | list | map | object => simp [extract] at extracted

theorem option_inv (yields : Yields registry supplied (.option inner) ty value data) :
    (value = .null ∧ data = .none) ∨
      value ≠ .null ∧ ∃ held, data = .some held ∧ Yields registry supplied inner ty value held := by
  have extracted := yields.extracted
  by_cases null : value = .null
  · subst null
    rw [extract] at extracted
    exact .inl ⟨rfl, (Option.some.inj extracted).symm⟩
  · rw [extract_option null, Option.map_eq_some_iff] at extracted
    obtain ⟨held, extracted, rfl⟩ := extracted
    exact .inr ⟨null, held, rfl, yields.wellTyped, yields.keyed, extracted⟩

theorem vec_inv (hostBased : registry.HostBased)
    (yields : Yields registry supplied (.vec inner) (.list element) value data) :
    ∃ id items made, value = .list id element items ∧ data = .vec made ∧
      List.Forall₂ (Yields registry supplied inner element) items made := by
  obtain ⟨wellTyped, keyed, extracted⟩ := yields
  rcases wellTyped.null_or_list hostBased with rfl | ⟨id, items, rfl, typed⟩
  · simp [extract] at extracted
  · rw [extract_list, Option.map_eq_some_iff] at extracted
    obtain ⟨made, extracted, rfl⟩ := extracted
    cases keyed with
    | list keyed =>
      refine ⟨id, items, made, rfl, rfl, ?_⟩
      have parts := (List.forall₂_and_left _ _).mpr ⟨fun item belongs => And.intro (typed item belongs)
        (keyed item belongs), mapM_eq_some_iff.mp extracted⟩
      exact parts.imp fun _ _ held => ⟨held.1.1, held.1.2, held.2⟩

/-- The key and the value of an entry are extracted. -/
structure Entry (registry : Registry) (supplied : Closure Value → Prop) (keys values : Shape)
    (keyTy valueTy : Ty) (entry : Value × Value) (pair : Extracted × Extracted) : Prop where
  key : Yields registry supplied keys keyTy entry.1 pair.1
  value : Yields registry supplied values valueTy entry.2 pair.2

theorem map_inv (hostBased : registry.HostBased)
    (yields : Yields registry supplied (.map keys values) (.map keyTy valueTy) value data) :
    ∃ id entries made, value = .map id keyTy valueTy entries ∧ data = .ofEntries made ∧
      Value.DistinctKeys entries ∧
      List.Forall₂ (Entry registry supplied keys values keyTy valueTy) entries made := by
  obtain ⟨wellTyped, keyed, extracted⟩ := yields
  rcases wellTyped.null_or_map hostBased with rfl | ⟨id, entries, rfl, typed⟩
  · simp [extract] at extracted
  · rw [extract_map, Option.map_eq_some_iff] at extracted
    obtain ⟨made, extracted, rfl⟩ := extracted
    cases keyed with
    | map distinct keysKeyed valuesKeyed =>
      refine ⟨id, entries, made, rfl, rfl, distinct, ?_⟩
      have parts := (List.forall₂_and_left _ _).mpr ⟨fun entry belongs => And.intro
        (typed entry belongs) (And.intro (keysKeyed entry belongs) (valuesKeyed entry belongs)),
        mapM_eq_some_iff.mp extracted⟩
      refine parts.imp fun entry pair held => ?_
      obtain ⟨⟨typed, keyed⟩, extracted⟩ := held
      obtain ⟨key, value⟩ := extractEntry_eq_some_iff.mp extracted
      exact ⟨⟨typed.1, keyed.1, key⟩, ⟨typed.2, keyed.2, value⟩⟩

/-- Keys that are different stay different if extraction keeps the equality of keys. -/
theorem distinct_of_same_eq
    (same : ∀ {value other data made}, Yields registry supplied keys keyTy value data →
      Yields registry supplied keys keyTy other made → data.same made = value.same other)
    {entries : List (Value × Value)} {pairs : List (Extracted × Extracted)}
    (distinct : Value.DistinctKeys entries)
    (parts : List.Forall₂ (Entry registry supplied keys values keyTy valueTy) entries pairs) :
    pairs.Pairwise fun pair later => later.1.same pair.1 = false := by
  induction parts with
  | nil => exact .nil
  | @cons entry pair rest pairs here parts ih =>
    obtain ⟨apart, distinct⟩ := List.pairwise_cons.mp distinct
    refine List.pairwise_cons.mpr ⟨fun later belongs => ?_, ih distinct⟩
    obtain ⟨position, bound, rfl⟩ := List.getElem_of_mem belongs
    have inside : position < rest.length := parts.length_eq ▸ bound
    have there := parts.get inside bound
    simp only [List.get_eq_getElem] at there
    have before := apart _ (List.getElem_mem inside)
    rw [here.key.keyed.equates.symm there.key.keyed] at before
    exact (same there.key here.key).trans before

/-- **Extraction keeps the equality of keys.** Data that two values of one type are extracted to are the
same key of the host exactly if the values are the same key. -/
theorem same_eq (hostBased : registry.HostBased) (accepted : shape.accepts ty = true)
    (first : Yields registry supplied shape ty value data)
    (second : Yields registry supplied shape ty other made) : data.same made = value.same other := by
  induction shape using kinds generalizing value other data made ty with
  | scalar scalar =>
    obtain rfl := (accepts_scalar scalar).mp accepted
    obtain ⟨datum, rfl, rfl, -⟩ := first.scalar_inv hostBased scalar
    obtain ⟨datum, rfl, rfl, -⟩ := second.scalar_inv hostBased scalar
    rfl
  | value =>
    rw [first.value_inv, second.value_inv]
    rfl
  | closure =>
    obtain ⟨called, rfl, rfl⟩ := first.closure_inv
    obtain ⟨called, rfl, rfl⟩ := second.closure_inv
    rfl
  | option inner ih =>
    rcases first.option_inv with ⟨rfl, rfl⟩ | ⟨present, held, rfl, inside⟩ <;>
      rcases second.option_inv with ⟨rfl, rfl⟩ | ⟨otherPresent, theirs, rfl, otherInside⟩
    · rfl
    · exact (Value.null_same otherPresent).symm
    · rw [first.keyed.equates.symm second.keyed]
      exact (Value.null_same present).symm
    · rw [Extracted.same]
      exact ih accepted inside otherInside
  | vec inner ih =>
    obtain ⟨element, rfl, accepted⟩ := accepts_vec.mp accepted
    obtain ⟨id, items, made, rfl, rfl, parts⟩ := first.vec_inv hostBased
    obtain ⟨otherId, others, theirs, rfl, rfl, otherParts⟩ := second.vec_inv hostBased
    have items := Extracted.sameItems_eq (ih accepted) parts otherParts
    simp only [Extracted.same, Value.same, items, beq_self_eq_true, Bool.true_and]
  | map keys values keysIh valuesIh =>
    obtain ⟨keyTy, valueTy, rfl, keysAccept, valuesAccept⟩ := accepts_map.mp accepted
    obtain ⟨id, entries, made, rfl, rfl, distinct, parts⟩ := first.map_inv hostBased
    obtain ⟨otherId, others, theirs, rfl, rfl, otherDistinct, otherParts⟩ := second.map_inv hostBased
    have found := Extracted.sameEntries_eq (fun here there => keysIh keysAccept here.key there.key)
      (fun here there => valuesIh valuesAccept here.value there.value) parts otherParts
    rw [Extracted.ofEntries_of_distinct (distinct_of_same_eq (keysIh keysAccept) distinct parts),
      Extracted.ofEntries_of_distinct
        (distinct_of_same_eq (keysIh keysAccept) otherDistinct otherParts)]
    simp only [Extracted.same, Value.same, found, parts.length_eq, otherParts.length_eq,
      beq_self_eq_true, Bool.true_and]

/-- What extraction yields mirrors the value. -/
theorem mirrors (hostBased : registry.HostBased) (accepted : shape.accepts ty = true)
    (yields : Yields registry supplied shape ty value data) : shape.Mirrors value data := by
  induction shape using kinds generalizing value data ty with
  | scalar scalar =>
    obtain rfl := (accepts_scalar scalar).mp accepted
    obtain ⟨datum, rfl, rfl, shown⟩ := yields.scalar_inv hostBased scalar
    exact mirrors_scalar scalar shown
  | value =>
    rw [Mirrors]
    exact yields.value_inv
  | closure =>
    rw [Mirrors]
    exact yields.closure_inv
  | option inner ih =>
    rw [Mirrors]
    rcases yields.option_inv with null | ⟨present, held, rfl, inside⟩
    · exact .inl null
    · exact .inr ⟨present, held, rfl, ih accepted inside⟩
  | vec inner ih =>
    obtain ⟨element, rfl, accepted⟩ := accepts_vec.mp accepted
    obtain ⟨id, items, made, rfl, rfl, parts⟩ := yields.vec_inv hostBased
    exact ⟨id, element, items, made, rfl, rfl, parts.imp fun _ _ part => ih accepted part⟩
  | map keys values keysIh valuesIh =>
    obtain ⟨keyTy, valueTy, rfl, keysAccept, valuesAccept⟩ := accepts_map.mp accepted
    obtain ⟨id, entries, made, rfl, rfl, distinct, parts⟩ := yields.map_inv hostBased
    have apart := distinct_of_same_eq (fun first second => first.same_eq hostBased keysAccept second)
      distinct parts
    rw [Extracted.ofEntries_of_distinct apart]
    exact ⟨id, keyTy, valueTy, entries, made, rfl, rfl, parts.imp fun _ _ part =>
      ⟨keysIh keysAccept part.key, valuesIh valuesAccept part.value⟩, apart⟩

end Yields

end Shape

/-! ## Asking a unit for data -/

namespace Engine

variable {engine runner later last : Engine} {supplied : Closure Value → Prop} {form : Form}
  {unit : CompiledUnit} {shape : Shape} {value : Value}

/-- A unit that runs is asked for data in a shape that accepts its type. -/
theorem extract_eq (accepted : shape.accepts unit.root.ty = true)
    (ran : runner.invoke unit = .ok (value, last)) :
    runner.extract unit shape = match shape.extract value with
      | some data => .ok (data, last)
      | none => faultAt unit.root.loc (.resultOfOtherType value.typeName shape.name) := by
  unfold extract
  rw [if_pos accepted]
  simp only [bind, Except.bind, ran]
  cases shape.extract value <;> rfl

/-- What an engine makes of lawful globals has maps with distinct keys. -/
theorem keyed_of_invoke {base : Roster} (host : runner.host.Lawful base)
    (free : base.FreeFrom runner.supply) (frame : unit.frame.Lawful base)
    (ran : runner.invoke unit = .ok (value, last)) : value.Keyed := by
  unfold invoke at ran
  obtain ⟨supply, evaluated, -⟩ := perform_ok ran
  have keeps : ((Setting.mk unit.registry runner.host).evaluate unit.frame unit.root).Keeps
      .keys base Invariant.keys.Holds :=
    Setting.keeps_evaluate (Host.lawful_iff.mp host) unit.root (Roster.Extends.refl base)
      (Invariant.held_keys.mpr frame) trivial
  obtain ⟨roster, -, -, lawful⟩ := keeps runner.supply free value supply evaluated
  exact Value.Lawful.keyed lawful

/-- What asking a unit for data in a shape comes to, if running it gives a value. -/
structure Obtains (runner : Engine) (unit : CompiledUnit) (shape : Shape) (value : Value)
    (last : Engine) : Prop where
  fails : ∀ report, runner.extract unit shape = .error report ↔ shape.LacksRoom value ∧
    report = (Fault.resultOfOtherType value.typeName shape.name).reportAt unit.root.loc
  mismatch : ∀ report, runner.extract unit shape = .error report → report.code = .typeMismatch
  mirrors : ∀ data after, runner.extract unit shape = .ok (data, after) →
    shape.Mirrors value data ∧ after = last

theorem obtains_of_invoke (accepted : shape.accepts unit.root.ty = true)
    (ran : runner.invoke unit = .ok (value, last))
    (complete : shape.extract value = none ↔ shape.LacksRoom value)
    (mirrors : ∀ data, shape.extract value = some data → shape.Mirrors value data) :
    runner.Obtains unit shape value last := by
  have answer := extract_eq accepted ran
  cases extracted : shape.extract value with
  | none =>
    rw [extracted, faultAt] at answer
    have lacks := complete.mp extracted
    constructor
    · intro report
      rw [answer, Except.error.injEq, eq_comm, and_iff_right lacks]
    · rintro report failed
      cases answer.symm.trans failed
      rfl
    · intro data after obtained
      cases answer.symm.trans obtained
  | some data =>
    rw [extracted] at answer
    have fits : ¬ shape.LacksRoom value := fun lacks => by
      cases (complete.mpr lacks).symm.trans extracted
    constructor
    · intro report
      rw [answer]
      exact iff_of_false nofun fun failed => fits failed.1
    · intro report failed
      cases answer.symm.trans failed
    · intro made after obtained
      cases answer.symm.trans obtained
      exact ⟨mirrors data extracted, rfl⟩

/-- **Typed extraction.** Of a well-typed value whose type a shape accepts, extraction fails exactly if
the shape asks for a null where it has no room for one, and otherwise gives data that mirrors the value.
So a unit that runs fails to give data of a shape that accepts its type only because of such a null. -/
theorem typed_extraction (supplied : Closure Value → Prop) :
    (∀ (registry : Registry) (shape : Shape) (ty : Ty) (value : Value), registry.HostBased →
      shape.accepts ty = true → WellTyped registry supplied value ty →
        (shape.extract value = none ↔ shape.LacksRoom value) ∧
        (value.Keyed → ∀ data, shape.extract value = some data → shape.Mirrors value data)) ∧
    ∀ (engine : Engine) form unit later, engine.Trusted supplied →
      engine.compileForm form = .ok (unit, later) → ∀ (runner : Engine) (base : Roster),
        runner.host.Sound engine.registry supplied → runner.host.Lawful base →
        base.FreeFrom runner.supply → engine.globals.Lawful base →
        ∀ value last, runner.invoke unit = .ok (value, last) →
          ∀ shape : Shape, shape.accepts unit.root.ty = true →
            runner.Obtains unit shape value last := by
  refine ⟨fun registry shape ty value hostBased accepted wellTyped => ?_, ?_⟩
  · refine ⟨Shape.extract_eq_none_iff hostBased accepted wellTyped, fun keyed data extracted => ?_⟩
    have yields : Shape.Yields registry supplied shape ty value data := ⟨wellTyped, keyed, extracted⟩
    exact yields.mirrors hostBased accepted
  · intro engine form unit later trusted compiled runner base sound lawful free globals value last ran
      shape accepted
    have guaranteed := trusted.meets_invoke compiled sound
    obtain ⟨frame, registry, -⟩ := compileForm_ok compiled
    have keyed : value.Keyed := keyed_of_invoke lawful free (frame ▸ globals) ran
    have wellTyped : WellTyped engine.registry supplied value unit.root.ty := by
      unfold invoke at ran
      obtain ⟨supply, evaluated, -⟩ := perform_ok ran
      rw [← registry]
      exact (guaranteed runner.supply).of_ok evaluated
    refine obtains_of_invoke accepted ran
      (Shape.extract_eq_none_iff trusted.hostBased accepted wellTyped) fun data extracted => ?_
    have yields : Shape.Yields engine.registry supplied shape unit.root.ty value data :=
      ⟨wellTyped, keyed, extracted⟩
    exact yields.mirrors trusted.hostBased accepted

end Engine

/-! ## A map with null as a key -/

namespace PointHost

theorem host_lawful : engine.host.Lawful fun _ => none := by
  intro callback belongs
  obtain rfl := List.mem_singleton.mp belongs
  exact (Recipe.make "Point").lawful nofun

def scores : Form :=
  let loc : Location := ⟨"scores", 1, 1⟩
  let atom (text : String) : Form := .atom text loc
  .combo .curly [atom "\"a\"", atom "1", .combo .paren [atom "default", atom "string"] loc,
    atom "2"] loc

def scoreMap : Value :=
  .map 1 .string .int [(.string "a", .datum (.int 1)), (.null, .datum (.int 2))]

theorem scoreMap_wellTyped (supplied : Closure Value → Prop) :
    WellTyped registry supplied scoreMap (.map .string .int) := by
  have string : registry.isAssignable .string .string = true := registry.isAssignable_refl _
  have int : registry.isAssignable .int .int = true := registry.isAssignable_refl _
  refine .map (registry.isAssignable_refl _) ?_ ?_
  · exact List.forall_mem_cons.mpr ⟨.datum rfl string,
      List.forall_mem_cons.mpr ⟨.null rfl, List.forall_mem_nil _⟩⟩
  · exact List.forall_mem_cons.mpr ⟨.datum rfl int,
      List.forall_mem_cons.mpr ⟨.datum rfl int, List.forall_mem_nil _⟩⟩

theorem scoreMap_keyed : scoreMap.Keyed := by
  refine .map (List.pairwise_pair.mpr rfl) ?_ ?_
  · exact List.forall_mem_cons.mpr ⟨.datum, List.forall_mem_cons.mpr ⟨.datum, List.forall_mem_nil _⟩⟩
  · exact List.forall_mem_cons.mpr ⟨.datum, List.forall_mem_cons.mpr ⟨.datum, List.forall_mem_nil _⟩⟩

end PointHost

namespace Engine

/-- A map with null as a key is extracted with optional strings as keys, and lacks room where keys are
strings. -/
theorem typed_extraction_scores :
    ∃ unit later last, PointHost.engine.compileForm PointHost.scores = .ok (unit, later) ∧
      later.invoke unit = .ok (PointHost.scoreMap, last) ∧
      later.Obtains unit (.map .string (.integer .int)) PointHost.scoreMap last ∧
      later.Obtains unit (.map (.option .string) (.integer .int)) PointHost.scoreMap last ∧
      (Shape.map .string (.integer .int)).LacksRoom PointHost.scoreMap ∧
      (Shape.map (.option .string) (.integer .int)).Mirrors PointHost.scoreMap
        (.map [(.some (.datum (.string "a")), .datum (.int 1)), (.none, .datum (.int 2))]) := by
  obtain ⟨values, units⟩ := typed_extraction fun _ => False
  have valued (shape : Shape) (accepted : shape.accepts (.map .string .int) = true) :=
    values PointHost.registry shape _ _ PointHost.hostBased accepted
      (PointHost.scoreMap_wellTyped _)
  have asked := units PointHost.engine PointHost.scores _ _ PointHost.trusted rfl
    { PointHost.engine with supply := 1 } (fun _ => none) (PointHost.sound _) PointHost.host_lawful
    (fun _ _ => rfl) nofun _ _ rfl
  refine ⟨_, { PointHost.engine with supply := 1 }, _, rfl, rfl, ?_, ?_, ?_, ?_⟩
  · exact asked (.map .string (.integer .int)) rfl
  · exact asked (.map (.option .string) (.integer .int)) rfl
  · exact (valued (.map .string (.integer .int)) rfl).1.mp rfl
  · exact (valued (.map (.option .string) (.integer .int)) rfl).2 PointHost.scoreMap_keyed _ rfl

end Engine

end ExprLang
