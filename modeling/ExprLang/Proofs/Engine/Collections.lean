import ExprLang.Proofs.Elaboration.Derivation
import ExprLang.Proofs.Engine.Lookups
import ExprLang.Proofs.Eval.Entries

/-!
# What indexers give of collections

A list or map literal stores the values of its parts in the order in which they are written, and an
indexer gives back the item at a position or the value of the only entry whose key is the same
(`Elaborator.collections_store`). Keys can be any values: there is one entry for a key because the keys
of a map that a session makes are pairwise different, and because identity equality is an equivalence.
-/

namespace ExprLang

/-! ## Typing -/

/-- A target with one indexer of one parameter takes one argument whose type is assignable to it. -/
theorem Typing.index_of_single {registry : Registry} {loc : Location} {target expr : Expr}
    {args : List Expr} {indexer : Indexer} {param : Ty}
    (only : registry.indexers target.ty = [indexer]) (params : indexer.params = [param]) :
    index registry loc target args = .ok expr ↔
      ∃ arg, args = [arg] ∧ registry.isAssignable arg.ty param = true ∧
        expr = .index ⟨indexer.result, loc⟩ indexer target [arg] := by
  have single (arg : Expr) : registry.areAssignable ([arg].map (·.ty)) indexer.params =
      registry.isAssignable arg.ty param := by
    simp [params, Registry.areAssignable]
  constructor
  · intro rule
    obtain ⟨chosen, found, rfl⟩ := eq_of_index rule
    rw [only] at found
    obtain rfl := List.mem_singleton.mp (List.mem_of_find?_eq_some found)
    have accepted := List.find?_some found
    have count : args.length = 1 := by
      rw [params, Registry.areAssignable, Bool.and_eq_true, List.length_map] at accepted
      exact eq_of_beq accepted.1
    obtain ⟨arg, rfl⟩ := List.length_eq_one_iff.mp count
    exact ⟨arg, rfl, (single arg).symm.trans accepted, rfl⟩
  · rintro ⟨arg, rfl, accepted, rfl⟩
    unfold index
    simp only [only, List.find?_cons, single arg, accepted]

/-! ## Access -/

/-- Only one entry has a key that is the same as a given one. -/
theorem Value.KeyedEntries.place_unique {entries : List (Value × Value)} {key : Value}
    {first second : Value × Value} {place other : Nat} (keyed : KeyedEntries entries)
    (keyKeyed : key.Keyed) (found : entries[place]? = some first)
    (otherFound : entries[other]? = some second) (same : key.same first.1 = true)
    (otherSame : key.same second.1 = true) : place = other := by
  have firstKey := keyed.keys first (List.mem_of_getElem? found)
  have secondKey := keyed.keys second (List.mem_of_getElem? otherFound)
  have forth := keyKeyed.equates.euclid firstKey secondKey same otherSame
  have back := keyKeyed.equates.euclid secondKey firstKey otherSame same
  obtain ⟨bound, rfl⟩ := List.getElem?_eq_some_iff.mp found
  obtain ⟨otherBound, rfl⟩ := List.getElem?_eq_some_iff.mp otherFound
  have apart := List.pairwise_iff_getElem.mp keyed.distinct
  rcases Nat.lt_trichotomy place other with less | equal | greater
  · cases forth.symm.trans (apart place other bound otherBound less)
  · exact equal
  · cases back.symm.trans (apart other place otherBound bound greater)

namespace Setting

variable {setting : Setting} {frame : Frame Value} {loc : Location} {key : Value}
  {items : List Value} {entries : List (Value × Value)}

/-- What a list of items gives at a position. -/
inductive ItemAt (loc : Location) (items : List Value) (position : Int) :
    Except Diagnostic Value → Prop where
  | item {place : Nat} {value : Value} (counted : position = place)
      (found : items[place]? = some value) : ItemAt loc items position (.ok value)
  | outside (out : position < 0 ∨ items.length ≤ position) :
      ItemAt loc items position (faultAt loc (.listIndex position items.length))

/-- What entries give for a key. -/
inductive EntryOf (loc : Location) (entries : List (Value × Value)) (key : Value) :
    Except Diagnostic Value → Prop where
  | entry {place : Nat} {entry : Value × Value} (found : entries[place]? = some entry)
      (same : key.same entry.1 = true)
      (only : ∀ other second, entries[other]? = some second → key.same second.1 = true →
        other = place) : EntryOf loc entries key (.ok entry.2)
  | missing (none : ∀ entry ∈ entries, key.same entry.1 = false) :
      EntryOf loc entries key (faultAt loc (.keyMissing key.text))

theorem index_itemAt (setting : Setting) (loc : Location) (elementTy element : Ty) (id : Nat)
    (items : List Value) (word : BitVec 32) (next : Nat) :
    ∃ outcome, ItemAt loc items word.toInt outcome ∧
      setting.index loc (.listElement elementTy) (.list id element items) [.datum (.int word)] next =
        outcome.map (·, next) := by
  have filled : (Value.list id element items).isNull = false := rfl
  simp only [index, filled, Bool.false_eq_true, if_false, position?]
  split
  next nonnegative =>
    have counted : word.toInt = (word.toInt.toNat : Int) := (Int.toNat_of_nonneg nonnegative).symm
    rw [Option.bind_some]
    cases found : items[word.toInt.toNat]? with
    | some value => exact ⟨_, .item counted found, rfl⟩
    | none =>
      have out := List.getElem?_eq_none_iff.mp found
      exact ⟨_, .outside (.inr (by omega)), rfl⟩
  next negative => exact ⟨_, .outside (.inl (by omega)), rfl⟩

theorem index_entryOf (setting : Setting) (loc : Location) (keyTy valueTy mapKey mapValue : Ty)
    (id : Nat) (keyed : Value.KeyedEntries entries) (keyKeyed : key.Keyed) (next : Nat) :
    ∃ outcome, EntryOf loc entries key outcome ∧
      setting.index loc (.mapEntry keyTy valueTy) (.map id mapKey mapValue entries) [key] next =
        outcome.map (·, next) := by
  rw [Value.index_mapEntry]
  cases found : Value.findEntry? key entries with
  | some value =>
    obtain ⟨entry, belongs, same, rfl⟩ := (Value.findEntry?_eq_some_iff keyKeyed keyed).mp found
    obtain ⟨place, there⟩ := List.mem_iff_getElem?.mp belongs
    refine ⟨_, .entry there same fun other second otherThere otherSame => ?_, rfl⟩
    exact keyed.place_unique keyKeyed otherThere there otherSame same
  | none =>
    refine ⟨_, .missing fun entry belongs => ?_, rfl⟩
    refine Bool.eq_false_iff.mpr fun same => ?_
    have hit := (Value.findEntry?_eq_some_iff keyKeyed keyed).mpr ⟨entry, belongs, same, rfl⟩
    cases found.symm.trans hit

/-! ## Expressions -/

/-- From a supply on, a setting runs in a frame on lawful values: the frame holds such values, and code
of the host makes them of such values. -/
structure RunsLawful (setting : Setting) (frame : Frame Value) (base roster : Roster) (next : Nat) :
    Prop where
  host : setting.host.Lawful base
  grown : roster.Extends base
  free : roster.FreeFrom next
  values : frame.Lawful roster

variable {base roster : Roster} {next later last : Nat} {expr target arg : Expr} {node : Node}
  {value targetValue : Value}

/-- What evaluates is lawful, and what runs afterwards does so on lawful values. -/
theorem RunsLawful.evaluate (runs : setting.RunsLawful frame base roster next)
    (ran : setting.evaluate frame expr next = .ok (value, later)) :
    ∃ wider, wider.Extends roster ∧ setting.RunsLawful frame base wider later ∧ value.Lawful wider := by
  have keeps := keeps_evaluate (Host.lawful_iff.mp runs.host) expr runs.grown
    (Invariant.held_keys.mpr runs.values) trivial
  obtain ⟨wider, further, free, lawful⟩ := keeps next runs.free value later ran
  refine ⟨wider, further, ⟨runs.host, further.trans runs.grown, free, fun slot belongs => ?_⟩, lawful⟩
  exact (runs.values slot belongs).mono further

theorem evaluate_list (node : Node) (element : Ty) (items : List Expr) :
    setting.evaluate frame (.list node element items) next =
      (setting.evaluateAll frame items next).map fun made =>
        (.list made.2 element made.1, made.2 + 1) := by
  rw [evaluate]
  exact Run.bind_eq_map fun _ _ => rfl

theorem evaluate_map (node : Node) (key held : Ty) (entries : List (Expr × Expr)) :
    setting.evaluate frame (.map node key held entries) next =
      (setting.evaluateEntries frame [] entries next).map fun made =>
        (.map made.2 key held made.1, made.2 + 1) := by
  rw [evaluate]
  exact Run.bind_eq_map fun _ _ => rfl

/-- An access with one argument applies the indexer to the values of the target and the argument. -/
theorem evaluate_index (node : Node) (indexer : Indexer)
    (targetRan : setting.evaluate frame target next = .ok (targetValue, later))
    (argRan : setting.evaluate frame arg later = .ok (value, last)) :
    setting.evaluate frame (.index node indexer target [arg]) next =
      setting.index node.loc indexer targetValue [value] last := by
  have args : setting.evaluateAll frame [arg] later = .ok ([value], last) := by
    rw [evaluateAll, Run.bind_of_ok argRan]
    rfl
  rw [evaluate, Run.bind_of_ok targetRan, Run.bind_of_ok args]

/-- A map literal makes the map of all its entries in order if all can be read and no key is
repeated, and stops at one entry otherwise: where a part of it fails or where its key is repeated, but
not both. -/
structure MakesMap (setting : Setting) (frame : Frame Value) (key held : Ty)
    (entries : List (Expr × Expr)) (start : Nat) (outcome : Except Diagnostic (Value × Nat)) :
    Prop where
  made : ∀ value last, outcome = .ok (value, last) ↔ ∃ made read,
    setting.Reads frame entries start made read ∧ made.length = entries.length ∧
      Value.Unrepeated made ∧ value = .map read key held made ∧ last = read + 1
  stopped : ∀ report, outcome = .error report ↔
    setting.Stops frame [] entries start (fun _ => setting.FailsToRead frame report) ∨
      setting.Stops frame [] entries start (setting.Repeats frame report)
  either : ∀ report other, setting.Stops frame [] entries start (setting.Repeats frame report) →
    ¬ setting.Stops frame [] entries start fun _ => setting.FailsToRead frame other

theorem makesMap (setting : Setting) (frame : Frame Value) (node : Node) (key held : Ty)
    (entries : List (Expr × Expr)) (start : Nat) :
    setting.MakesMap frame key held entries start
      (setting.evaluate frame (.map node key held entries) start) where
  made value last := by
    rw [evaluate_map, Engine.map_ok]
    constructor
    · rintro ⟨⟨made, read⟩, ok, same⟩
      obtain ⟨added, reads, rfl, unrepeated⟩ := (evaluateEntries_ok .nil).mp ok
      cases same
      exact ⟨_, read, reads, reads.length_eq, unrepeated, rfl, rfl⟩
    · rintro ⟨made, read, reads, -, unrepeated, rfl, rfl⟩
      exact ⟨(made, read), (evaluateEntries_ok .nil).mpr ⟨made, reads, rfl, unrepeated⟩, rfl⟩
  stopped report := by
    rw [evaluate_map, ← evaluateEntries_error .nil]
    exact Engine.map_error
  either report other := Stops.not_fails

/-- An access gives the item at a position of a list, whatever the target and the argument are. -/
def GivesItems (setting : Setting) (loc : Location) (target arg expr : Expr) : Prop :=
  ∀ frame start id element items after word last,
    setting.evaluate frame target start = .ok (.list id element items, after) →
    setting.evaluate frame arg after = .ok (.datum (.int word), last) →
      ∃ outcome, ItemAt loc items word.toInt outcome ∧
        setting.evaluate frame expr start = outcome.map (·, last)

/-- An access gives the entry of a map that has a key, whatever the target and the argument are. -/
def GivesEntries (setting : Setting) (loc : Location) (target arg expr : Expr) : Prop :=
  ∀ frame base roster start id keyTy heldTy entries after key last,
    setting.RunsLawful frame base roster start →
    setting.evaluate frame target start = .ok (.map id keyTy heldTy entries, after) →
    setting.evaluate frame arg after = .ok (key, last) →
      ∃ outcome, EntryOf loc entries key outcome ∧
        setting.evaluate frame expr start = outcome.map (·, last)

theorem givesItems (setting : Setting) (ty element : Ty) (loc : Location) (target arg : Expr) :
    setting.GivesItems loc target arg (.index ⟨ty, loc⟩ (.listElement element) target [arg]) := by
  intro frame start id made items after word last targetRan argRan
  rw [evaluate_index _ _ targetRan argRan]
  exact index_itemAt ..

theorem givesEntries (setting : Setting) (ty key held : Ty) (loc : Location) (target arg : Expr) :
    setting.GivesEntries loc target arg (.index ⟨ty, loc⟩ (.mapEntry key held) target [arg]) := by
  intro frame base roster start id keyTy heldTy entries after value last runs targetRan argRan
  obtain ⟨wider, -, runsOn, lawful⟩ := runs.evaluate targetRan
  obtain ⟨widest, -, -, keyLawful⟩ := runsOn.evaluate argRan
  rw [evaluate_index _ _ targetRan argRan]
  cases lawful with
  | map distinct keys values =>
    have entriesLawful : Value.LawfulEntries wider entries := ⟨distinct, keys, values⟩
    exact index_entryOf setting loc key held keyTy heldTy id entriesLawful.keyed keyLawful.keyed last

end Setting

theorem length_pairs {α : Type} (members : List α) (even : members.length % 2 = 0) :
    2 * (pairs members).length = members.length := by
  fun_induction pairs members with
  | case1 first second rest ih =>
    simp only [List.length_cons] at even ⊢
    have shorter := ih (by omega)
    omega
  | case2 members short =>
    rcases members with _ | ⟨first, _ | ⟨second, rest⟩⟩
    · rfl
    · cases even
    · exact absurd rfl (short first second rest)

namespace Elaborator

variable {elaborator : Elaborator} {scope : Scope} {depth next later : Nat} {loc : Location}
  {forms : List Form} {expr : Expr}

/-- What a list literal elaborates to. -/
theorem exists_list_of_ok
    (made : elaborator.elaborateAt scope depth (.combo .square forms loc) next = .ok (expr, later)) :
    ∃ element items, elaborator.elaborateAll scope (depth + 1) forms next = .ok (items, later) ∧
      expr = .list ⟨.list element, loc⟩ element items := by
  cases elaborates_of_ok made with
  | list _ parts rule =>
    obtain ⟨element, -, rfl⟩ := Typing.eq_of_list rule
    exact ⟨element, _, parts.ok, rfl⟩

theorem exists_map_of_ok
    (made : elaborator.elaborateAt scope depth (.combo .curly forms loc) next = .ok (expr, later)) :
    ∃ key held exprs, elaborator.elaborateAll scope (depth + 1) forms next = .ok (exprs, later) ∧
      2 * (pairs exprs).length = forms.length ∧
      expr = .map ⟨.map key held, loc⟩ key held (pairs exprs) := by
  cases elaborates_of_ok made with
  | map _ paired parts rule =>
    obtain ⟨key, held, -, -, rfl⟩ := Typing.eq_of_map rule
    refine ⟨key, held, _, parts.ok, ?_, rfl⟩
    rw [← parts.length_eq] at paired ⊢
    exact length_pairs _ paired

/-- An access elaborates to what the rule for its target and its arguments makes. -/
theorem elaborateAt_index {name : String} {headLoc : Location} {targetForm : Form}
    {target : Expr} {args : List Expr} {middle last : Nat}
    (head : elaborator.heads.get? name = some .index)
    (first : elaborator.elaborateAt scope (depth + 1) targetForm next = .ok (target, middle))
    (rest : elaborator.elaborateAll scope (depth + 1) forms middle = .ok (args, later)) :
    elaborator.elaborateAt scope depth (.combo .paren (.atom name headLoc :: targetForm :: forms) loc)
        next = .ok (expr, last) ↔
      Typing.index elaborator.registry loc target args = .ok expr ∧ last = later := by
  constructor
  · intro made
    obtain ⟨_, _, _, targetPart, argParts, rule⟩ := (elaborates_of_ok made).index_inv head
    cases first.symm.trans targetPart.ok
    cases rest.symm.trans argParts.ok
    exact ⟨rule, rfl⟩
  · rintro ⟨rule, rfl⟩
    have inner := elaborates_of_ok first
    exact (Elaborates.index (Nat.le_of_succ_le inner.shallow) head inner (elaboratesAll_of_ok rest)
      rule).ok

/-- **Collections store what indexers give back.** A list literal that compiles makes the list of the
values of its items. A map literal that compiles makes the map of all its entries in order, or it stops
where a part of an entry fails or a key is repeated, whatever comes first. An access to a list compiles
exactly with one argument, of a type that is assignable to integers, and gives the item at the position
or reports that the position is outside; one to a map compiles exactly with one argument, of a type that
is assignable to that of the keys, and gives the value of the only entry with the same key or reports
that there is none. -/
theorem collections_store (elaborator : Elaborator) :
    (∀ scope depth forms loc next expr later,
      elaborator.elaborateAt scope depth (.combo .square forms loc) next = .ok (expr, later) →
        ∃ element items, elaborator.elaborateAll scope (depth + 1) forms next = .ok (items, later) ∧
          expr = .list ⟨.list element, loc⟩ element items ∧
          ∀ (setting : Setting) frame start values read,
            setting.evaluateAll frame items start = .ok (values, read) →
              setting.evaluate frame expr start = .ok (.list read element values, read + 1)) ∧
    (∀ scope depth forms loc next expr later,
      elaborator.elaborateAt scope depth (.combo .curly forms loc) next = .ok (expr, later) →
        ∃ key held exprs, elaborator.elaborateAll scope (depth + 1) forms next = .ok (exprs, later) ∧
          2 * (pairs exprs).length = forms.length ∧
          expr = .map ⟨.map key held, loc⟩ key held (pairs exprs) ∧
          ∀ (setting : Setting) frame start,
            setting.MakesMap frame key held (pairs exprs) start (setting.evaluate frame expr start)) ∧
    ∀ name headLoc scope depth targetForm forms loc next target middle args later,
      elaborator.heads.get? name = some .index →
      elaborator.elaborateAt scope (depth + 1) targetForm next = .ok (target, middle) →
      elaborator.elaborateAll scope (depth + 1) forms middle = .ok (args, later) →
        (∀ element, target.ty = .list element →
          (∀ expr last, elaborator.elaborateAt scope depth
                (.combo .paren (.atom name headLoc :: targetForm :: forms) loc) next =
              .ok (expr, last) ↔
            (∃ arg, args = [arg] ∧ elaborator.registry.isAssignable arg.ty .int = true ∧
              expr = .index ⟨element, loc⟩ (.listElement element) target [arg]) ∧ last = later) ∧
          ∀ (setting : Setting) arg, setting.GivesItems loc target arg
            (.index ⟨element, loc⟩ (.listElement element) target [arg])) ∧
        ∀ key held, target.ty = .map key held →
          (∀ expr last, elaborator.elaborateAt scope depth
                (.combo .paren (.atom name headLoc :: targetForm :: forms) loc) next =
              .ok (expr, last) ↔
            (∃ arg, args = [arg] ∧ elaborator.registry.isAssignable arg.ty key = true ∧
              expr = .index ⟨held, loc⟩ (.mapEntry key held) target [arg]) ∧ last = later) ∧
          ∀ (setting : Setting) arg, setting.GivesEntries loc target arg
            (.index ⟨held, loc⟩ (.mapEntry key held) target [arg]) := by
  refine ⟨?_, ?_, ?_⟩
  · intro scope depth forms loc next expr later made
    obtain ⟨element, items, parts, rfl⟩ := exists_list_of_ok made
    refine ⟨element, items, parts, rfl, fun setting frame start values read ran => ?_⟩
    rw [Setting.evaluate_list, ran]
    rfl
  · intro scope depth forms loc next expr later made
    obtain ⟨key, held, exprs, parts, count, rfl⟩ := exists_map_of_ok made
    exact ⟨key, held, exprs, parts, count, rfl, fun setting frame start => setting.makesMap ..⟩
  · intro name headLoc scope depth targetForm forms loc next target middle args later head first rest
    refine ⟨fun element ty => ⟨fun expr last => ?_, fun setting arg => ?_⟩,
      fun key held ty => ⟨fun expr last => ?_, fun setting arg => ?_⟩⟩
    · have only : elaborator.registry.indexers target.ty = [.listElement element] := by
        rw [ty]
        rfl
      rw [elaborateAt_index head first rest, Typing.index_of_single only rfl]
      rfl
    · exact setting.givesItems element element loc target arg
    · have only : elaborator.registry.indexers target.ty = [.mapEntry key held] := by
        rw [ty]
        rfl
      rw [elaborateAt_index head first rest, Typing.index_of_single only rfl]
      rfl
    · exact setting.givesEntries held key held loc target arg

end Elaborator

/-! ## A map with keys of different types -/

namespace MixedKeys

def leaf (text : String) : Form := .atom text ⟨"mixed", 1, 1⟩

def listKey : Form := .combo .square [leaf "1"] ⟨"mixed", 1, 2⟩

def listExpr : Expr :=
  .list ⟨.list .int, ⟨"mixed", 1, 2⟩⟩ .int [.constant ⟨.int, ⟨"mixed", 1, 1⟩⟩ (.int 1)]

def literal : Form := .combo .curly [leaf "null", leaf "1", listKey, leaf "2"] ⟨"mixed", 1, 3⟩

def repeated : Form :=
  .combo .curly [leaf "null", leaf "1", .atom "null" ⟨"mixed", 2, 1⟩, leaf "2"] ⟨"mixed", 2, 2⟩

def entry (line : Nat) : Expr × Expr :=
  (.constant ⟨.object, ⟨"mixed", line, 1⟩⟩ .null,
    .constant ⟨.int, ⟨"mixed", 1, 1⟩⟩ (.int (BitVec.ofNat 32 line)))

def setting : Setting := ⟨{}, {}⟩

theorem runsLawful : setting.RunsLawful (.empty 0) (fun _ => none) (fun _ => none) 1 where
  host _ belongs := nomatch belongs
  grown := .refl _
  free _ _ := rfl
  values _ belongs := nomatch belongs

end MixedKeys

open MixedKeys in
/-- The access `(# {null 1 [1] 2} [1])` gives two, the value under a list that is equal to the key. The
map `{null 1 null 2}` fails at its second key. -/
theorem Elaborator.collections_store_mixedKeys :
    (∃ expr, elaborate {} {} (.combo .paren [leaf "#", literal, listKey] ⟨"mixed", 1, 4⟩) 1 =
        .ok (expr, 1) ∧
      ∃ outcome, Setting.EntryOf ⟨"mixed", 1, 4⟩
          [(.null, .datum (.int 1)), (.list 1 .int [.datum (.int 1)], .datum (.int 2))]
          (.list 3 .int [.datum (.int 1)]) outcome ∧
        setting.evaluate (.empty 0) expr 1 = outcome.map (·, 4) ∧ outcome = .ok (.datum (.int 2))) ∧
    ∃ expr, elaborate {} {} repeated 1 = .ok (expr, 1) ∧ setting.evaluate (.empty 0) expr 1 =
      .error ((Fault.keyRepeated "null").reportAt ⟨"mixed", 2, 1⟩) := by
  obtain ⟨-, maps, accesses⟩ := collections_store {}
  constructor
  · obtain ⟨-, gives⟩ := accesses "#" ⟨"mixed", 1, 1⟩ {} 0 literal [listKey] ⟨"mixed", 1, 4⟩ 1 _ _
      [listExpr] _ rfl rfl rfl
    obtain ⟨compiles, gives⟩ := gives .object .int rfl
    have compiled := (compiles _ 1).mpr ⟨⟨_, rfl, rfl, rfl⟩, rfl⟩
    obtain ⟨outcome, given, ran⟩ :=
      gives setting listExpr (.empty 0) _ _ 1 _ _ _ _ _ _ _ runsLawful rfl rfl
    refine ⟨_, compiled, outcome, given, ran, ?_⟩
    cases outcome with
    | error report => cases ran
    | ok value =>
      cases ran
      rfl
  · obtain ⟨key, held, exprs, parts, -, -, makes⟩ :=
      maps {} 0 [leaf "null", leaf "1", .atom "null" ⟨"mixed", 2, 1⟩, leaf "2"] ⟨"mixed", 2, 2⟩ 1 _ _
        rfl
    cases parts
    have first : setting.Reads (.empty 0) [entry 1] 1 [(.null, .datum (.int 1))] 1 :=
      .cons ⟨rfl, rfl⟩ .nil
    have second : setting.ReadsEntry (.empty 0) (entry 2) 1 (.null, .datum (.int 2)) 1 := ⟨rfl, rfl⟩
    have stops : setting.Stops (.empty 0) [] [entry 1, entry 2] 1 (setting.Repeats (.empty 0) _) :=
      ⟨rfl, first, List.pairwise_singleton _ _, second, List.mem_singleton.mpr rfl, rfl, rfl⟩
    exact ⟨_, rfl, ((makes setting (.empty 0) 1).stopped _).mpr (.inr stops)⟩

end ExprLang
