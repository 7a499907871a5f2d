import ExprLang.Proofs.Engine.Invariants

/-!
# Identities in values

The identities in a value are those of its lists, maps, objects and functions, and of the lambdas in
the code of its functions. In every engine of a session they lie below the supply: elaboration gives
lambdas identities that it draws (`Elaborates.lambdas_below`), and running makes values of the values
it finds and of what it draws, as long as code of the host does (`Callback.Makes`): this is an
invariant of values (`Invariant.identities`). So whatever a host does, the values of globals and all
values that the host has are made of what was drawn (`Engine.settled_in_session`).
-/

namespace ExprLang

variable {bound wider next later : Nat}

/-! ## Expressions -/

def Expr.lambda? : Expr → Option Nat
  | .lambda _ id _ _ => some id
  | _ => none

def Expr.Below (bound : Nat) (expr : Expr) : Prop :=
  ∀ part id, expr.Contains part → part.lambda? = some id → id < bound

namespace Expr

variable {expr : Expr}

theorem Below.mono (below : expr.Below bound) (le : bound ≤ wider) : expr.Below wider :=
  fun part id contains lambda => Nat.lt_of_lt_of_le (below part id contains lambda) le

theorem Below.child {child : Expr} (below : expr.Below bound) (belongs : child ∈ expr.children) :
    child.Below bound :=
  fun part id contains => below part id (.head belongs contains)

theorem Below.operand {operand : Expr} (below : expr.Below bound)
    (belongs : operand ∈ expr.operands) : operand.Below bound :=
  below.child (expr.operands_subset_children belongs)

theorem below_of_children (here : ∀ id, expr.lambda? = some id → id < bound)
    (inside : ∀ child ∈ expr.children, child.Below bound) : expr.Below bound := by
  intro part id contains lambda
  rcases contains.cases_head with rfl | ⟨child, belongs, inner⟩
  · exact here id lambda
  · exact inside child belongs part id inner lambda

/-- A node that is no lambda has the lambdas of its operands. -/
theorem below_of_operands (plain : expr.lambda? = none) (same : expr.children = expr.operands)
    (inside : ∀ operand ∈ expr.operands, operand.Below bound) : expr.Below bound :=
  below_of_children (by simp [plain]) (same ▸ inside)

end Expr

namespace Typing

variable {expr first : Expr} {rest : List Expr} {loc : Location}

theorem Folded.lambdas_below {op : BinaryOp} (folded : Folded loc op first rest expr)
    (firstBelow : first.Below bound) (restBelow : ∀ operand ∈ rest, operand.Below bound) :
    expr.Below bound := by
  induction folded with
  | done => exact firstBelow
  | step _ ih =>
    rw [List.forall_mem_cons] at restBelow
    refine ih (Expr.below_of_operands rfl rfl ?_) restBelow.2
    simpa [Expr.operands] using ⟨firstBelow, restBelow.1⟩

end Typing

namespace Elaborator

variable {elaborator : Elaborator}

mutual

/-- The lambdas of what elaboration makes have identities below what is left of the supply. -/
theorem Elaborates.lambdas_below {form : Form} {scope : Scope} {depth next later : Nat}
    {expr : Expr} : Elaborates elaborator scope depth form next expr later → expr.Below later
  | .constant .. | .variable .. | .typeOf .. | .defaultOf .. =>
    Expr.below_of_operands rfl rfl nofun
  | .list _ parts rule => by
    obtain ⟨element, -, rfl⟩ := Typing.eq_of_list rule
    exact Expr.below_of_operands rfl rfl parts.lambdas_below
  | .map _ _ parts rule => by
    obtain ⟨key, value, -, -, rfl⟩ := Typing.eq_of_map rule
    refine Expr.below_of_operands rfl rfl fun operand belongs => ?_
    rcases List.mem_append.mp belongs with inKeys | inValues
    · obtain ⟨entry, paired, rfl⟩ := List.mem_map.mp inKeys
      exact parts.lambdas_below _ (mem_of_mem_pairs paired).1
    · obtain ⟨entry, paired, rfl⟩ := List.mem_map.mp inValues
      exact parts.lambdas_below _ (mem_of_mem_pairs paired).2
  | .unary _ _ part rule => by
    obtain ⟨ty, rfl⟩ := Typing.eq_of_unary rule
    exact Expr.below_of_operands rfl rfl (by simpa [Expr.operands] using part.lambdas_below)
  | .binary _ _ left right rule => by
    obtain ⟨ty, rfl⟩ := Typing.eq_of_binary rule
    have leftBelow := left.lambdas_below.mono right.next_le
    refine Expr.below_of_operands rfl rfl ?_
    simpa [Expr.operands] using ⟨leftBelow, right.lambdas_below⟩
  | .nary _ _ first rest rule =>
    (Typing.folded_of_nary rule).lambdas_below (first.lambdas_below.mono rest.next_le)
      rest.lambdas_below
  | .conditional _ _ condition yes no rule => by
    obtain rfl := Typing.eq_of_conditional rule
    have conditionBelow := condition.lambdas_below.mono (Nat.le_trans yes.next_le no.next_le)
    have yesBelow := yes.lambdas_below.mono no.next_le
    refine Expr.below_of_operands rfl rfl ?_
    simpa [Expr.operands] using ⟨conditionBelow, yesBelow, no.lambdas_below⟩
  | .index _ _ target args rule => by
    obtain ⟨indexer, -, rfl⟩ := Typing.eq_of_index rule
    refine Expr.below_of_operands rfl rfl ?_
    exact List.forall_mem_cons.mpr ⟨target.lambdas_below.mono args.next_le, args.lambdas_below⟩
  | .typeIs _ _ _ part rule => by
    cases rule
    exact Expr.below_of_operands rfl rfl (by simpa [Expr.operands] using part.lambdas_below)
  | .typeAs _ _ _ part rule => by
    obtain rfl := Typing.eq_of_typeAs rule
    exact Expr.below_of_operands rfl rfl (by simpa [Expr.operands] using part.lambdas_below)
  | .convert _ _ _ part rule => by
    obtain rfl := Typing.eq_of_convert rule
    exact Expr.below_of_operands rfl rfl (by simpa [Expr.operands] using part.lambdas_below)
  | .construct _ _ _ args rule => by
    obtain ⟨constructor, -, rfl⟩ := Typing.eq_of_construct rule
    exact Expr.below_of_operands rfl rfl args.lambdas_below
  | .lambda _ _ _ body => by
    refine Expr.below_of_children ?_ ?_
    · rintro id ⟨⟩
      exact Nat.lt_succ_self _
    · simpa [Typing.lambda, Expr.children] using body.lambdas_below.mono (Nat.le_succ _)

theorem ElaboratesAll.lambdas_below {forms : List Form} {scope : Scope} {depth next later : Nat}
    {exprs : List Expr} :
    ElaboratesAll elaborator scope depth forms next exprs later → ∀ expr ∈ exprs, expr.Below later
  | .nil => nofun
  | .cons first rest =>
    List.forall_mem_cons.mpr ⟨first.lambdas_below.mono rest.next_le, rest.lambdas_below⟩

end

end Elaborator

/-! ## Values -/

inductive Value.Below (bound : Nat) : Value → Prop where
  | datum {leaf : Datum} : Below bound (.datum leaf)
  | list {id : Nat} {element : Ty} {items : List Value} (drawn : id < bound)
      (parts : ∀ item ∈ items, Below bound item) : Below bound (.list id element items)
  | map {id : Nat} {key value : Ty} {entries : List (Value × Value)} (drawn : id < bound)
      (keys : ∀ entry ∈ entries, Below bound entry.1)
      (values : ∀ entry ∈ entries, Below bound entry.2) : Below bound (.map id key value entries)
  | function {closure : Closure Value} (drawn : closure.lambda < bound)
      (frame : closure.frame.id < bound) (body : closure.body.Below bound)
      (slots : ∀ slot ∈ closure.frame.slots, Below bound slot.2) : Below bound (.function closure)
  | object {id : Nat} {typeName : String} {slots : List Value} (drawn : id < bound)
      (parts : ∀ slot ∈ slots, Below bound slot) : Below bound (.object id typeName slots)

structure Frame.Below (bound : Nat) (frame : Frame Value) : Prop where
  id : frame.id < bound
  slots : ∀ slot ∈ frame.slots, slot.2.Below bound

theorem Value.Below.mono {value : Value} (below : value.Below bound) (le : bound ≤ wider) :
    value.Below wider := by
  induction below with
  | datum => exact .datum
  | list drawn _ ih => exact .list (Nat.lt_of_lt_of_le drawn le) ih
  | map drawn _ _ keys values => exact .map (Nat.lt_of_lt_of_le drawn le) keys values
  | function drawn frame body _ ih =>
    exact .function (Nat.lt_of_lt_of_le drawn le) (Nat.lt_of_lt_of_le frame le) (body.mono le) ih
  | object drawn _ ih => exact .object (Nat.lt_of_lt_of_le drawn le) ih

theorem Frame.Below.lookup {frame : Frame Value} (below : frame.Below bound) {binding : Nat}
    {value : Value} (found : frame.lookup binding = some value) : value.Below bound :=
  below.slots _ (Frame.mem_slots_of_lookup found)

/-! ## Running -/

/-- The identities in values were drawn: a world is a bound on what was drawn. -/
def Invariant.identities : Invariant Nat where
  Grows bound wider := bound ≤ wider
  Free bound next := bound ≤ next
  Drawn bound id := id < bound
  Code bound expr := expr.Below bound
  Entries bound entries := ∀ entry ∈ entries, entry.1.Below bound ∧ entry.2.Below bound
  Holds bound value := value.Below bound
  refl := Nat.le_refl
  trans := Nat.le_trans
  free_of_le := Nat.le_trans
  draw {_ next} free := ⟨next + 1, Nat.le_succ_of_le free, Nat.le_refl _, Nat.lt_succ_self _⟩
  drawn_mono le drawn := Nat.lt_of_lt_of_le drawn le
  code_mono le below := below.mono le
  entries_mono le below entry belongs := (below entry belongs).imp (·.mono le) (·.mono le)
  mono le below := below.mono le
  operand below belongs := below.operand belongs
  entries_nil := nofun
  entries_append entriesBelow keyBelow heldBelow _ entry belongs := by
    rcases List.mem_append.mp belongs with earlier | last
    · exact entriesBelow entry earlier
    · obtain rfl := List.mem_singleton.mp last
      exact ⟨keyBelow, heldBelow⟩
  entries_value below entry belongs := (below entry belongs).2
  datum := .datum
  list_iff {bound id element items} := by
    constructor
    · rintro (_ | ⟨drawn, parts⟩)
      exact ⟨drawn, parts⟩
    · rintro ⟨drawn, parts⟩
      exact .list drawn parts
  map_iff {bound id key value entries} := by
    constructor
    · rintro (_ | _ | ⟨drawn, keys, values⟩)
      exact ⟨drawn, fun entry belongs => ⟨keys entry belongs, values entry belongs⟩⟩
    · rintro ⟨drawn, parts⟩
      exact .map drawn (fun entry belongs => (parts entry belongs).1)
        fun entry belongs => (parts entry belongs).2
  function code drawn slots :=
    .function (code _ _ .refl rfl) drawn (code.child List.mem_cons_self) slots
  body below := by
    cases below with
    | function _ _ body _ => exact body
  captured below := by
    cases below with
    | function _ _ _ slots => exact slots
  object {_ next _} free parts _ := by
    have le := Nat.le_succ_of_le free
    exact ⟨next + 1, le, Nat.le_refl _,
      .object (Nat.lt_succ_self _) fun slot belongs => (parts slot belongs).mono le⟩
  slot below := by
    cases below with
    | object _ parts => exact parts

/-- Code of a host makes values of what it is given and of what it draws, and of values that were
made below a bound. -/
def Callback.Makes (older : Nat) (callback : Callback) : Prop :=
  ∀ target args next value later, older ≤ next → target.Below next →
    (∀ arg ∈ args, arg.Below next) → callback target args next = .ok (value, later) →
    next ≤ later ∧ value.Below later

/-- All code of a host makes values of what it is given and of what it draws. -/
def Host.Makes (older : Nat) (host : Host) : Prop :=
  ∀ callback ∈ host.callbacks, Callback.Makes older callback

/-- What is asked of code of a host from one supply on is what it has to keep from one bound on. -/
theorem Callback.makes_iff {older : Nat} {callback : Callback} :
    Callback.Makes older callback ↔ Callback.Keeps .identities older callback := by
  constructor
  · intro makes bound enough target args next value later free targetBelow argsBelow made
    have drawn : bound ≤ next := free
    obtain ⟨le, below⟩ := makes target args next value later (Nat.le_trans enough drawn)
      (targetBelow.mono drawn) (fun arg belongs => (argsBelow arg belongs).mono drawn) made
    exact ⟨later, Nat.le_trans drawn le, Nat.le_refl _, below⟩
  · intro keeps target args next value later enough targetBelow argsBelow made
    obtain ⟨bound, grown, free, below⟩ := keeps next enough target args next value later
      (Nat.le_refl _) targetBelow argsBelow made
    exact ⟨Nat.le_trans grown free, below.mono free⟩

/-- Recipes make values of what they are given and of what they draw; the value of a constant has to
be made before. -/
theorem Recipe.makes {older : Nat} (recipe : Recipe)
    (constants : ∀ value, recipe = .constant value → value.Below older) :
    Callback.Makes older recipe.callback :=
  Callback.makes_iff.mpr (recipe.keeps constants)

/-! ## Sessions -/

/-- All that a host has in a session is made of what was drawn: the values of globals, units, and
values. -/
structure Session.Settled (older : Nat) (session : Session Engine Compiled Value) : Prop where
  makes : session.state.host.Makes older
  enough : older ≤ session.state.supply
  globals : session.state.globals.Below session.state.supply
  units : ∀ compiled ∈ session.units, compiled.unit.root.Below session.state.supply ∧
    compiled.unit.frame.Below session.state.supply
  values : ∀ value ∈ session.values, value.Below session.state.supply

/-- Elaboration gives lambdas identities that it draws. -/
theorem elaborated_identities : Invariant.identities.Elaborated := by
  intro elaborator scope depth form next expr later bound free elaborates
  exact ⟨later, Nat.le_trans free elaborates.next_le, Nat.le_refl _, elaborates.lambdas_below⟩

/-- What lies below some bound that was drawn lies below the supply. -/
theorem Session.Keeps.settled {older bound : Nat} {session : Session Engine Compiled Value}
    (keeps : session.Keeps .identities older bound) : session.Settled older := by
  have drawn : bound ≤ session.state.supply := keeps.free
  have below {frame : Frame Value} (held : Invariant.identities.Held bound frame) :
      frame.Below session.state.supply :=
    ⟨(held.mono drawn).drawn, (held.mono drawn).slots⟩
  exact
    { makes := fun callback belongs => Callback.makes_iff.mpr (keeps.host callback belongs)
      enough := Nat.le_trans keeps.grown drawn
      globals := below keeps.globals
      units := fun compiled belongs => (keeps.units compiled belongs).imp (·.mono drawn) below
      values := fun value belongs => (keeps.values value belongs).mono drawn }

/-- Whatever a host does with an engine, one move after the other: the values of globals, the units
and the values that it gets are made of what was drawn, if the code of the host makes its values so.
-/
theorem Engine.settled_in_session {engine : Engine} {older : Nat} (makes : engine.host.Makes older)
    (enough : older ≤ engine.supply) (globals : engine.globals.Below engine.supply)
    (moves : List Move) : (Engine.machine.after ⟨engine, [], []⟩ moves).Settled older := by
  have start : Session.Keeps .identities older engine.supply ⟨engine, [], []⟩ :=
    { host := fun callback belongs => Callback.makes_iff.mp (makes callback belongs)
      grown := enough
      free := Nat.le_refl _
      globals := ⟨globals.id, globals.slots⟩
      units := nofun
      values := nofun }
  obtain ⟨bound, keeps⟩ := start.after elaborated_identities moves
  exact keeps.settled

end ExprLang
