import Mathlib.Data.List.Nodup
import ExprLang.Proofs.Elaboration.Depths
import ExprLang.Proofs.Elaboration.Parameters
import ExprLang.Proofs.Engine.Definitions
import ExprLang.Proofs.Likeness.Formatting

/-!
# Calls of functions and definitions of globals

A call binds the parameters of a function to its arguments in a frame of its own. Running the body
of the function where the parameters are globals with these values has the same outcome
(`Engine.call_binds_globals`), although the body is then compiled at another depth and in another
scope, and its functions capture another frame. Code of a host that counts can tell the one from the
other (`Engine.calls_seen`). Arguments that a function refuses are reported whatever its body is.
-/

namespace ExprLang

/-! ## What corresponds in a call and beside globals -/

/-- Members of two lists without repetition correspond by their positions. -/
def Pairing.zip {α : Type} (members others : List α) (distinct : members.Nodup)
    (otherDistinct : others.Nodup) : Pairing α where
  pairs a b := ∃ position : Nat, members[position]? = some a ∧ others[position]? = some b
  unique := by
    constructor
    · rintro a b c ⟨position, member, other⟩ ⟨second, secondMember, secondOther⟩
      have bound := (List.getElem?_eq_some_iff.mp other).1
      obtain rfl := (List.getElem?_inj bound otherDistinct).mp (other.trans secondOther.symm)
      exact Option.some.inj (member.symm.trans secondMember)
    · rintro a b c ⟨position, member, other⟩ ⟨second, secondMember, secondOther⟩
      have bound := (List.getElem?_eq_some_iff.mp member).1
      obtain rfl := (List.getElem?_inj bound distinct).mp (member.trans secondMember.symm)
      exact Option.some.inj (other.symm.trans secondOther)

/-- Where the identities of parameters and of globals in their place were drawn: those of the
parameters behind the older ones and before those of a body, and those of the globals behind newer
ones and before those of the same body compiled beside them. -/
structure Spans (older newer start other : Nat) (params globals : List Nat) : Prop where
  distinct : params.Nodup
  otherDistinct : globals.Nodup
  later : older ≤ start ∧ older ≤ newer ∧ newer ≤ other
  params : ∀ id ∈ params, older ≤ id ∧ id < start
  globals : ∀ id ∈ globals, newer ≤ id ∧ id < other

namespace View

variable {older newer start other : Nat} {params globals : List Nat}

/-- Older bindings correspond to themselves, parameters to the globals in their place, and what is
drawn for the body in the order of drawing. -/
def calling (spans : Spans older newer start other params globals) : View where
  bindings := ((Pairing.identity (· < older)).union
    (.zip params globals spans.distinct spans.otherDistinct) {
      left := by
        rintro a b c ⟨rfl, bound⟩ ⟨position, member, -⟩
        have drawn := spans.params a (List.mem_of_getElem? member)
        omega
      right := by
        rintro a b c ⟨rfl, bound⟩ ⟨position, -, member⟩
        have drawn := spans.globals a (List.mem_of_getElem? member)
        have later := spans.later
        omega }).union (.drawn start other) {
      left := by
        rintro a b c (⟨rfl, bound⟩ | ⟨position, member, -⟩) ⟨count, rfl, -⟩
        · have later := spans.later
          omega
        · have drawn := spans.params _ (List.mem_of_getElem? member)
          omega
      right := by
        rintro a b c (⟨rfl, bound⟩ | ⟨position, -, member⟩) ⟨count, -, rfl⟩
        · have later := spans.later
          omega
        · have drawn := spans.globals _ (List.mem_of_getElem? member)
          omega }
  lambdas := .drawn start other

theorem draws_calling (spans : Spans older newer start other params globals) :
    (calling spans).Draws start other :=
  ⟨fun _ _ pair => .inr pair, fun _ _ pair => pair⟩

/-- Bindings that correspond are an older one and itself, or were drawn later on each side. -/
theorem older_or_drawn {spans : Spans older newer start other params globals} {a b : Nat}
    (pair : (calling spans).bindings a b) : a = b ∧ a < older ∨ older ≤ a ∧ newer ≤ b := by
  rcases pair with (same | ⟨position, member, otherMember⟩) | ⟨count, rfl, rfl⟩
  · exact .inl same
  · exact .inr ⟨(spans.params a (List.mem_of_getElem? member)).1,
      (spans.globals b (List.mem_of_getElem? otherMember)).1⟩
  · have later := spans.later
    omega

end View

namespace World

variable {older frame other next otherNext : Nat} {lambdas : Pairing Nat}

/-- What was drawn before a call corresponds to itself, and the functions that lambdas make in the
frame of the call correspond as the lambdas do. -/
def calling (older : Nat) (lambdas : Pairing Nat) (newer : ∀ a b, lambdas a b → older ≤ b)
    (frame other : Nat) (entered : older ≤ frame) : World where
  identities := (below older).identities
  functions := (below older).functions.union (lambdas.mark frame other) {
    left := by
      rintro a b c ⟨-, -, bound⟩ ⟨-, same, -⟩
      omega
    right := by
      rintro a b c ⟨rfl, bound, -⟩ ⟨pair, -⟩
      have drawn := newer _ _ pair
      omega }

theorem below_le_calling (newer : ∀ a b, lambdas a b → older ≤ b) (entered : older ≤ frame) :
    below older ≤ calling older lambdas newer frame other entered :=
  ⟨fun _ _ pair => pair, fun _ _ pair => .inl pair⟩

theorem fits_calling (newer : ∀ a b, lambdas a b → older ≤ b) (entered : older ≤ frame)
    (bound : frame < next) (otherBound : other < otherNext) (enough : older ≤ otherNext) :
    (calling older lambdas newer frame other entered).Fits next otherNext where
  identities := by
    rintro a b ⟨rfl, drawn⟩
    omega
  functions := by
    rintro a b (⟨rfl, drawn⟩ | ⟨-, rfl, rfl⟩)
    · omega
    · exact ⟨bound, otherBound⟩

end World

/-! ## Calls -/

namespace Closure

variable {closure : Closure Value} {args : List Value} {host : Host} {registry : Registry}
  {param : Binding} {arg : Value}

/-- A parameter refuses an argument: null where its type is a value type, or a value of a type that
is not assignable to its own. -/
inductive Refuses (registry : Registry) (param : Binding) (arg : Value) : Prop where
  | null (null : arg = .null) (valueType : param.ty.isValueType = true)
  | unassignable {actual : Ty} (shown : arg.ty? = some actual)
      (unfit : registry.isAssignable actual param.ty = false)

theorem refuses_iff : Refuses registry param arg ↔ admits registry param arg = false := by
  unfold admits
  constructor
  · rintro (⟨rfl, valueType⟩ | ⟨shown, unfit⟩)
    · exact congrArg (!·) valueType
    · rw [shown]
      exact unfit
  · intro unfit
    cases shown : arg.ty? with
    | none =>
      rw [shown] at unfit
      exact .null (Value.eq_null_of_ty? shown) (by simpa using unfit)
    | some actual =>
      rw [shown] at unfit
      exact .unassignable shown unfit

/-- A call with arguments that are accepted draws the identity of its frame and evaluates the body.
-/
theorem call_of_accepts (accepts : closure.Accepts args) (next : Nat) :
    closure.call host args next = (Setting.mk closure.registry host).evaluate
      (closure.callFrame args next) closure.body (next + 1) := by
  have admitted : (closure.params.zip args).find? (fun pair =>
      !admits closure.registry pair.1 pair.2) = none := by
    rw [List.find?_eq_none]
    intro pair belongs
    rw [accepts.2 pair belongs]
    nofun
  unfold call
  dsimp only
  rw [if_neg (not_not_intro accepts.1), admitted]
  rfl

theorem call_of_miscounted (miscounted : args.length ≠ closure.arity) (next : Nat) :
    closure.call host args next =
      .error ((Fault.argumentCount closure.arity args.length).reportAt closure.body.loc) := by
  unfold call
  dsimp only
  rw [if_pos miscounted]
  rfl

/-- The first argument that is refused is reported, whatever the body of the function is. -/
theorem call_of_refused (counted : args.length = closure.arity)
    (refused : (closure.params.zip args).find? (fun pair =>
      !admits closure.registry pair.1 pair.2) = some (param, arg)) (body : Expr) (next : Nat) :
    Closure.call host { closure with body } args next =
      .error ((Fault.argumentType param.name param.ty arg.typeName).reportAt body.loc) := by
  have enough : ¬ args.length ≠ Closure.arity { closure with body } := not_not_intro counted
  unfold call
  dsimp only
  rw [if_neg enough, refused]
  rfl

/-- Arguments of just the types of the parameters are accepted. -/
theorem accepts_of_types
    (typed : List.Forall₂ (fun (param : Binding) arg => arg.ty? = some param.ty)
      closure.params args) : closure.Accepts args := by
  refine ⟨typed.length_eq.symm, fun pair belongs => ?_⟩
  have shown := (List.forall₂_iff_zip.mp typed).2 belongs
  unfold admits
  rw [shown]
  exact Registry.isAssignable_refl _

end Closure

namespace Engine

variable {engine caller other later made : Engine} {closure : Closure Value} {args : List Value}
  {unit : CompiledUnit} {forms : List Form} {body : Form} {paramsLoc loc headLoc : Location}
  {name : String}

theorem call_miscounted (miscounted : args.length ≠ closure.arity) :
    caller.call closure args =
      .error ((Fault.argumentCount closure.arity args.length).reportAt closure.body.loc) := by
  unfold Engine.call
  rw [perform_eq, Closure.call_of_miscounted miscounted]
  rfl

/-- Where an argument is refused, one that is refused is reported, whatever the body of the function
is. -/
theorem call_refused (counted : args.length = closure.arity)
    (refused : ∃ pair ∈ closure.params.zip args,
      Closure.Refuses closure.registry pair.1 pair.2) :
    ∃ pair ∈ closure.params.zip args, Closure.Refuses closure.registry pair.1 pair.2 ∧
      ∀ (caller : Engine) (body : Expr), caller.call { closure with body } args =
        .error ((Fault.argumentType pair.1.name pair.1.ty pair.2.typeName).reportAt body.loc) := by
  cases found : (closure.params.zip args).find? fun pair =>
      !Closure.admits closure.registry pair.1 pair.2 with
  | none =>
    obtain ⟨pair, belongs, refuses⟩ := refused
    have admitted := List.find?_eq_none.mp found pair belongs
    rw [Closure.refuses_iff.mp refuses] at admitted
    exact absurd rfl admitted
  | some pair =>
    have refuses : Closure.Refuses closure.registry pair.1 pair.2 :=
      Closure.refuses_iff.mpr (by simpa using List.find?_some found)
    refine ⟨pair, List.mem_of_find?_eq_some found, refuses, fun caller body => ?_⟩
    unfold Engine.call
    rw [perform_eq, Closure.call_of_refused counted found]
    rfl

/-! ## What a lambda stands for -/

/-- A function is what a lambda of an engine stands for. Its body was elaborated where its
parameters are in scope; how deep the body stood in the lambda does not matter any more. -/
structure Denotes (engine : Engine) (forms : List Form) (paramsLoc : Location) (body : Form)
    (closure : Closure Value) : Prop where
  ty : closure.ty = .func (closure.params.map (·.ty)) closure.body.ty
  frame : closure.frame = engine.globals
  registry : closure.registry = engine.registry
  elaborated : ∃ inner, engine.elaborator.paramList engine.root (.combo .paren forms paramsLoc)
      engine.supply = .ok ((closure.params, inner), engine.supply + closure.arity) ∧
    engine.elaborator.elaborateAt inner 0 body (engine.supply + closure.arity) =
      .ok (closure.body, closure.lambda)

/-- Compiling a lambda gives a unit that makes the function for which the lambda stands. -/
theorem exists_denotes (head : engine.heads.get? name = some .lambda)
    (compiled : engine.compileForm (.combo .paren
      [.atom name headLoc, .combo .paren forms paramsLoc, body] loc) = .ok (unit, made)) :
    ∃ closure, engine.Denotes forms paramsLoc body closure ∧
      made = { engine with supply := closure.lambda + 1 } ∧
      ∀ runner : Engine, runner.invoke unit = .ok (.function closure, runner) := by
  obtain ⟨frame, registry, supply, elaborated, rfl⟩ := compileForm_ok compiled
  have known : engine.elaborator.heads.get? name = some .lambda := head
  unfold Elaborator.elaborate Elaborator.elaborateAt at elaborated
  rw [if_neg (Nat.not_lt_zero _)] at elaborated
  simp only [known] at elaborated
  obtain ⟨⟨params, inner⟩, middle, declared, rest⟩ := Run.bind_ok.mp elaborated
  obtain ⟨bodyExpr, id, bodyOk, rest⟩ := Run.bind_ok.mp rest
  obtain ⟨drawnId, afterId, drawn, rest⟩ := Run.bind_ok.mp rest
  obtain ⟨rfl, rfl⟩ := Run.freshId_ok.mp drawn
  obtain ⟨root, rfl⟩ := Run.pure_ok.mp rest
  obtain ⟨-, -, rfl⟩ := Elaborator.paramList_ok declared
  let closure : Closure Value :=
    ⟨id, params, bodyExpr, .func (params.map (·.ty)) bodyExpr.ty, engine.globals, engine.registry⟩
  refine ⟨closure, ⟨rfl, rfl, rfl, inner, declared, ?_⟩, rfl, fun runner => ?_⟩
  · have room : 0 + engine.elaborator.maxDepth ≤ engine.elaborator.maxDepth + 1 := by omega
    exact ((Elaborator.elaborates_of_ok bodyOk).relocate room).ok
  · unfold Engine.invoke
    rw [perform_eq, frame, registry, ← root]
    rfl

/-! ## The body beside globals -/

/-- The globals that are given the arguments of a call: each parameter lends its name. -/
def argumentGlobals (closure : Closure Value) (args : List Value) : List (String × Value) :=
  (closure.params.map (·.name)).zip args

theorem map_fst_argumentGlobals (counted : closure.arity = args.length) :
    (argumentGlobals closure args).map (·.1) = closure.params.map (·.name) := by
  rw [argumentGlobals, List.map_fst_zip]
  rw [List.length_map]
  exact counted.le

theorem map_snd_argumentGlobals (counted : closure.arity = args.length) :
    (argumentGlobals closure args).map (·.2) = args := by
  rw [argumentGlobals, List.map_snd_zip]
  rw [List.length_map]
  exact counted.ge

/-- The global in place of a parameter is alike to the parameter if its value has just the type of
the parameter. -/
theorem alike_newBindings {like : Likeness} [like.Whole] {view : View} {params : List Binding}
    {start : Nat}
    (typed : List.Forall₂ (fun (param : Binding) arg => arg.ty? = some param.ty) params args)
    (ids : ∀ position a b : Nat, (params.map (·.id))[position]? = some a →
      ((newBindings start ((params.map (·.name)).zip args)).map (·.id))[position]? = some b →
      view.bindings a b) :
    List.Forall₂ (Binding.Alike like view) params
      (newBindings start ((params.map (·.name)).zip args)) := by
  induction typed generalizing start with
  | nil => exact .nil
  | cons shown _ ih =>
    refine .cons ⟨rfl, ?_, Ty.over_self _, ids 0 _ _ rfl rfl⟩
      (ih fun position a b member other => ids (position + 1) a b member other)
    rw [Value.globalTy, shown]
    rfl

namespace Denotes

variable (denotes : engine.Denotes forms paramsLoc body closure)
include denotes

theorem ids : closure.params.map (·.id) = List.range' engine.supply closure.arity := by
  obtain ⟨inner, declared, -⟩ := denotes.elaborated
  exact (Elaborator.paramList_ok declared).2.1

theorem start_le : engine.supply + closure.arity ≤ closure.lambda := by
  obtain ⟨inner, -, elaborated⟩ := denotes.elaborated
  exact (Elaborator.elaborates_of_ok elaborated).next_le

theorem declared : List.Forall₂ engine.elaborator.Declares forms closure.params ∧
    (closure.params.map (·.name)).Nodup := by
  obtain ⟨inner, declared, -⟩ := denotes.elaborated
  exact Elaborator.declares_paramList declared

end Denotes

/-- The arguments of a function, which were made below a bound, were bound as globals in an engine
from which more was drawn than in the engine of the function. -/
structure ArgumentsBound (engine other later : Engine) (forms : List Form) (paramsLoc : Location)
    (body : Form) (closure : Closure Value) (args : List Value) (older : Nat) : Prop where
  reached : engine.Reached
  settled : engine.globals.Below engine.supply
  denotes : engine.Denotes forms paramsLoc body closure
  unused : ∀ param ∈ closure.params, engine.root.lookup param.name = none
  typed : List.Forall₂ (fun (param : Binding) arg => arg.ty? = some param.ty) closure.params args
  made : ∀ arg ∈ args, arg.Below older
  drawn : engine.Drawn other
  older : engine.supply ≤ older ∧ older ≤ other.supply
  gained : other.Gained (argumentGlobals closure args) later

/-- An engine takes the arguments of a function as globals if the names of the parameters are new at
its root. -/
theorem Denotes.exists_argumentsBound (denotes : engine.Denotes forms paramsLoc body closure)
    (reached : engine.Reached) (settled : engine.globals.Below engine.supply)
    (unused : ∀ param ∈ closure.params, engine.root.lookup param.name = none)
    (typed : List.Forall₂ (fun (param : Binding) arg => arg.ty? = some param.ty)
      closure.params args)
    {older : Nat} (made : ∀ arg ∈ args, arg.Below older) (drawn : engine.Drawn other)
    (between : engine.supply ≤ older ∧ older ≤ other.supply) :
    ∃ later, other.defineGlobals (argumentGlobals closure args) = .ok later ∧
      ArgumentsBound engine other later forms paramsLoc body closure args older := by
  have rooted := reached.rooted.drawn drawn
  have frame : other.globals.id < other.supply := by
    obtain ⟨supply, more, rfl⟩ := drawn
    exact Nat.lt_of_lt_of_le reached.frame_lt more
  have distinct : ((argumentGlobals closure args).map (·.1)).Nodup := by
    rw [map_fst_argumentGlobals typed.length_eq]
    exact denotes.declared.2
  have stillUnused (entry : String × Value) (belongs : entry ∈ argumentGlobals closure args) :
      other.root.lookup entry.1 = none := by
    obtain ⟨param, listed, same⟩ := List.mem_map.mp (List.of_mem_zip belongs).1
    obtain ⟨supply, -, rfl⟩ := drawn
    rw [← same]
    exact unused param listed
  obtain ⟨later, defined, gained⟩ := gained_of_unused rooted frame distinct stillUnused
  exact ⟨later, defined, ⟨reached, settled, denotes, unused, typed, made, drawn, between, gained⟩⟩

namespace ArgumentsBound

variable {older : Nat} (bound : ArgumentsBound engine other later forms paramsLoc body closure args
  older)
include bound

/-- The parameters and the globals in their place have identities of their own. -/
theorem spans : Spans engine.supply other.supply (engine.supply + closure.arity) later.supply
    (closure.params.map (·.id))
    ((newBindings other.supply (argumentGlobals closure args)).map (·.id)) where
  distinct := by
    rw [bound.denotes.ids]
    exact List.nodup_range'
  otherDistinct := nodup_newBindings
  later := by
    have older := bound.older
    rw [bound.gained.supply]
    omega
  params := by
    intro id belongs
    rw [bound.denotes.ids, List.mem_range'_1] at belongs
    exact belongs
  globals := by
    intro id belongs
    obtain ⟨binding, listed, rfl⟩ := List.mem_map.mp belongs
    rw [bound.gained.supply]
    exact ⟨start_le_newBindings binding listed, newBindings_lt binding listed⟩

theorem later_le : other.supply ≤ later.supply :=
  bound.spans.later.2.2

theorem alike_params : List.Forall₂ (Binding.Alike .exact (.calling bound.spans)) closure.params
    (newBindings other.supply (argumentGlobals closure args)) :=
  alike_newBindings bound.typed fun position _ _ member otherMember =>
    .inl (.inr ⟨position, member, otherMember⟩)

/-- Where the parameters are in scope and where the globals are, names mean the same. -/
theorem alike_scopes {inner : Scope} (declared : engine.elaborator.paramList engine.root
      (.combo .paren forms paramsLoc) engine.supply =
        .ok ((closure.params, inner), engine.supply + closure.arity)) :
    inner.Alike .exact (.calling bound.spans) (fun _ => True) later.root := by
  have rooted := bound.reached.rooted
  have otherRooted := rooted.drawn bound.drawn
  have sameRoot : other.root = engine.root := by
    obtain ⟨supply, -, rfl⟩ := bound.drawn
    rfl
  intro name _
  rw [Elaborator.lookup_paramList declared, bound.gained.lookup otherRooted, sameRoot]
  cases around : engine.root.lookup name with
  | none =>
    rw [Option.or_none, Option.none_or]
    exact Scope.rel_find? bound.alike_params name
  | some binding =>
    -- A name that is used at the root is none of a parameter.
    have unnamed : Scope.find? closure.params name = none := by
      rw [Scope.find?_eq_none]
      rintro param belongs rfl
      rw [bound.unused param belongs] at around
      cases around
    rw [unnamed, Option.none_or, Option.some_or]
    exact .some ⟨rfl, rfl, Ty.over_self _,
      .inl (.inl ⟨rfl, rooted.id_lt (rooted.mem_of_lookup around)⟩)⟩

/-- The body compiles beside the globals, to an expression that is alike. -/
theorem compileForm : ∃ bodyUnit bodyMade, later.compileForm body = .ok (bodyUnit, bodyMade) ∧
    closure.body.Alike .exact (.calling bound.spans) bodyUnit.root ∧
    bodyUnit.frame = later.globals ∧ bodyUnit.registry = later.registry ∧
    later.Drawn bodyMade := by
  obtain ⟨inner, declared, elaborated⟩ := bound.denotes.elaborated
  have same : later.elaborator = engine.elaborator := by
    obtain ⟨supply, -, rfl⟩ := bound.drawn
    exact bound.gained.elaborator
  have agree : engine.elaborator.Agree .exact (fun _ => True) later.elaborator := by
    rw [same]
    exact
      { registry := engine.elaborator.registry.agree_self
        resolve := fun _ _ => rfl
        resolved := fun _ _ _ _ => Ty.over_self _
        heads := fun _ _ => rfl
        maxDepth := rfl }
  have inStep : Elaborator.InStep .exact (engine.supply + closure.arity) later.supply
      (Expr.Alike .exact (.calling bound.spans))
      (engine.elaborator.elaborateAt inner 0 body)
      (later.elaborator.elaborateAt later.root 0 body) :=
    agree.elaborateAt (View.draws_calling bound.spans) body (bound.alike_scopes declared)
      (body.alike_refl fun _ => rfl)
  have ends := inStep () (le_refl _) (engine.supply + closure.arity) later.supply ⟨0, rfl, rfl⟩
  rw [elaborated] at ends
  generalize outcome : later.elaborator.elaborateAt later.root 0 body later.supply = result at ends
  cases ends with
  | @ok _ result held =>
    obtain ⟨root, supply⟩ := result
    obtain ⟨-, -, ⟨count, -, rfl⟩, roots⟩ := held
    refine ⟨⟨root, later.globals, later.registry⟩, { later with supply := later.supply + count },
      ?_, roots, rfl, rfl, ⟨_, Nat.le_add_right .., rfl⟩⟩
    rw [compileForm_eq, perform_eq]
    unfold Elaborator.elaborate
    rw [outcome]
    rfl

/-- Bindings around the lambda that correspond have values that are alike, or none. -/
theorem rel_globals {binding second : Nat}
    (pair : (View.calling bound.spans).bindings binding second) :
    Option.Rel (Value.Alike .exact (.below older)) (engine.globals.lookup binding)
      (engine.globals.lookup second) := by
  have rooted := bound.reached.rooted
  have between := bound.older
  have settled : engine.globals.Below older :=
    ⟨Nat.lt_of_lt_of_le bound.settled.id between.1,
      fun slot belongs => (bound.settled.slots slot belongs).mono between.1⟩
  rcases View.older_or_drawn pair with ⟨rfl, -⟩ | ⟨drawn, otherDrawn⟩
  · exact settled.rel_lookup binding
  · rw [rooted.lookup_above drawn, rooted.lookup_above (by omega)]
    exact .none

/-- The lambdas of the body beside the globals are newer than the arguments. -/
theorem newer (a b : Nat)
    (pair : Pairing.drawn (engine.supply + closure.arity) later.supply a b) : older ≤ b := by
  obtain ⟨count, -, rfl⟩ := pair
  have between := bound.older
  have later_le := bound.later_le
  omega

/-- The world in which a call and the body beside the globals start. -/
def world {frame : Nat} (entered : older ≤ frame) : World :=
  .calling older _ bound.newer frame later.globals.id entered

theorem below_le_world {frame : Nat} (entered : older ≤ frame) :
    World.below older ≤ bound.world entered :=
  World.below_le_calling bound.newer entered

/-- The frame of a call and that of the globals are alike. -/
theorem alike_frames {frame : Nat} (entered : older ≤ frame) :
    (closure.callFrame args frame).Alike .exact (bound.world entered) (.calling bound.spans)
      later.globals := by
  have below := bound.below_le_world entered
  have parts : List.Forall₂ (Value.Alike .exact (.below older)) args args :=
    List.forall₂_same.mpr fun arg belongs => (bound.made arg belongs).alike_self
  have extended : (engine.globals.extend frame ((closure.params.map (·.id)).zip args)).Alike .exact
      _ (.calling bound.spans) (engine.globals.extend later.globals.id _) :=
    Frame.alike_extend bound.alike_params (parts.imp fun _ _ part => part.mono below)
      (fun _ _ pair => rel_widen (bound.rel_globals pair) below)
      fun lambda second pair => .inr ⟨pair, rfl, rfl⟩
  have sameGlobals : other.globals = engine.globals := by
    obtain ⟨supply, -, rfl⟩ := bound.drawn
    rfl
  refine ⟨fun binding second pair => ?_, extended.functions⟩
  have rel := extended.slots binding second pair
  rw [Closure.callFrame, bound.denotes.frame, bound.gained.values second, sameGlobals,
    map_snd_argumentGlobals bound.typed.length_eq]
  rwa [Frame.lookup_extend engine.globals later.globals.id] at rel

/-- A call does what the body does beside the globals. -/
theorem call_alike {bodyUnit : CompiledUnit} {runner : Engine}
    (roots : closure.body.Alike .exact (.calling bound.spans) bodyUnit.root)
    (frame : bodyUnit.frame = later.globals) (registry : bodyUnit.registry = later.registry)
    (inert : engine.host.Inert .exact older) (called : engine.Drawn caller)
    (entered : older ≤ caller.supply) (ran : later.Drawn runner) :
    RunAlike .exact (.below older) (caller.call closure args) (runner.invoke bodyUnit) := by
  have sameRegistry : later.registry = engine.registry := by
    obtain ⟨supply, -, rfl⟩ := bound.drawn
    exact congrArg (·.registry) bound.gained.elaborator
  have sameHost : later.host = engine.host := by
    obtain ⟨supply, -, rfl⟩ := bound.drawn
    exact bound.gained.host
  obtain ⟨supply, more, rfl⟩ := called
  obtain ⟨otherSupply, otherMore, rfl⟩ := ran
  have below := bound.below_le_world entered
  have fits : (bound.world entered).Fits (supply + 1) otherSupply :=
    World.fits_calling bound.newer entered (Nat.lt_succ_self _)
      (Nat.lt_of_lt_of_le bound.gained.frame otherMore)
      (Nat.le_trans bound.older.2 (Nat.le_trans bound.later_le otherMore))
  have settings : Setting.Alike .exact older ⟨engine.registry, engine.host⟩
      ⟨engine.registry, engine.host⟩ :=
    ⟨rfl, engine.registry.agree_self, fun key _ => inert.callback key⟩
  have evaluate := settings.evaluate closure.body below (bound.alike_frames entered) roots _
    (le_refl _) _ _ fits
  unfold Engine.call Engine.invoke
  rw [perform_eq, perform_eq, Closure.call_of_accepts (Closure.accepts_of_types bound.typed),
    bound.denotes.registry, frame, registry, sameRegistry]
  dsimp only
  rw [sameHost]
  refine evaluate.map ?_
  rintro done otherDone ⟨wider, wide, fit, values⟩
  exact ⟨wider, le_trans below wide, fit, values⟩

end ArgumentsBound

/-- **A call binds parameters as globals.** Take an engine of a session whose globals are made of
what was drawn, as they are in every session (`Engine.settled_in_session`), and a lambda that it
compiles. Running the unit makes a function with the parameters that the forms declare.

If no parameter has a root name, let the function be called with arguments of just the types of its
parameters, and let an engine be given these as globals under the names of the parameters. It takes
them and compiles the body alone, the static type of which is the result type of the function. The
call and a run of the body give values that are alike, or fail with one report, if code of the host
answers alike when it is given what is alike.

If the number of arguments is another one, every call is reported as `arityMismatch`, and if it is
right but an argument is refused, as `typeMismatch`: whatever the body is, so it is not evaluated.
-/
theorem call_binds_globals (reached : engine.Reached)
    (settled : engine.globals.Below engine.supply) (head : engine.heads.get? name = some .lambda)
    (compiled : engine.compileForm (.combo .paren
      [.atom name headLoc, .combo .paren forms paramsLoc, body] loc) = .ok (unit, made)) :
    ∃ closure : Closure Value,
      (∀ runner : Engine, runner.invoke unit = .ok (.function closure, runner)) ∧
      List.Forall₂ engine.elaborator.Declares forms closure.params ∧
      ((∀ param ∈ closure.params, engine.root.lookup param.name = none) →
        ∀ (current : Engine) (args : List Value), made.Drawn current →
          (∀ arg ∈ args, arg.Below current.supply) →
          List.Forall₂ (fun (param : Binding) arg => arg.ty? = some param.ty) closure.params args →
          ∀ caller other : Engine, current.Drawn caller → current.Drawn other →
          ∃ later bodyUnit bodyMade,
            other.defineGlobals ((closure.params.map (·.name)).zip args) = .ok later ∧
            later.compileForm body = .ok (bodyUnit, bodyMade) ∧
            closure.ty = .func (closure.params.map (·.ty)) bodyUnit.root.ty ∧
            (current.host.Inert .exact current.supply → ∀ runner : Engine, bodyMade.Drawn runner →
              RunAlike .exact (.below current.supply) (caller.call closure args)
                (runner.invoke bodyUnit))) ∧
      ∀ args : List Value,
        (args.length ≠ closure.arity → ∀ (caller : Engine) (other : Expr),
          caller.call { closure with body := other } args =
            .error ((Fault.argumentCount closure.arity args.length).reportAt other.loc)) ∧
        (args.length = closure.arity →
          (∃ pair ∈ closure.params.zip args,
            Closure.Refuses engine.registry pair.1 pair.2) →
          ∃ pair ∈ closure.params.zip args, Closure.Refuses engine.registry pair.1 pair.2 ∧
            ∀ (caller : Engine) (other : Expr), caller.call { closure with body := other } args =
              .error ((Fault.argumentType pair.1.name pair.1.ty pair.2.typeName).reportAt
                other.loc)) := by
  obtain ⟨closure, denotes, rfl, invoked⟩ := exists_denotes head compiled
  refine ⟨closure, invoked, denotes.declared.1, ?_,
    fun args => ⟨fun miscounted caller other => ?_, fun counted refused => ?_⟩⟩
  · intro unused current args drawn argsMade typed caller other called defining
    have before : engine.Drawn { engine with supply := closure.lambda + 1 } := by
      have enough := denotes.start_le
      exact ⟨_, by omega, rfl⟩
    obtain ⟨supply, more, rfl⟩ := before.trans drawn
    obtain ⟨callerSupply, callerMore, rfl⟩ := called
    obtain ⟨otherSupply, otherMore, rfl⟩ := defining
    obtain ⟨later, defined, bound⟩ := denotes.exists_argumentsBound reached settled unused typed
      argsMade ⟨otherSupply, Nat.le_trans more otherMore, rfl⟩ ⟨more, otherMore⟩
    obtain ⟨bodyUnit, bodyMade, bodyCompiled, roots, frame, registry, bodyDrawn⟩ :=
      bound.compileForm
    refine ⟨later, bodyUnit, bodyMade, defined, bodyCompiled, ?_, fun inert runner ran => ?_⟩
    · rw [← roots.ty_eq]
      exact denotes.ty
    · exact bound.call_alike roots frame registry inert
        ⟨callerSupply, Nat.le_trans more callerMore, rfl⟩ callerMore (bodyDrawn.trans ran)
  · exact call_miscounted miscounted
  · rw [← denotes.registry] at refused ⊢
    exact call_refused counted refused

end Engine

theorem PointHost.exact_withOrigin {older : Nat} : withOrigin.host.Inert .exact older := by
  intro callback belongs
  obtain rfl : callback = makePoint := List.mem_singleton.mp belongs
  exact Recipe.likewise (.make "Point") trivial

namespace Engine

/-- The function `(=> ((Point p)) (== p origin))` finds the origin in a call, as its body does
beside a global `p`; it refuses a number, and a call without arguments. -/
theorem call_binds_globals_isOrigin :
    let loc : Location := ⟨"point", 1, 1⟩
    let body : Form := .combo .paren [.atom "==" loc, .atom "p" loc, .atom "origin" loc] loc
    let origin : Value := .object 0 "Point" [.datum (.int 0)]
    ∃ unit made closure,
      PointHost.withOrigin.compileForm (PointHost.isOrigin 1) = .ok (unit, made) ∧
      made.invoke unit = .ok (.function closure, made) ∧
      (∃ later bodyUnit bodyMade, made.defineGlobals [("p", origin)] = .ok later ∧
        later.compileForm body = .ok (bodyUnit, bodyMade) ∧ bodyUnit.root.ty = .bool ∧
        bodyMade.invoke bodyUnit = .ok (.bool true, bodyMade) ∧
        RunAlike .exact (.below 5) (made.call closure [origin]) (bodyMade.invoke bodyUnit)) ∧
      made.call closure [.datum (.int 1)] =
        .error ((Fault.argumentType "p" (.named "Point") "int").reportAt loc) ∧
      made.call closure [] = .error ((Fault.argumentCount 1 0).reportAt loc) := by
  intro loc body origin
  have compiled : PointHost.withOrigin.compileForm (.combo .paren [.atom "=>" loc,
      .combo .paren [.combo .paren [.atom "Point" loc, .atom "p" loc] loc] loc, body] loc) =
    .ok (_, { PointHost.withOrigin with supply := 5 }) := rfl
  obtain ⟨closure, invoked, -, bound, refused⟩ := call_binds_globals PointHost.reached_withOrigin
    PointHost.below_withOrigin (by rfl) compiled
  cases invoked { PointHost.withOrigin with supply := 5 }
  obtain ⟨later, bodyUnit, bodyMade, defined, bodyCompiled, -, alike⟩ :=
    bound (by decide) _ [origin] (drawn_refl _)
      (List.forall_mem_singleton.mpr (.object (by decide) (List.forall_mem_singleton.mpr .datum)))
      (.cons rfl .nil) _ _ (drawn_refl _) (drawn_refl _)
  have refusedNumber : Closure.Refuses PointHost.withOrigin.registry ⟨3, "p", .named "Point"⟩
      (.datum (.int 1)) := .unassignable rfl (by rfl)
  obtain ⟨pair, belongs, -, reported⟩ :=
    (refused [.datum (.int 1)]).2 rfl ⟨_, List.mem_singleton_self _, refusedNumber⟩
  obtain rfl := List.mem_singleton.mp belongs
  refine ⟨_, _, _, compiled, rfl, ⟨later, bodyUnit, bodyMade, defined, bodyCompiled, ?_, ?_,
    alike PointHost.exact_withOrigin _ (drawn_refl _)⟩, reported _ _, (refused []).1 (by decide) _ _⟩
  all_goals cases defined; cases bodyCompiled; rfl

end Engine

/-! ## What shows calls -/

namespace Counter

/-- Code that counts what was drawn. -/
def count : Callback :=
  fun _ _ next => .ok (.datum (.int (BitVec.ofNat 32 next)), next + 1)

def engine : Engine :=
  let declared := (Engine.withOptions {}).register
    { name := "Counter", indexers := [([.int], .int, count)] }
  (declared.defining "counter" (.object 0 "Counter" [])).2

def lambda (body : Form) : Form :=
  let loc : Location := ⟨"counter", 1, 1⟩
  .combo .paren [.atom "=>" loc,
    .combo .paren [.combo .paren [.atom "int" loc, .atom "x" loc] loc] loc, body] loc

def counted : Form :=
  let loc : Location := ⟨"counter", 1, 1⟩
  .combo .paren [.atom "#" loc, .atom "counter" loc, .atom "x" loc] loc

def constant : Form :=
  let loc : Location := ⟨"counter", 1, 1⟩
  .combo .paren [.atom "=>" loc, .combo .paren [] loc, .atom "x" loc] loc

end Counter

namespace Engine

/-- What a function with one parameter does when it is called, and what its body does when it is
compiled and run afterwards beside a global in place of the parameter. -/
def Beside (engine : Engine) (lambda body : Form) (name : String) (arg called ran : Value) : Prop :=
  ∃ unit made closure callLater later bodyUnit bodyMade last,
    engine.compileForm lambda = .ok (unit, made) ∧
      made.invoke unit = .ok (.function closure, made) ∧
      made.call closure [arg] = .ok (called, callLater) ∧
      callLater.defineGlobals [(name, arg)] = .ok later ∧
      later.compileForm body = .ok (bodyUnit, bodyMade) ∧
      bodyMade.invoke bodyUnit = .ok (ran, last)

/-- That a function was called can be seen. Code of a host that counts gives other numbers in the
call and beside the global, and the function that a call makes is not the function that the body
makes beside the global, whose code is another lambda. -/
theorem calls_seen :
    (∃ first second, Counter.engine.Beside (Counter.lambda Counter.counted) Counter.counted "x"
        (.datum (.int 0)) (.datum (.int first)) (.datum (.int second)) ∧ first ≠ second) ∧
      ∃ first second, Counter.engine.Beside (Counter.lambda Counter.constant) Counter.constant "x"
        (.datum (.int 0)) first second ∧ first.same second = false :=
  ⟨⟨_, _, ⟨_, _, _, _, _, _, _, _, rfl, rfl, rfl, rfl, rfl, rfl⟩, by decide⟩,
    _, _, ⟨_, _, _, _, _, _, _, _, rfl, rfl, rfl, rfl, rfl, rfl⟩, rfl⟩

end Engine

end ExprLang
