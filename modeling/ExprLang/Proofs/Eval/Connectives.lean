import ExprLang.Proofs.Elaboration.Rules
import ExprLang.Proofs.TypeSoundness

/-!
# Chains of connectives

Conjunction and disjunction of many booleans. A chain is nested to the left, so its first operand lies
at the bottom; but it is evaluated from the left. What it comes to is a scan of its operands
(`Setting.Scans`): the short-circuit connectives stop at the first operand that fails or decides the
result, so what stands behind it does not matter; the plain ones go on to the end and come to the same
boolean (`Elaborator.connectives_evaluate`).

A scan says nothing of an operand that yields something other than a boolean. Code of a host that does
not keep to its declaration can give an operand of type `bool` such a value, and the connective then
refuses it (`Elaborator.connective_refuses_misfit`).
-/

namespace ExprLang

/-! ## Connectives -/

namespace BinaryOp

/-- The boolean of one operand that decides the result of a connective. -/
def decisive? : BinaryOp → Option Bool
  | .and | .andAlso => some false
  | .or | .orElse => some true
  | _ => none

def skips : BinaryOp → Bool
  | .andAlso | .orElse => true
  | _ => false

variable {op : BinaryOp} {decisive : Bool}

theorem binaryTy?_connective (connective : op.decisive? = some decisive) (registry : Registry) :
    Typing.binaryTy? registry op .bool .bool = some .bool := by
  cases op <;> cases connective <;> rfl

/-- A connective of two booleans is decisive if one of them is. -/
theorem apply_connective (connective : op.decisive? = some decisive) (first second : Bool) :
    op.apply (.bool first) (.bool second) =
      .ok (.bool (if first = decisive ∨ second = decisive then decisive else !decisive)) := by
  cases op <;> cases connective <;> cases first <;> cases second <;> rfl

theorem isDecided_connective (connective : op.decisive? = some decisive) (b : Bool) :
    op.isDecided (.bool b) = (op.skips && b == decisive) := by
  cases op <;> cases connective <;> cases b <;> rfl

end BinaryOp

namespace Setting

variable {setting : Setting} {frame : Frame Value} {skips decisive : Bool} {op : BinaryOp}
  {first second operand expr : Expr} {rest operands others : List Expr} {next later : Nat}
  {outcome : Except Diagnostic (Value × Nat)}

/-! ## Operands that are booleans -/

/-- Whenever an expression has a value, it is a boolean. -/
def YieldsBool (setting : Setting) (frame : Frame Value) (expr : Expr) : Prop :=
  ∀ next value later, setting.evaluate frame expr next = .ok (value, later) → ∃ b, value = .bool b

theorem yieldsBool_of_sound {supplied : Closure Value → Prop} (hostBased : setting.registry.HostBased)
    (sound : Sound setting supplied frame expr) (bool : expr.ty = .bool) :
    setting.YieldsBool frame expr := by
  intro next value later ran
  have wellTyped : WellTyped setting.registry supplied value expr.ty := (sound next).of_ok ran
  rw [bool] at wellTyped
  obtain ⟨datum, rfl, shown⟩ := wellTyped.exists_datum hostBased rfl
  obtain ⟨b, rfl⟩ := Datum.eq_bool shown
  exact ⟨b, rfl⟩

/-! ## Scanning -/

/-- Operands that yield booleans are evaluated from the left until one fails. If one of them yields
the decisive boolean, that is the result, and the scan either stops there or goes on and may still
fail. Otherwise the other boolean is the result. -/
inductive Scans (setting : Setting) (frame : Frame Value) (skips decisive : Bool) :
    List Expr → Nat → Except Diagnostic (Value × Nat) → Prop where
  | done {next : Nat} : Scans setting frame skips decisive [] next (.ok (.bool !decisive, next))
  | fails {operand : Expr} {rest : List Expr} {next : Nat} {report : Diagnostic}
      (failed : setting.evaluate frame operand next = .error report) :
      Scans setting frame skips decisive (operand :: rest) next (.error report)
  | passes {operand : Expr} {rest : List Expr} {next middle : Nat}
      {outcome : Except Diagnostic (Value × Nat)}
      (ran : setting.evaluate frame operand next = .ok (.bool !decisive, middle))
      (further : Scans setting frame skips decisive rest middle outcome) :
      Scans setting frame skips decisive (operand :: rest) next outcome
  | stops {operand : Expr} {rest : List Expr} {next later : Nat} (short : skips = true)
      (ran : setting.evaluate frame operand next = .ok (.bool decisive, later)) :
      Scans setting frame skips decisive (operand :: rest) next (.ok (.bool decisive, later))
  | goesOn {operand : Expr} {rest : List Expr} {next middle : Nat}
      {outcome : Except Diagnostic (Value × Nat)} (full : skips = false)
      (ran : setting.evaluate frame operand next = .ok (.bool decisive, middle))
      (further : Scans setting frame skips decisive rest middle outcome) :
      Scans setting frame skips decisive (operand :: rest) next
        (outcome.map fun made => (.bool decisive, made.2))

/-- Operands behind the one where a scan stops are not looked at. -/
theorem Scans.append (scans : setting.Scans frame true decisive operands next outcome)
    (stops : ∀ later, outcome ≠ .ok (.bool !decisive, later)) (others : List Expr) :
    setting.Scans frame true decisive (operands ++ others) next outcome := by
  induction scans with
  | done => exact absurd rfl (stops _)
  | fails failed => exact .fails failed
  | passes ran _ ih => exact .passes ran (ih stops)
  | stops short ran => exact .stops short ran
  | goesOn full => cases full

/-- A scan of all operands and one that stops come to the same boolean. -/
theorem Scans.stopping {b : Bool} (scans : setting.Scans frame false decisive operands next outcome)
    (connects : outcome = .ok (.bool b, later)) :
    ∃ supply, setting.Scans frame true decisive operands next (.ok (.bool b, supply)) := by
  induction scans generalizing later with
  | done =>
    cases connects
    exact ⟨_, .done⟩
  | fails => cases connects
  | passes ran _ ih =>
    obtain ⟨supply, scans⟩ := ih connects
    exact ⟨supply, .passes ran scans⟩
  | stops short => cases short
  | @goesOn _ _ _ middle outcome _ ran =>
    cases outcome with
    | error => cases connects
    | ok =>
      cases connects
      exact ⟨middle, .stops rfl ran⟩

/-- Operands that yield booleans can be scanned. -/
theorem exists_scans (skips decisive : Bool)
    (bools : ∀ operand ∈ operands, setting.YieldsBool frame operand) (next : Nat) :
    ∃ outcome, setting.Scans frame skips decisive operands next outcome := by
  induction operands generalizing next with
  | nil => exact ⟨_, .done⟩
  | cons operand rest ih =>
    rw [List.forall_mem_cons] at bools
    cases ran : setting.evaluate frame operand next with
    | error report => exact ⟨_, .fails ran⟩
    | ok done =>
      obtain ⟨value, middle⟩ := done
      obtain ⟨b, rfl⟩ := bools.1 _ _ _ ran
      obtain ⟨outcome, further⟩ := ih bools.2 middle
      rcases eq_or_ne b decisive with rfl | differs
      · cases skips with
        | true => exact ⟨_, .stops rfl ran⟩
        | false => exact ⟨_, .goesOn rfl ran further⟩
      · obtain rfl := Bool.eq_not.mpr differs
        exact ⟨_, .passes ran further⟩

/-! ## Binary nodes -/

section Binary

variable {node : Node} {left right : Expr} {value : Value} {middle : Nat} {report : Diagnostic}

theorem evaluate_binary_error (failed : setting.evaluate frame left next = .error report) :
    setting.evaluate frame (.binary node op left right) next = .error report := by
  rw [evaluate, Run.bind_of_error failed]

theorem evaluate_binary_decided (ran : setting.evaluate frame left next = .ok (value, middle))
    (decided : op.isDecided value = true) :
    setting.evaluate frame (.binary node op left right) next = .ok (value, middle) := by
  rw [evaluate, Run.bind_of_ok ran, if_pos decided]
  rfl

theorem evaluate_binary_undecided (node : Node) (right : Expr)
    (ran : setting.evaluate frame left next = .ok (value, middle))
    (undecided : op.isDecided value = false) :
    setting.evaluate frame (.binary node op left right) next =
      (setting.evaluate frame right >>= fun rightValue =>
        (locate node.loc (op.apply value rightValue) : Except Diagnostic Value)) middle := by
  rw [evaluate, Run.bind_of_ok ran, if_neg (by rw [undecided]; decide)]

end Binary

/-! ## Chains -/

variable {node : Node} {loc : Location}

section Connective

variable {a b : Bool} {middle : Nat} (connective : op.decisive? = some decisive)
  (ran : setting.evaluate frame first next = .ok (.bool a, middle))
  (undecided : op.isDecided (.bool a) = false)

include ran undecided

theorem evaluate_connective_error {report : Diagnostic} (node : Node)
    (failed : setting.evaluate frame second middle = .error report) :
    setting.evaluate frame (.binary node op first second) next = .error report := by
  rw [evaluate_binary_undecided node second ran undecided, Run.bind_of_error failed]

include connective

theorem evaluate_connective (node : Node)
    (further : setting.evaluate frame second middle = .ok (.bool b, later)) :
    setting.evaluate frame (.binary node op first second) next = .ok
      (.bool (if a = decisive ∨ b = decisive then decisive else !decisive), later) := by
  rw [evaluate_binary_undecided node second ran undecided, Run.bind_of_ok further,
    BinaryOp.apply_connective connective]
  rfl

end Connective

/-- Operands that are scanned can be connected two by two. -/
theorem Scans.connect (connective : op.decisive? = some decisive) (node : Node)
    (scans : setting.Scans frame op.skips decisive (first :: second :: rest) next outcome) :
    setting.Scans frame op.skips decisive (.binary node op first second :: rest) next outcome := by
  cases scans with
  | fails failed => exact .fails (evaluate_binary_error failed)
  | stops short ran =>
    have decided : op.isDecided (.bool decisive) = true := by
      rw [BinaryOp.isDecided_connective connective, short, Bool.true_and, beq_self_eq_true]
    exact .stops short (evaluate_binary_decided ran decided)
  | passes ran further =>
    have undecided : op.isDecided (.bool !decisive) = false := by
      simp [BinaryOp.isDecided_connective connective]
    cases further with
    | fails failed => exact .fails (evaluate_connective_error ran undecided node failed)
    | passes second further =>
      refine .passes ?_ further
      simpa using evaluate_connective connective ran undecided node second
    | stops short second =>
      refine .stops short ?_
      simpa using evaluate_connective connective ran undecided node second
    | goesOn full second further =>
      refine .goesOn full ?_ further
      simpa using evaluate_connective connective ran undecided node second
  | goesOn full ran further =>
    have undecided : op.isDecided (.bool decisive) = false := by
      rw [BinaryOp.isDecided_connective connective, full, Bool.false_and]
    cases further with
    | fails failed => exact .fails (evaluate_connective_error ran undecided node failed)
    | passes second further =>
      refine .goesOn full ?_ further
      simpa using evaluate_connective connective ran undecided node second
    | stops short => cases short.symm.trans full
    | @goesOn _ _ _ _ outcome _ second further =>
      have once : (outcome.map fun made : Value × Nat => (Value.bool decisive, made.2)).map
            (fun made => (Value.bool decisive, made.2)) =
          outcome.map fun made => (.bool decisive, made.2) := by
        cases outcome <;> rfl
      rw [once]
      refine .goesOn full ?_ further
      simpa using evaluate_connective connective ran undecided node second

/-- A chain comes to what a scan of its operands comes to. -/
theorem Scans.evaluate_eq (connective : op.decisive? = some decisive)
    (folded : Typing.Folded loc op first rest expr)
    (scans : setting.Scans frame op.skips decisive (first :: rest) next outcome) :
    setting.evaluate frame expr next = outcome := by
  induction folded with
  | done =>
    cases scans with
    | fails failed => exact failed
    | stops _ ran => exact ran
    | passes ran further | goesOn _ ran further =>
      cases further
      exact ran
  | step _ ih => exact ih (scans.connect connective _)

/-- How a chain of a connective is evaluated: to what a scan of its operands comes to. Operands that
yield booleans are scanned, and where the chain evaluates all of them, it comes to the boolean to
which a scan that stops comes. -/
structure Connects (setting : Setting) (frame : Frame Value) (op : BinaryOp) (decisive : Bool)
    (operands : List Expr) (expr : Expr) : Prop where
  outcome : ∀ next outcome, setting.Scans frame op.skips decisive operands next outcome →
    setting.evaluate frame expr next = outcome
  scans : (∀ operand ∈ operands, setting.YieldsBool frame operand) → ∀ next,
    setting.Scans frame op.skips decisive operands next (setting.evaluate frame expr next)
  agrees : op.skips = false → ∀ next b later,
    setting.Scans frame op.skips decisive operands next (.ok (.bool b, later)) →
      ∃ supply, setting.Scans frame true decisive operands next (.ok (.bool b, supply))

theorem connects_folded (connective : op.decisive? = some decisive)
    (folded : Typing.Folded loc op first rest expr) :
    setting.Connects frame op decisive (first :: rest) expr where
  outcome _ _ scans := scans.evaluate_eq connective folded
  scans bools next := by
    obtain ⟨outcome, scans⟩ := exists_scans op.skips decisive bools next
    rwa [scans.evaluate_eq connective folded]
  agrees plain next b later scans := by
    rw [plain] at scans
    exact scans.stopping rfl

end Setting

namespace Typing

/-- A connective types over booleans. -/
theorem exists_nary_connective {op : BinaryOp} {decisive : Bool}
    (connective : op.decisive? = some decisive) (registry : Registry) (loc : Location) {first : Expr}
    {rest : List Expr} (bools : ∀ operand ∈ first :: rest, operand.ty = .bool) :
    ∃ expr, nary registry loc op first rest = .ok expr ∧ expr.ty = .bool := by
  induction rest generalizing first with
  | nil => exact ⟨first, rfl, bools first List.mem_cons_self⟩
  | cons second rest ih =>
    rw [List.forall_mem_cons, List.forall_mem_cons] at bools
    obtain ⟨firstBool, secondBool, bools⟩ := bools
    have made : binary registry loc op first second = .ok (.binary ⟨.bool, loc⟩ op first second) := by
      rw [binary, firstBool, secondBool, BinaryOp.binaryTy?_connective connective]
    rw [nary, List.foldlM_cons, made]
    exact ih (List.forall_mem_cons.mpr ⟨rfl, bools⟩)

end Typing

namespace Elaborator

/-- Forms elaborate to operands of type `bool`. -/
structure BoolOperands (elaborator : Elaborator) (scope : Scope) (depth : Nat) (forms : List Form)
    (next : Nat) (operands : List Expr) (later : Nat) : Prop where
  elaborated : elaborator.elaborateAll scope depth forms next = .ok (operands, later)
  bools : ∀ operand ∈ operands, operand.ty = .bool

variable {elaborator : Elaborator} {scope : Scope} {depth supply middle later : Nat}
  {forms others : List Form} {operands otherOperands : List Expr}

theorem BoolOperands.append (first : BoolOperands elaborator scope depth forms supply operands middle)
    (rest : BoolOperands elaborator scope depth others middle otherOperands later) :
    BoolOperands elaborator scope depth (forms ++ others) supply (operands ++ otherOperands) later where
  elaborated := ((elaboratesAll_of_ok first.elaborated).append
    (elaboratesAll_of_ok rest.elaborated)).ok
  bools operand belongs :=
    (List.mem_append.mp belongs).elim (first.bools operand) (rest.bools operand)

/-- Operands of type `bool` yield booleans if the host and the frame keep to the declared types. -/
theorem BoolOperands.yieldsBool {host : Host} {frame : Frame Value}
    {supplied : Closure Value → Prop} (hostBased : elaborator.registry.HostBased)
    (sound : host.Sound elaborator.registry supplied)
    (below : scope.Below supply) (covered : frame.Covers elaborator.registry supplied scope.bindings)
    (made : BoolOperands elaborator scope depth forms supply operands later) :
    ∀ operand ∈ operands, Setting.YieldsBool ⟨elaborator.registry, host⟩ frame operand := by
  intro operand belongs
  have typed := (elaboratesAll_of_ok made.elaborated).typed below operand belongs
  exact Setting.yieldsBool_of_sound hostBased (Setting.meets_evaluate hostBased sound covered typed)
    (made.bools operand belongs)

/-- **Chains of connectives.** A connective over any number of operands of type `bool` compiles. With
short circuit, it has the outcome of evaluating the operands from the left until one fails or yields
the decisive boolean, whatever operands of type `bool` stand behind that one. Without, all operands
are evaluated until one fails, and if none does, the boolean is the same.

Operands yield booleans under a host that keeps to the types that it declares. Nothing is assumed of
operands that are not evaluated. -/
theorem connectives_evaluate {host : Host} {frame : Frame Value} {name : String}
    {headLoc loc : Location} {op : BinaryOp} {decisive : Bool}
    (head : elaborator.heads.get? name = some (.nary op))
    (connective : op.decisive? = some decisive) :
    (∀ forms operands later, forms ≠ [] →
      BoolOperands elaborator scope (depth + 1) forms supply operands later →
        ∃ expr, elaborator.elaborateAt scope depth
            (.combo .paren (.atom name headLoc :: forms) loc) supply = .ok (expr, later) ∧
          expr.ty = .bool ∧
          Setting.Connects ⟨elaborator.registry, host⟩ frame op decisive operands expr) ∧
    (op.skips = true → ∀ kept others operands otherOperands middle later, kept ≠ [] →
      BoolOperands elaborator scope (depth + 1) kept supply operands middle →
      BoolOperands elaborator scope (depth + 1) others middle otherOperands later →
        ∃ expr, elaborator.elaborateAt scope depth
            (.combo .paren (.atom name headLoc :: (kept ++ others)) loc) supply = .ok (expr, later) ∧
          ∀ next outcome,
            Setting.Scans ⟨elaborator.registry, host⟩ frame true decisive operands next outcome →
            (∀ last, outcome ≠ .ok (.bool !decisive, last)) →
              (Setting.mk elaborator.registry host).evaluate frame expr next = outcome) ∧
    ∀ supplied, elaborator.registry.HostBased → host.Sound elaborator.registry supplied →
      scope.Below supply → frame.Covers elaborator.registry supplied scope.bindings →
      ∀ forms operands later, BoolOperands elaborator scope (depth + 1) forms supply operands later →
        ∀ operand ∈ operands, Setting.YieldsBool ⟨elaborator.registry, host⟩ frame operand := by
  have chains (forms : List Form) (operands : List Expr) (later : Nat) (some : forms ≠ [])
      (made : BoolOperands elaborator scope (depth + 1) forms supply operands later) :
      ∃ expr, elaborator.elaborateAt scope depth
          (.combo .paren (.atom name headLoc :: forms) loc) supply = .ok (expr, later) ∧
        expr.ty = .bool ∧
        Setting.Connects ⟨elaborator.registry, host⟩ frame op decisive operands expr := by
    obtain ⟨elaborated, bools⟩ := made
    have derived := elaboratesAll_of_ok elaborated
    cases derived with
    | nil => exact absurd rfl some
    | cons first rest =>
      obtain ⟨expr, rule, bool⟩ :=
        Typing.exists_nary_connective connective elaborator.registry loc bools
      have shallow : depth ≤ elaborator.maxDepth := Nat.le_of_succ_le first.shallow
      exact ⟨expr, (Elaborates.nary shallow head first rest rule).ok, bool,
        Setting.connects_folded connective (Typing.folded_of_nary rule)⟩
  refine ⟨chains, fun skips kept others operands otherOperands middle later some first rest => ?_,
    fun supplied hostBased sound below covered forms operands later made =>
      made.yieldsBool hostBased sound below covered⟩
  obtain ⟨expr, compiled, -, connects⟩ :=
    chains (kept ++ others) _ later (by simp [some]) (first.append rest)
  refine ⟨expr, compiled, fun next outcome scans stops => connects.outcome next outcome ?_⟩
  rw [skips]
  exact scans.append stops otherOperands

def connectiveAtom (text : String) : Form :=
  .atom text ⟨"chain", 1, 1⟩

def failingComparison : Form :=
  .combo .paren [connectiveAtom "==", .combo .paren
    [connectiveAtom "/", connectiveAtom "1", connectiveAtom "0"] ⟨"chain", 1, 2⟩,
    connectiveAtom "1"] ⟨"chain", 1, 3⟩

/-- In `(&& true false (== (/ 1 0) 1))` the division is not evaluated, and in
`(& true false (== (/ 1 0) 1))` it fails. -/
theorem connectives_evaluate_failing :
    (∃ expr, elaborate { registry := PointHost.registry } {} (.combo .paren
        (.atom "&&" ⟨"chain", 1, 1⟩ :: ([connectiveAtom "true", connectiveAtom "false"] ++
          [failingComparison])) ⟨"chain", 1, 1⟩) 1 = .ok (expr, 1) ∧
      (Setting.mk PointHost.registry PointHost.host).evaluate (.empty 0) expr 1 =
        .ok (.bool false, 1)) ∧
    ∃ expr, elaborate { registry := PointHost.registry } {} (.combo .paren
        (.atom "&" ⟨"chain", 1, 1⟩ ::
          [connectiveAtom "true", connectiveAtom "false", failingComparison]) ⟨"chain", 1, 1⟩) 1 =
            .ok (expr, 1) ∧
      (Setting.mk PointHost.registry PointHost.host).evaluate (.empty 0) expr 1 =
        .error (Fault.divisionByZero.reportAt ⟨"chain", 1, 2⟩) := by
  obtain ⟨-, replaced, -⟩ := @connectives_evaluate { registry := PointHost.registry } {} 0 1
    PointHost.host (.empty 0) "&&" ⟨"chain", 1, 1⟩ ⟨"chain", 1, 1⟩ .andAlso false rfl rfl
  obtain ⟨plain, -, -⟩ := @connectives_evaluate { registry := PointHost.registry } {} 0 1
    PointHost.host (.empty 0) "&" ⟨"chain", 1, 1⟩ ⟨"chain", 1, 1⟩ .and false rfl rfl
  constructor
  · obtain ⟨expr, compiled, outcome⟩ := replaced rfl
      [connectiveAtom "true", connectiveAtom "false"] [failingComparison] _ _ 1 1
      (List.cons_ne_nil _ _)
      ⟨rfl, List.forall_mem_cons.mpr ⟨rfl, List.forall_mem_cons.mpr ⟨rfl, List.forall_mem_nil _⟩⟩⟩
      ⟨rfl, List.forall_mem_cons.mpr ⟨rfl, List.forall_mem_nil _⟩⟩
    refine ⟨expr, compiled, outcome 1 _ (.passes rfl (.stops rfl rfl)) fun last same => ?_⟩
    cases same
  · obtain ⟨expr, compiled, -, connects⟩ := plain
      [connectiveAtom "true", connectiveAtom "false", failingComparison] _ 1
      (List.cons_ne_nil _ _)
      ⟨rfl, List.forall_mem_cons.mpr ⟨rfl, List.forall_mem_cons.mpr ⟨rfl,
        List.forall_mem_cons.mpr ⟨rfl, List.forall_mem_nil _⟩⟩⟩⟩
    exact ⟨expr, compiled, connects.outcome 1 _ (.passes rfl (.goesOn rfl rfl (.fails rfl)))⟩

/-! ## Operands that yield something else -/

namespace Misfit

/-- A host type with an indexer that is declared to give a boolean. -/
def registry : Registry :=
  Registry.register {}
    { name := "Switch", constructors := [⟨[], 0⟩], indexers := [⟨[.int], .bool, 1⟩] }

/-- The indexer gives the number five. -/
def host : Host :=
  ⟨[fun _ args next => .ok (.object next "Switch" args, next + 1),
    fun _ _ next => .ok (.datum (.int 5), next)]⟩

def operand : Form :=
  .combo .paren [connectiveAtom "#", .combo .paren [connectiveAtom "new", connectiveAtom "Switch"]
    ⟨"chain", 1, 2⟩, connectiveAtom "0"] ⟨"chain", 1, 3⟩

end Misfit

/-- An operand of type `bool` can yield a number if code of the host does not keep to its
declaration. It is neither a failure nor the decisive boolean, but the connective refuses it. -/
theorem connective_refuses_misfit :
    ∃ first second expr report,
      BoolOperands { registry := Misfit.registry } {} 1 [Misfit.operand, connectiveAtom "true"] 1
        [first, second] 1 ∧
      elaborate { registry := Misfit.registry } {} (.combo .paren
        [connectiveAtom "&&", Misfit.operand, connectiveAtom "true"] ⟨"chain", 1, 1⟩) 1 =
          .ok (expr, 1) ∧
      let setting : Setting := ⟨Misfit.registry, Misfit.host⟩
      setting.evaluate (.empty 0) first 1 = .ok (.datum (.int 5), 2) ∧
        setting.evaluate (.empty 0) second 2 = .ok (.bool true, 2) ∧
        setting.evaluate (.empty 0) expr 1 = .error report ∧ report.code = .operatorNotDefined := by
  refine ⟨_, _, _, _, ⟨rfl, ?_⟩, rfl, rfl, rfl, rfl, rfl⟩
  exact List.forall_mem_cons.mpr ⟨rfl, List.forall_mem_cons.mpr ⟨rfl, List.forall_mem_nil _⟩⟩

end Elaborator

end ExprLang
