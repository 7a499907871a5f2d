import Mathlib.Data.List.Permutation
import ExprLang.Proofs.Elaboration.Rules
import ExprLang.Proofs.Engine.Session
import ExprLang.Proofs.Eval.Recursion

/-!
# The height of compiled expressions

The limit on nesting is about forms, while evaluation recurses on expressions. The two differ where
an operator takes many operands: the fold over them makes a chain of nodes as long as there are
operands, however shallow the form is (`Elaborates.length_le_height`). Apart from that the limit on
forms is a limit on recursion. The height of a compiled expression exceeds the limit by no more than
one and the operands beyond the second on a path through the form (`Engine.bounded_recursion`).
-/

namespace ExprLang

namespace Form

variable (heads : HeadTable)

/-- The number of operands beyond the second of an operator over many operands. -/
def extraOperands : Form → Nat
  | .combo .paren (.atom name _ :: operands) _ =>
    match heads.get? name with
    | some (.nary _) => operands.length - 2
    | _ => 0
  | _ => 0

mutual

/-- The most extra operands that the forms on a path through a form have together. -/
def surplus : Form → Nat
  | .atom .. => 0
  | .combo bracket children loc =>
    extraOperands heads (.combo bracket children loc) + surplusAll children
termination_by structural form => form

def surplusAll : List Form → Nat
  | [] => 0
  | form :: rest => max (surplus form) (surplusAll rest)
termination_by structural forms => forms

end

mutual

/-- A form and all forms inside of it. -/
def subforms : Form → List Form
  | .atom text loc => [.atom text loc]
  | .combo bracket children loc => .combo bracket children loc :: subformsAll children
termination_by structural form => form

def subformsAll : List Form → List Form
  | [] => []
  | form :: rest => subforms form ++ subformsAll rest
termination_by structural forms => forms

end

variable {heads}

mutual

/-- A form without extra operands has no surplus. -/
theorem surplus_eq_zero (form : Form)
    (narrow : ∀ part ∈ form.subforms, part.extraOperands heads = 0) : form.surplus heads = 0 := by
  match form with
  | .atom text loc => rfl
  | .combo bracket children loc =>
    rw [subforms, List.forall_mem_cons] at narrow
    rw [surplus, narrow.1, surplusAll_eq_zero children narrow.2]
termination_by structural form

theorem surplusAll_eq_zero (forms : List Form)
    (narrow : ∀ part ∈ subformsAll forms, part.extraOperands heads = 0) :
    surplusAll heads forms = 0 := by
  match forms with
  | [] => rfl
  | form :: rest =>
    rw [subformsAll, List.forall_mem_append] at narrow
    rw [surplusAll, surplus_eq_zero form narrow.1, surplusAll_eq_zero rest narrow.2]
    rfl
termination_by structural forms

end

/-- A form whose head is known has the extra operands of that head. -/
theorem extraOperands_of_nary {name : String} {headLoc loc : Location} {operands : List Form}
    {op : BinaryOp} (head : heads.get? name = some (.nary op)) :
    extraOperands heads (.combo .paren (.atom name headLoc :: operands) loc) =
      operands.length - 2 := by
  simp only [extraOperands, head]

end Form

/-! ## The fold over many operands -/

namespace Typing

variable {loc : Location} {op : BinaryOp} {first expr : Expr} {rest : List Expr}

/-- A fold puts as many nodes above its first operand as there are further ones. -/
theorem Folded.le_height (folded : Folded loc op first rest expr) :
    first.height + rest.length ≤ expr.height := by
  induction folded with
  | done => exact Nat.le_refl _
  | step further ih =>
    rw [Expr.height] at ih
    simp only [List.length_cons]
    omega

/-- A fold is no higher than its highest operand by more than the number of further ones. -/
theorem Folded.height_le {bound : Nat} (folded : Folded loc op first rest expr)
    (firstBelow : first.height ≤ bound) (restBelow : Expr.heightAll rest ≤ bound) :
    expr.height ≤ bound + rest.length := by
  induction folded generalizing bound with
  | done => exact firstBelow
  | step further ih =>
    rw [Expr.heightAll] at restBelow
    have node := @ih (bound + 1) (by rw [Expr.height]; omega) (by omega)
    simp only [List.length_cons]
    omega

end Typing

namespace Elaborator

variable {elaborator : Elaborator} {scope : Scope} {depth next later : Nat} {expr : Expr}

/-- An operator over many operands is at least as high as it has operands. -/
theorem Elaborates.length_le_height {name : String} {op : BinaryOp} {headLoc loc : Location}
    {operands : List Form} (head : elaborator.heads.get? name = some (.nary op))
    (made : Elaborates elaborator scope depth (.combo .paren (.atom name headLoc :: operands) loc)
      next expr later) : operands.length ≤ expr.height := by
  obtain ⟨form, forms, first, rest, middle, rfl, -, restParts, rule⟩ := made.nary_inv head
  have chain := (Typing.folded_of_nary rule).le_height
  rw [restParts.length_eq, Expr.height_eq] at chain
  rw [List.length_cons]
  omega

theorem heightEntries_pairs_le (exprs : List Expr) :
    Expr.heightEntries (pairs exprs) ≤ Expr.heightAll exprs := by
  rw [Expr.heightEntries_eq]
  refine Expr.heightAll_le fun expr belongs => ?_
  rcases List.mem_append.mp belongs with inKeys | inValues
  · obtain ⟨pair, paired, rfl⟩ := List.mem_map.mp inKeys
    exact Expr.height_le_heightAll (mem_of_mem_pairs paired).1
  · obtain ⟨pair, paired, rfl⟩ := List.mem_map.mp inValues
    exact Expr.height_le_heightAll (mem_of_mem_pairs paired).2

/-- A map literal is no more than one higher than its highest key or value. -/
theorem height_le_of_map {registry : Registry} {loc : Location} {exprs : List Expr}
    (rule : Typing.map registry loc (pairs exprs) = .ok expr) :
    expr.height ≤ Expr.heightAll exprs + 1 := by
  have paired := heightEntries_pairs_le exprs
  obtain ⟨key, value, -, -, rfl⟩ := Typing.eq_of_map rule
  rw [Expr.height]
  omega

/-- Where operands leave room for their node, they leave room for a fold, its extra operands aside.
-/
theorem height_le_of_folded {heads : HeadTable} {name : String} {op : BinaryOp}
    {headLoc loc : Location} {form : Form} {forms : List Form} {first : Expr} {rest : List Expr}
    {limit : Nat} (shallow : depth ≤ limit) (head : heads.get? name = some (.nary op))
    (length : rest.length = forms.length)
    (firstBelow : first.height + (depth + 1) ≤ limit + 1 + form.surplus heads)
    (restBelow : Expr.heightAll rest ≤ limit + 1 + Form.surplusAll heads forms - (depth + 1))
    (folded : Typing.Folded loc op first rest expr) :
    expr.height + depth ≤
      limit + 1 + Form.surplus heads (.combo .paren (.atom name headLoc :: form :: forms) loc) := by
  have below : expr.height ≤
      limit - depth + max (form.surplus heads) (Form.surplusAll heads forms) + rest.length :=
    folded.height_le (by omega) (by omega)
  rw [Form.surplus, Form.extraOperands_of_nary head]
  simp only [Form.surplus, Form.surplusAll, List.length_cons]
  -- One operand alone makes no node, and two make one node and have no extra operand.
  cases rest with
  | nil =>
    cases folded
    omega
  | cons second rest =>
    simp only [List.length_cons] at below length
    omega

mutual

/-- What a form at a depth elaborates to is no higher than the limit leaves room for, its surplus
aside. -/
theorem Elaborates.height_le {form : Form} {scope : Scope} {depth next later : Nat} {expr : Expr} :
    Elaborates elaborator scope depth form next expr later →
      expr.height + depth ≤ elaborator.maxDepth + 1 + form.surplus elaborator.heads
  | .constant shallow _ | .variable shallow _ _ | .typeOf shallow _ _ | .defaultOf shallow _ _ => by
    rw [Expr.height]
    omega
  | .list _ parts rule => by
    have below := parts.height_le
    obtain ⟨element, -, rfl⟩ := Typing.eq_of_list rule
    rw [Expr.height, Form.surplus]
    omega
  | .map _ _ parts rule => by
    have below := parts.height_le
    have node := height_le_of_map rule
    rw [Form.surplus]
    omega
  | .unary _ _ part rule => by
    have below := part.height_le
    obtain ⟨ty, rfl⟩ := Typing.eq_of_unary rule
    simp only [Expr.height, Form.surplus, Form.surplusAll]
    omega
  | .binary _ _ left right rule => by
    have leftBelow := left.height_le
    have rightBelow := right.height_le
    obtain ⟨ty, rfl⟩ := Typing.eq_of_binary rule
    simp only [Expr.height, Form.surplus, Form.surplusAll]
    omega
  | .nary shallow head first rest rule =>
    height_le_of_folded shallow head rest.length_eq first.height_le rest.height_le
      (Typing.folded_of_nary rule)
  | .conditional _ _ condition yes no rule => by
    have conditionBelow := condition.height_le
    have yesBelow := yes.height_le
    have noBelow := no.height_le
    obtain rfl := Typing.eq_of_conditional rule
    simp only [Expr.height, Form.surplus, Form.surplusAll]
    omega
  | .index _ _ target args rule => by
    have targetBelow := target.height_le
    have argsBelow := args.height_le
    obtain ⟨indexer, -, rfl⟩ := Typing.eq_of_index rule
    simp only [Expr.height, Form.surplus, Form.surplusAll]
    omega
  | .typeIs _ _ _ part rule => by
    have below := part.height_le
    cases rule
    simp only [Expr.height, Form.surplus, Form.surplusAll]
    omega
  | .typeAs _ _ _ part rule => by
    have below := part.height_le
    obtain rfl := Typing.eq_of_typeAs rule
    simp only [Expr.height, Form.surplus, Form.surplusAll]
    omega
  | .convert _ _ _ part rule => by
    have below := part.height_le
    obtain rfl := Typing.eq_of_convert rule
    simp only [Expr.height, Form.surplus, Form.surplusAll]
    omega
  | .construct _ _ _ args rule => by
    have below := args.height_le
    obtain ⟨constructor, -, rfl⟩ := Typing.eq_of_construct rule
    simp only [Expr.height, Form.surplus, Form.surplusAll]
    omega
  | .lambda _ _ _ body => by
    have below := body.height_le
    simp only [Typing.lambda, Expr.height, Form.surplus, Form.surplusAll]
    omega

theorem ElaboratesAll.height_le {forms : List Form} {scope : Scope} {depth next later : Nat}
    {exprs : List Expr} :
    ElaboratesAll elaborator scope depth forms next exprs later →
      Expr.heightAll exprs ≤ elaborator.maxDepth + 1 + Form.surplusAll elaborator.heads forms - depth
  | .nil => Nat.zero_le _
  | .cons first rest => by
    have below := first.height_le
    have restBelow := rest.height_le
    rw [Expr.heightAll, Form.surplusAll]
    omega

end

end Elaborator

namespace Engine

variable {engine later : Engine} {source : String} {unit : CompiledUnit}

/-- **Bounded recursion.** The height of what an engine compiles exceeds the limit on nesting by no
more than one and the surplus of the form, and by no more than one where no operator over many
operands has more than two. As many levels of recursion are enough to evaluate the unit, and the
bodies of the lambdas in it. -/
theorem bounded_recursion (compiled : engine.compile source = .ok (unit, later)) :
    ∃ form, engine.read source = .ok form ∧
      unit.root.height ≤ engine.options.maxDepth + 1 + form.surplus engine.heads ∧
      ((∀ part ∈ form.subforms, part.extraOperands engine.heads = 0) →
        unit.root.height ≤ engine.options.maxDepth + 1) ∧
      ∀ part, Relation.ReflTransGen (fun whole part => part ∈ whole.children) unit.root part →
        ∀ (setting : Setting) (frame : Frame Value) (exhausted : Run Value),
          setting.evaluateWithin frame exhausted
            (engine.options.maxDepth + 1 + form.surplus engine.heads) part =
          setting.evaluate frame part := by
  obtain ⟨form, read, made⟩ := compile_ok compiled
  obtain ⟨-, -, supply, elaborated, -⟩ := compileForm_ok made
  have bounded : unit.root.height ≤ engine.options.maxDepth + 1 + form.surplus engine.heads :=
    (Elaborator.elaborates_of_ok elaborated).height_le
  refine ⟨form, read, bounded, fun narrow => ?_, fun part inside setting frame exhausted => ?_⟩
  · rwa [form.surplus_eq_zero narrow] at bounded
  · exact Setting.evaluateWithin_eq (Nat.le_trans (Expr.height_le_of_inside inside) bounded)

end Engine

/-! ## Sums and products -/

namespace Sums

def atom (column : Nat) (text : String) : Form :=
  .atom text ⟨"<input>", 1, column⟩

def combo (column : Nat) (children : List Form) : Form :=
  .combo .paren children ⟨"<input>", 1, column⟩

def flat : Form :=
  combo 1 [atom 2 "+", atom 4 "1", atom 6 "2", atom 8 "3"]

def nested : Form :=
  combo 1 [atom 2 "+", combo 4 [atom 5 "*", atom 7 "1", atom 9 "2", atom 11 "3"], atom 14 "4",
    atom 16 "5"]

theorem read_flat : (Engine.withOptions { maxDepth := 1 }).read "(+ 1 2 3)" = .ok flat := by
  cbv

theorem read_nested :
    (Engine.withOptions { maxDepth := 2 }).read "(+ (* 1 2 3) 4 5)" = .ok nested := by
  cbv

end Sums

namespace Engine

/-- The bound is reached by sums and products of three operands: two levels of brackets, a surplus
of two and a height of five. -/
theorem bounded_recursion_nested :
    ∃ unit later,
      (withOptions { maxDepth := 2 }).compile "(+ (* 1 2 3) 4 5)" = .ok (unit, later) ∧
      Sums.nested.surplus .standard = 2 ∧ unit.root.height = 5 ∧ unit.root.height ≤ 2 + 1 + 2 := by
  have compiled : ∃ unit later, (withOptions { maxDepth := 2 }).compileForm Sums.nested =
      .ok (unit, later) ∧ unit.root.height = 5 := ⟨_, _, rfl, rfl⟩
  obtain ⟨unit, later, compiled, high⟩ := compiled
  have fromText :
      (withOptions { maxDepth := 2 }).compile "(+ (* 1 2 3) 4 5)" = .ok (unit, later) := by
    rw [compile_eq, Sums.read_nested]
    exact compiled
  obtain ⟨form, read, bounded, -⟩ := bounded_recursion fromText
  obtain rfl : Sums.nested = form := by simpa [Sums.read_nested] using read
  exact ⟨unit, later, fromText, by decide, high, bounded⟩

/-- The limit on nesting alone is no limit on the height: a sum of three operands nests one level
deep and has height three. -/
theorem height_exceeds_limit :
    ¬ ∀ (engine later : Engine) (source : String) (unit : CompiledUnit),
      engine.compile source = .ok (unit, later) →
        unit.root.height ≤ engine.options.maxDepth + 1 := by
  intro limited
  have compiled : ∃ unit later, (withOptions { maxDepth := 1 }).compileForm Sums.flat =
      .ok (unit, later) ∧ unit.root.height = 3 := ⟨_, _, rfl, rfl⟩
  obtain ⟨unit, later, compiled, high⟩ := compiled
  have low := limited (withOptions { maxDepth := 1 }) later "(+ 1 2 3)" unit (by
    rw [compile_eq, Sums.read_flat]
    exact compiled)
  rw [high] at low
  exact absurd low (by decide)

end Engine

end ExprLang
