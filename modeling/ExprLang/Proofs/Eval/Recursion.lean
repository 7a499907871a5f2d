import ExprLang.Proofs.Eval.Soundness

/-!
# Recursion of evaluation

How deep evaluation recurses. The height of an expression counts the expressions on a longest path
through it, bodies of lambdas included. Evaluation with a bounded number of levels is the evaluator
with its recursion made explicit: a level evaluates one node and leaves the operands to the levels
below. As many levels as an expression is high are enough for it, whatever happens when the levels
run out (`Setting.evaluateWithin_eq`).
-/

namespace ExprLang

namespace Expr

/-- The expressions directly inside of an expression: its operands, or the body of a lambda. -/
def children : Expr → List Expr
  | .lambda _ _ _ body => [body]
  | expr => expr.operands

mutual

/-- The number of expressions on a longest path through an expression. -/
def height : Expr → Nat
  | .constant .. | .variable .. | .typeOf .. | .defaultOf .. => 1
  | .unary _ _ operand | .typeIs _ _ operand | .typeAs _ _ operand | .convert _ _ operand =>
    height operand + 1
  | .binary _ _ left right => max (height left) (height right) + 1
  | .conditional _ condition yes no =>
    max (height condition) (max (height yes) (height no)) + 1
  | .construct _ _ args => heightAll args + 1
  | .lambda _ _ _ body => height body + 1
  | .index _ _ target args => max (height target) (heightAll args) + 1
  | .list _ _ items => heightAll items + 1
  | .map _ _ _ entries => heightEntries entries + 1
termination_by structural expr => expr

def heightAll : List Expr → Nat
  | [] => 0
  | expr :: rest => max (height expr) (heightAll rest)
termination_by structural exprs => exprs

def heightEntries : List (Expr × Expr) → Nat
  | [] => 0
  | (key, value) :: rest => max (max (height key) (height value)) (heightEntries rest)
termination_by structural entries => entries

end

theorem heightAll_append (first second : List Expr) :
    heightAll (first ++ second) = max (heightAll first) (heightAll second) := by
  induction first with
  | nil => simp [heightAll]
  | cons expr rest ih => simp only [List.cons_append, heightAll, ih, Nat.max_assoc]

theorem heightEntries_eq (entries : List (Expr × Expr)) :
    heightEntries entries = heightAll (entries.map (·.1) ++ entries.map (·.2)) := by
  induction entries with
  | nil => simp [heightEntries, heightAll]
  | cons entry rest ih =>
    obtain ⟨key, value⟩ := entry
    simp only [heightEntries, ih, List.map_cons, List.cons_append, heightAll, heightAll_append]
    omega

/-- An expression is one higher than the highest expression directly inside of it. -/
theorem height_eq (expr : Expr) : expr.height = heightAll expr.children + 1 := by
  cases expr <;> simp [height, children, operands, heightAll, heightEntries_eq]

theorem height_le_heightAll {expr : Expr} {exprs : List Expr} (belongs : expr ∈ exprs) :
    expr.height ≤ heightAll exprs := by
  induction exprs with
  | nil => cases belongs
  | cons first rest ih =>
    rw [heightAll]
    rcases List.mem_cons.mp belongs with rfl | later
    · exact Nat.le_max_left _ _
    · exact Nat.le_trans (ih later) (Nat.le_max_right _ _)

theorem heightAll_le {exprs : List Expr} {bound : Nat}
    (bounded : ∀ expr ∈ exprs, expr.height ≤ bound) : heightAll exprs ≤ bound := by
  induction exprs with
  | nil => exact Nat.zero_le bound
  | cons first rest ih =>
    rw [List.forall_mem_cons] at bounded
    exact Nat.max_le.mpr ⟨bounded.1, ih bounded.2⟩

theorem exists_height_eq_heightAll {exprs : List Expr} (some : exprs ≠ []) :
    ∃ expr ∈ exprs, expr.height = heightAll exprs := by
  induction exprs with
  | nil => exact absurd rfl some
  | cons first rest ih =>
    by_cases higher : heightAll rest ≤ first.height
    · exact ⟨first, List.mem_cons_self, (Nat.max_eq_left higher).symm⟩
    · have more : rest ≠ [] := by
        rintro rfl
        exact higher (Nat.zero_le _)
      obtain ⟨expr, belongs, highest⟩ := ih more
      refine ⟨expr, List.mem_cons_of_mem _ belongs, ?_⟩
      rw [highest, heightAll, Nat.max_eq_right (Nat.le_of_not_le higher)]

theorem height_lt_of_mem_children {child expr : Expr} (belongs : child ∈ expr.children) :
    child.height < expr.height := by
  rw [height_eq expr]
  exact Nat.lt_succ_of_le (height_le_heightAll belongs)

theorem operands_subset_children (expr : Expr) : expr.operands ⊆ expr.children := by
  cases expr <;> simp [children, operands]

/-- An expression is at most as high as one that it is inside of. -/
theorem height_le_of_inside {part whole : Expr}
    (inside : Relation.ReflTransGen (fun whole part => part ∈ whole.children) whole part) :
    part.height ≤ whole.height := by
  induction inside with
  | refl => exact Nat.le_refl _
  | tail _ belongs ih => exact Nat.le_trans (Nat.le_of_lt (height_lt_of_mem_children belongs)) ih

/-- A path from an expression inwards. -/
def IsPath (path : List Expr) : Prop :=
  path.IsChain fun whole part => part ∈ whole.children

/-- No path through an expression is longer than the expression is high. -/
theorem length_le_height {expr : Expr} {rest : List Expr} (path : IsPath (expr :: rest)) :
    (expr :: rest).length ≤ expr.height := by
  induction rest generalizing expr with
  | nil =>
    rw [height_eq]
    exact Nat.succ_le_succ (Nat.zero_le _)
  | cons child rest ih =>
    obtain ⟨belongs, further⟩ := List.isChain_cons_cons.mp path
    have shorter := ih further
    have lower := height_lt_of_mem_children belongs
    simp only [List.length_cons] at shorter ⊢
    omega

/-- Some path through an expression is as long as the expression is high. -/
theorem exists_path_of_height (expr : Expr) :
    ∃ rest, IsPath (expr :: rest) ∧ (expr :: rest).length = expr.height := by
  generalize measured : expr.height = height
  induction height generalizing expr with
  | zero =>
    rw [height_eq] at measured
    cases measured
  | succ height ih =>
    rw [height_eq, Nat.succ_inj] at measured
    by_cases leaf : expr.children = []
    · rw [leaf] at measured
      exact ⟨[], .singleton _, by simp [← measured, heightAll]⟩
    · obtain ⟨child, belongs, highest⟩ := exists_height_eq_heightAll leaf
      obtain ⟨rest, path, length⟩ := ih child (highest.trans measured)
      exact ⟨child :: rest, List.isChain_cons_cons.mpr ⟨belongs, path⟩, by simp [← length]⟩

end Expr

namespace Setting

variable {setting : Setting} {frame : Frame Value}

/-! ## One level of evaluation -/

/-- The values of expressions in order, each evaluated as given. -/
def allWith (recurse : Expr → Run Value) : List Expr → Run (List Value)
  | [] => return []
  | expr :: rest => do
    let value ← recurse expr
    let values ← allWith recurse rest
    return value :: values

def entriesWith (recurse : Expr → Run Value) (before : List (Value × Value)) :
    List (Expr × Expr) → Run (List (Value × Value))
  | [] => return before
  | (keyExpr, valueExpr) :: rest => do
    let key ← recurse keyExpr
    let value ← recurse valueExpr
    if (Value.findEntry? key before).isSome then faultAt keyExpr.loc (.keyRepeated key.text)
    else entriesWith recurse (before ++ [(key, value)]) rest

/-- The value of an expression whose operands are evaluated as given. -/
def evaluateWith (setting : Setting) (frame : Frame Value) (recurse : Expr → Run Value) :
    Expr → Run Value
  | .constant _ datum => return .datum datum
  | .variable node binding =>
    match frame.lookup binding.id with
    | some value => return value
    | none => faultAt node.loc (.valueless binding.name)
  | .unary node op operand => do
    let value ← recurse operand
    locate node.loc (op.apply value)
  | .binary node op left right => do
    let leftValue ← recurse left
    if op.isDecided leftValue then return leftValue
    else do
      let rightValue ← recurse right
      locate node.loc (op.apply leftValue rightValue)
  | .conditional _ condition yes no => do
    let value ← recurse condition
    match value with
    | .bool true => recurse yes
    | .bool false => recurse no
    | other => faultAt condition.loc (.conditionValue other.typeName)
  | .construct node constructor args => do
    let values ← allWith recurse args
    setting.callHost node.loc constructor.callback .null values
  | .lambda node id params body =>
    return .function ⟨id, params, body, node.ty, frame, setting.registry⟩
  | .index node indexer target args => do
    let targetValue ← recurse target
    let values ← allWith recurse args
    setting.index node.loc indexer targetValue values
  | .typeIs _ target operand => do
    let value ← recurse operand
    return .bool (setting.isInstance value target)
  | .typeAs _ target operand => do
    let value ← recurse operand
    return if setting.isInstance value target then value else .null
  | .convert node target operand => do
    let value ← recurse operand
    locate node.loc (setting.convert value operand.ty target)
  | .typeOf _ target => return .datum (.type target)
  | .defaultOf _ target => return .datum (Datum.defaultOf target)
  | .list _ element items => do
    let values ← allWith recurse items
    let id ← freshId
    return .list id element values
  | .map _ key value entries => do
    let values ← entriesWith recurse [] entries
    let id ← freshId
    return .map id key value values

theorem evaluateAll_eq (exprs : List Expr) :
    setting.evaluateAll frame exprs = allWith (setting.evaluate frame) exprs := by
  induction exprs with
  | nil => rfl
  | cons expr rest ih => simp only [evaluateAll, allWith, ih]

theorem evaluateEntries_eq (entries : List (Expr × Expr)) (before : List (Value × Value)) :
    setting.evaluateEntries frame before entries =
      entriesWith (setting.evaluate frame) before entries := by
  induction entries generalizing before with
  | nil => rfl
  | cons entry rest ih => simp only [evaluateEntries, entriesWith, ih]

/-- The evaluator evaluates operands with itself. -/
theorem evaluate_eq (expr : Expr) :
    setting.evaluate frame expr = setting.evaluateWith frame (setting.evaluate frame) expr := by
  cases expr with
  | index | construct | list => simp only [evaluate, evaluateWith, evaluateAll_eq]
  | map => simp only [evaluate, evaluateWith, evaluateEntries_eq]
  | _ => rfl

variable {first second : Expr → Run Value}

theorem allWith_congr {exprs : List Expr} (same : ∀ expr ∈ exprs, first expr = second expr) :
    allWith first exprs = allWith second exprs := by
  induction exprs with
  | nil => rfl
  | cons expr rest ih =>
    rw [List.forall_mem_cons] at same
    simp only [allWith, same.1, ih same.2]

theorem entriesWith_congr {entries : List (Expr × Expr)} {before : List (Value × Value)}
    (same : ∀ expr ∈ entries.map (·.1) ++ entries.map (·.2), first expr = second expr) :
    entriesWith first before entries = entriesWith second before entries := by
  induction entries generalizing before with
  | nil => rfl
  | cons entry rest ih =>
    obtain ⟨key, value⟩ := entry
    simp only [List.map_cons, List.cons_append, List.mem_cons, List.mem_append] at same
    have sameRest (expr : Expr) (belongs : expr ∈ rest.map (·.1) ++ rest.map (·.2)) :
        first expr = second expr := by
      rcases List.mem_append.mp belongs with inKeys | inValues
      · exact same expr (.inr (.inl inKeys))
      · exact same expr (.inr (.inr (.inr inValues)))
    have sameKey : first key = second key := same key (.inl rfl)
    have sameValue : first value = second value := same value (.inr (.inr (.inl rfl)))
    simp only [entriesWith, sameKey, sameValue, ih sameRest]

/-- A level of evaluation evaluates nothing but operands. -/
theorem evaluateWith_congr {expr : Expr}
    (same : ∀ operand ∈ expr.operands, first operand = second operand) :
    setting.evaluateWith frame first expr = setting.evaluateWith frame second expr := by
  cases expr with
  | unary | typeIs | typeAs | convert | binary | conditional =>
    simp only [Expr.operands, List.forall_mem_cons] at same
    simp only [evaluateWith, same]
  | construct | list =>
    simp only [Expr.operands] at same
    simp only [evaluateWith, allWith_congr same]
  | index node indexer target args =>
    simp only [Expr.operands, List.forall_mem_cons] at same
    simp only [evaluateWith, same.1, allWith_congr same.2]
  | map =>
    simp only [Expr.operands] at same
    simp only [evaluateWith, entriesWith_congr same]
  | _ => rfl

/-! ## Bounded recursion -/

/-- Evaluation with a number of levels of recursion. Where an evaluation would need one more, it
ends as given. -/
def evaluateWithin (setting : Setting) (frame : Frame Value) (exhausted : Run Value) :
    Nat → Expr → Run Value
  | 0, _ => exhausted
  | levels + 1, expr =>
    setting.evaluateWith frame (setting.evaluateWithin frame exhausted levels) expr

/-- Evaluation recurses no deeper than the expression is high. -/
theorem evaluateWithin_eq {exhausted : Run Value} {levels : Nat} {expr : Expr}
    (enough : expr.height ≤ levels) :
    setting.evaluateWithin frame exhausted levels expr = setting.evaluate frame expr := by
  induction levels generalizing expr with
  | zero =>
    rw [Expr.height_eq] at enough
    cases enough
  | succ levels ih =>
    rw [evaluateWithin, evaluate_eq]
    refine evaluateWith_congr fun operand belongs => ih ?_
    have lower := Expr.height_lt_of_mem_children (expr.operands_subset_children belongs)
    exact Nat.le_of_lt_succ (Nat.lt_of_lt_of_le lower enough)

end Setting

end ExprLang
