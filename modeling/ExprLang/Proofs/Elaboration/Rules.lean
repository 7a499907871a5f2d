import ExprLang.Expr.Typing

/-!
# What the typing rules make

Each typing rule that applies makes one node at the place it is given, with the parts it is given;
only the type of the node, and the member or the common type that it picks, depend on the rule. The
rule for many operands makes a chain of binary nodes, which `Folded` describes.
-/

namespace ExprLang.Typing

variable {registry : Registry} {loc : Location} {expr : Expr}

theorem eq_of_unary {op : UnaryOp} {operand : Expr} (rule : unary loc op operand = .ok expr) :
    ∃ ty, expr = .unary ⟨ty, loc⟩ op operand := by
  unfold unary at rule
  split at rule
  · cases rule
    exact ⟨_, rfl⟩
  · cases rule

theorem eq_of_binary {op : BinaryOp} {left right : Expr}
    (rule : binary registry loc op left right = .ok expr) :
    ∃ ty, expr = .binary ⟨ty, loc⟩ op left right := by
  unfold binary at rule
  split at rule
  · cases rule
    exact ⟨_, rfl⟩
  · cases rule

/-- An operator over many operands is a chain of binary nodes at one place, each over the one before
and the next operand. -/
inductive Folded (loc : Location) (op : BinaryOp) : Expr → List Expr → Expr → Prop where
  | done {expr : Expr} : Folded loc op expr [] expr
  | step {ty : Ty} {first second expr : Expr} {rest : List Expr}
      (further : Folded loc op (.binary ⟨ty, loc⟩ op first second) rest expr) :
      Folded loc op first (second :: rest) expr

theorem folded_of_nary {op : BinaryOp} {first : Expr} {rest : List Expr}
    (rule : nary registry loc op first rest = .ok expr) : Folded loc op first rest expr := by
  induction rest generalizing first with
  | nil =>
    cases rule
    exact .done
  | cons second rest ih =>
    simp only [nary, List.foldlM_cons, bind, Except.bind] at rule
    split at rule
    · cases rule
    next node made =>
      obtain ⟨ty, rfl⟩ := eq_of_binary made
      exact .step (ih rule)

theorem eq_of_conditional {condition yes no : Expr}
    (rule : conditional loc condition yes no = .ok expr) :
    expr = .conditional ⟨yes.ty, loc⟩ condition yes no := by
  unfold conditional at rule
  split at rule
  · cases rule
  · split at rule
    · cases rule
    · cases rule
      rfl

theorem eq_of_index {target : Expr} {args : List Expr}
    (rule : index registry loc target args = .ok expr) :
    ∃ indexer, (registry.indexers target.ty).find? (fun indexer =>
        registry.areAssignable (args.map (·.ty)) indexer.params) = some indexer ∧
      expr = .index ⟨indexer.result, loc⟩ indexer target args := by
  unfold index at rule
  dsimp only at rule
  split at rule
  next indexer chosen =>
    cases rule
    exact ⟨indexer, chosen, rfl⟩
  · cases rule

theorem eq_of_construct {ty : Ty} {args : List Expr}
    (rule : construct registry loc ty args = .ok expr) :
    ∃ constructor, (registry.constructors ty).find? (fun constructor =>
        constructor.params == args.map (·.ty)) = some constructor ∧
      expr = .construct ⟨ty, loc⟩ constructor args := by
  unfold construct at rule
  dsimp only at rule
  split at rule
  next constructor chosen =>
    cases rule
    exact ⟨constructor, chosen, rfl⟩
  · cases rule

theorem eq_of_typeAs {target : Ty} {operand : Expr} (rule : typeAs loc target operand = .ok expr) :
    expr = .typeAs ⟨target, loc⟩ target operand := by
  unfold typeAs at rule
  split at rule
  · cases rule
  · cases rule
    rfl

theorem eq_of_convert {target : Ty} {operand : Expr}
    (rule : convert registry loc target operand = .ok expr) :
    expr = .convert ⟨target, loc⟩ target operand := by
  unfold convert at rule
  split at rule
  · cases rule
    rfl
  · cases rule

theorem eq_of_list {items : List Expr} (rule : list registry loc items = .ok expr) :
    ∃ element, elementTy registry loc (items.map (·.ty)) = .ok element ∧
      expr = .list ⟨.list element, loc⟩ element items := by
  simp only [list, bind, Except.bind] at rule
  split at rule
  · cases rule
  next element common =>
    cases rule
    exact ⟨element, common, rfl⟩

theorem eq_of_map {entries : List (Expr × Expr)} (rule : map registry loc entries = .ok expr) :
    ∃ key value, elementTy registry loc (entries.map (·.1.ty)) = .ok key ∧
      elementTy registry loc (entries.map (·.2.ty)) = .ok value ∧
      expr = .map ⟨.map key value, loc⟩ key value entries := by
  simp only [map, bind, Except.bind] at rule
  split at rule
  · cases rule
  next key commonKey =>
    split at rule
    · cases rule
    next value commonValue =>
      cases rule
      exact ⟨key, value, commonKey, commonValue, rfl⟩

end ExprLang.Typing
