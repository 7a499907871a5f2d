import ExprLang.Proofs.Elaboration.Typed

/-!
# Renaming identities

Bindings and lambdas are told apart by identities, and nothing else of an expression depends on
them: the typing rules make of renamed parts the renamed node, and report the same otherwise. Two
elaborations that draw from different supplies therefore agree up to a renaming.
-/

namespace ExprLang

variable {f : Nat → Nat}

def Binding.rename (f : Nat → Nat) (binding : Binding) : Binding :=
  { binding with id := f binding.id }

namespace Expr

mutual

def rename (f : Nat → Nat) : Expr → Expr
  | .constant node datum => .constant node datum
  | .variable node binding => .variable node (binding.rename f)
  | .unary node op operand => .unary node op (rename f operand)
  | .binary node op left right => .binary node op (rename f left) (rename f right)
  | .conditional node condition yes no =>
    .conditional node (rename f condition) (rename f yes) (rename f no)
  | .construct node constructor args => .construct node constructor (renameAll f args)
  | .lambda node id params body =>
    .lambda node (f id) (params.map (·.rename f)) (rename f body)
  | .index node indexer target args => .index node indexer (rename f target) (renameAll f args)
  | .typeIs node target operand => .typeIs node target (rename f operand)
  | .typeAs node target operand => .typeAs node target (rename f operand)
  | .convert node target operand => .convert node target (rename f operand)
  | .typeOf node target => .typeOf node target
  | .defaultOf node target => .defaultOf node target
  | .list node element items => .list node element (renameAll f items)
  | .map node key value entries => .map node key value (renameEntries f entries)
termination_by structural expr => expr

def renameAll (f : Nat → Nat) : List Expr → List Expr
  | [] => []
  | expr :: rest => rename f expr :: renameAll f rest
termination_by structural exprs => exprs

def renameEntries (f : Nat → Nat) : List (Expr × Expr) → List (Expr × Expr)
  | [] => []
  | (key, value) :: rest => (rename f key, rename f value) :: renameEntries f rest
termination_by structural entries => entries

end

theorem renameAll_eq (f : Nat → Nat) (exprs : List Expr) :
    renameAll f exprs = exprs.map (rename f) := by
  induction exprs with
  | nil => rfl
  | cons expr rest ih => rw [renameAll, ih, List.map_cons]

theorem renameEntries_eq (f : Nat → Nat) (entries : List (Expr × Expr)) :
    renameEntries f entries = entries.map (Prod.map (rename f) (rename f)) := by
  induction entries with
  | nil => rfl
  | cons entry rest ih => rw [renameEntries, ih, List.map_cons, Prod.map]

@[simp] theorem node_rename (f : Nat → Nat) (expr : Expr) : (expr.rename f).node = expr.node := by
  cases expr <;> rfl

@[simp] theorem ty_rename (f : Nat → Nat) (expr : Expr) : (expr.rename f).ty = expr.ty := by
  rw [ty, node_rename, ty]

@[simp] theorem loc_rename (f : Nat → Nat) (expr : Expr) : (expr.rename f).loc = expr.loc := by
  rw [loc, node_rename, loc]

mutual

@[simp] theorem rename_id (expr : Expr) : expr.rename id = expr := by
  match expr with
  | .constant .. | .variable .. | .typeOf .. | .defaultOf .. => rfl
  | .unary _ _ operand | .typeIs _ _ operand | .typeAs _ _ operand | .convert _ _ operand =>
    rw [rename, rename_id operand]
  | .binary _ _ left right => rw [rename, rename_id left, rename_id right]
  | .conditional _ condition yes no =>
    rw [rename, rename_id condition, rename_id yes, rename_id no]
  | .construct _ _ args => rw [rename, renameAll_id args]
  | .lambda _ _ params body =>
    have same : params.map (·.rename id) = params := List.map_id params
    rw [rename, rename_id body, same]
    rfl
  | .index _ _ target args => rw [rename, rename_id target, renameAll_id args]
  | .list _ _ items => rw [rename, renameAll_id items]
  | .map _ _ _ entries => rw [rename, renameEntries_id entries]
termination_by structural expr

theorem renameAll_id (exprs : List Expr) : renameAll id exprs = exprs := by
  match exprs with
  | [] => rfl
  | expr :: rest => rw [renameAll, rename_id expr, renameAll_id rest]
termination_by structural exprs

theorem renameEntries_id (entries : List (Expr × Expr)) : renameEntries id entries = entries := by
  match entries with
  | [] => rfl
  | (key, value) :: rest =>
    rw [renameEntries, rename_id key, rename_id value, renameEntries_id rest]
termination_by structural entries

end

end Expr

theorem pairs_map {α β : Type} (g : α → β) (members : List α) :
    pairs (members.map g) = (pairs members).map (Prod.map g g) := by
  fun_induction pairs members with
  | case1 first second rest ih => simp [pairs, ih]
  | case2 members short =>
    rcases members with _ | ⟨first, _ | ⟨second, rest⟩⟩
    · rfl
    · rfl
    · exact absurd rfl (short first second rest)

/-! ## Scopes -/

namespace Scope

def rename (f : Nat → Nat) (scope : Scope) : Scope :=
  ⟨scope.innermost.map (·.rename f), scope.enclosing.map (List.map (·.rename f))⟩

theorem find?_rename (f : Nat → Nat) (bindings : List Binding) (name : String) :
    find? (bindings.map (·.rename f)) name = (find? bindings name).map (·.rename f) := by
  simp only [find?, List.find?_map]
  rfl

theorem local?_rename (f : Nat → Nat) (scope : Scope) (name : String) :
    (scope.rename f).local? name = (scope.local? name).map (·.rename f) :=
  find?_rename f scope.innermost name

theorem lookup_rename (f : Nat → Nat) (scope : Scope) (name : String) :
    (scope.rename f).lookup name = (scope.lookup name).map (·.rename f) := by
  have levels (bindings : List (List Binding)) :
      (bindings.map (List.map (·.rename f))).findSome? (find? · name) =
        (bindings.findSome? (find? · name)).map (·.rename f) := by
    induction bindings with
    | nil => rfl
    | cons level rest ih =>
      rw [List.map_cons, List.findSome?_cons, List.findSome?_cons, find?_rename, ih]
      cases find? level name <;> rfl
  exact levels (scope.innermost :: scope.enclosing)

theorem define_rename (f : Nat → Nat) (scope : Scope) (id : Nat) (name : String) (ty : Ty) :
    (scope.rename f).define (f id) name ty =
      ((scope.define id name ty).1.rename f, (scope.define id name ty).2.rename f) := by
  unfold define
  rw [local?_rename]
  cases scope.local? name with
  | some binding => rfl
  | none => simp [rename, Binding.rename]

@[simp] theorem rename_id (scope : Scope) : scope.rename id = scope := by
  have same : (Binding.rename id) = id := rfl
  simp [rename, same]

end Scope

/-! ## The typing rules -/

namespace Typing

variable (f : Nat → Nat) (registry : Registry) (loc : Location)

theorem unary_rename (op : UnaryOp) (operand : Expr) :
    unary loc op (operand.rename f) = (unary loc op operand).map (Expr.rename f) := by
  unfold unary
  rw [Expr.ty_rename]
  cases unaryTy? op operand.ty <;> rfl

theorem binary_rename (op : BinaryOp) (left right : Expr) :
    binary registry loc op (left.rename f) (right.rename f) =
      (binary registry loc op left right).map (Expr.rename f) := by
  unfold binary
  rw [Expr.ty_rename, Expr.ty_rename]
  cases binaryTy? registry op left.ty right.ty <;> rfl

theorem nary_rename (op : BinaryOp) (first : Expr) (rest : List Expr) :
    nary registry loc op (first.rename f) (rest.map (Expr.rename f)) =
      (nary registry loc op first rest).map (Expr.rename f) := by
  unfold nary
  induction rest generalizing first with
  | nil => rfl
  | cons second rest ih =>
    rw [List.map_cons, List.foldlM_cons, List.foldlM_cons, binary_rename]
    cases binary registry loc op first second with
    | error report => rfl
    | ok node => exact ih node

theorem conditional_rename (condition yes no : Expr) :
    conditional loc (condition.rename f) (yes.rename f) (no.rename f) =
      (conditional loc condition yes no).map (Expr.rename f) := by
  unfold conditional
  simp only [Expr.ty_rename, Expr.loc_rename]
  split
  · rfl
  · split <;> rfl

theorem map_ty_rename (exprs : List Expr) :
    (exprs.map (Expr.rename f)).map (·.ty) = exprs.map (·.ty) := by
  simp

theorem index_rename (target : Expr) (args : List Expr) :
    index registry loc (target.rename f) (args.map (Expr.rename f)) =
      (index registry loc target args).map (Expr.rename f) := by
  unfold index
  simp only [Expr.ty_rename, map_ty_rename]
  split
  · rw [← Expr.renameAll_eq]
    rfl
  · rfl

theorem construct_rename (ty : Ty) (args : List Expr) :
    construct registry loc ty (args.map (Expr.rename f)) =
      (construct registry loc ty args).map (Expr.rename f) := by
  unfold construct
  simp only [map_ty_rename]
  split
  · rw [← Expr.renameAll_eq]
    rfl
  · rfl

theorem typeAs_rename (target : Ty) (operand : Expr) :
    typeAs loc target (operand.rename f) = (typeAs loc target operand).map (Expr.rename f) := by
  unfold typeAs
  split <;> rfl

theorem convert_rename (target : Ty) (operand : Expr) :
    convert registry loc target (operand.rename f) =
      (convert registry loc target operand).map (Expr.rename f) := by
  unfold convert
  rw [Expr.ty_rename]
  split <;> rfl

theorem list_rename (items : List Expr) :
    list registry loc (items.map (Expr.rename f)) =
      (list registry loc items).map (Expr.rename f) := by
  unfold list
  rw [map_ty_rename]
  cases elementTy registry loc (items.map (·.ty)) with
  | error report => rfl
  | ok element =>
    rw [← Expr.renameAll_eq]
    rfl

theorem map_rename (entries : List (Expr × Expr)) :
    map registry loc (entries.map (Prod.map (Expr.rename f) (Expr.rename f))) =
      (map registry loc entries).map (Expr.rename f) := by
  have keys : (entries.map (Prod.map (Expr.rename f) (Expr.rename f))).map (·.1.ty) =
      entries.map (·.1.ty) := by simp
  have values : (entries.map (Prod.map (Expr.rename f) (Expr.rename f))).map (·.2.ty) =
      entries.map (·.2.ty) := by simp
  unfold map
  rw [keys, values]
  cases elementTy registry loc (entries.map (·.1.ty)) with
  | error report => rfl
  | ok key =>
    cases elementTy registry loc (entries.map (·.2.ty)) with
    | error report => rfl
    | ok value =>
      rw [← Expr.renameEntries_eq]
      rfl

theorem lambda_rename (id : Nat) (params : List Binding) (body : Expr) :
    lambda loc (f id) (params.map (·.rename f)) (body.rename f) =
      (lambda loc id params body).rename f := by
  have types : (params.map (·.rename f)).map (·.ty) = params.map (·.ty) := by
    simp [Function.comp_def, Binding.rename]
  unfold lambda
  rw [types, Expr.ty_rename]
  rfl

end Typing

end ExprLang
