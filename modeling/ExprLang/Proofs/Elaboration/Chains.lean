import ExprLang.Proofs.Elaboration.Depths
import ExprLang.Proofs.Elaboration.Rules
import ExprLang.Proofs.Likeness.Run

/-!
# Chains of an operator

A form of an n-ary head over many operands elaborates all of them before a rule looks at any; the nested
chain over the same operands applies a rule after each. Both end in the same: they fail both, or make
expressions that differ in the locations of the operator's nodes only (`Elaborator.flat_or_nested`). The
flat form has all operands one level below it, where the nested chain has the first one deepest, so the
two are compared through a derivation that is moved from one depth to another.
-/

namespace ExprLang

/-! ## Forms -/

namespace Form

/-- A further operand of a chain, with the places that a nested chain has for its form and its head. -/
structure Link where
  loc : Location
  headLoc : Location
  operand : Form

/-- The left-nested chain of a binary head: `(f (f first second) third)`. -/
def nested (name : String) (first : Form) (links : List Link) : Form :=
  links.foldl (fun inner link =>
    .combo .paren [.atom name link.headLoc, inner, link.operand] link.loc) first

/-- The flat form over the same operands: `(f first second third)`. -/
def flat (name : String) (headLoc loc : Location) (first : Form) (links : List Link) : Form :=
  .combo .paren (.atom name headLoc :: first :: links.map (·.operand)) loc

theorem nested_concat (name : String) (first : Form) (links : List Link) (link : Link) :
    nested name first (links ++ [link]) =
      .combo .paren [.atom name link.headLoc, nested name first links, link.operand] link.loc :=
  List.foldl_concat ..

end Form

/-! ## Expressions -/

namespace Expr

/-- Two expressions are the same except for the locations of a number of nodes of an operator, each the
left operand of the one before. -/
inductive SameChain (op : BinaryOp) : Nat → Expr → Expr → Prop where
  | done {expr : Expr} : SameChain op 0 expr expr
  | node {count : Nat} {ty : Ty} {loc otherLoc : Location} {left other right : Expr}
      (inner : SameChain op count left other) :
      SameChain op (count + 1) (.binary ⟨ty, loc⟩ op left right)
        (.binary ⟨ty, otherLoc⟩ op other right)

variable {op : BinaryOp} {count : Nat} {expr other : Expr}

theorem SameChain.ty_eq (same : SameChain op count expr other) : expr.ty = other.ty := by
  cases same <;> rfl

end Expr

namespace Typing

variable {registry : Registry} {loc otherLoc : Location} {op : BinaryOp} {expr left other right : Expr}

theorem nary_concat (first : Expr) (rest : List Expr) (last : Expr) :
    nary registry loc op first (rest ++ [last]) =
      nary registry loc op first rest >>= fun left => binary registry loc op left last := by
  simp only [nary, List.foldlM_append, List.foldlM_cons, List.foldlM_nil, bind_pure]

/-- What an operator makes of operands depends on their types alone. -/
theorem exists_binary_of_ty (same : left.ty = other.ty)
    (made : binary registry loc op left right = .ok expr) (otherLoc : Location) :
    ∃ ty, expr = .binary ⟨ty, loc⟩ op left right ∧
      binary registry otherLoc op other right = .ok (.binary ⟨ty, otherLoc⟩ op other right) := by
  unfold binary at made ⊢
  rw [← same]
  split at made
  next ty rule =>
    cases made
    exact ⟨ty, rfl, rfl⟩
  · cases made

end Typing

namespace Elaborator

variable {elaborator : Elaborator} {scope : Scope} {depth next middle later : Nat} {name : String}
  {headLoc loc : Location} {op : BinaryOp} {first form : Form} {forms : List Form}
  {links : List Form.Link} {expr left right : Expr}

/-- Forms elaborate to the operands of a chain. -/
inductive ElaboratesChain (elaborator : Elaborator) (scope : Scope) (depth : Nat) (op : BinaryOp)
    (loc : Location) (first : Form) (forms : List Form) (next : Nat) (expr : Expr) (later : Nat) :
    Prop where
  | intro {left : Expr} {rest : List Expr} {middle : Nat}
      (firstPart : Elaborates elaborator scope depth first next left middle)
      (restParts : ElaboratesAll elaborator scope depth forms middle rest later)
      (rule : Typing.nary elaborator.registry loc op left rest = .ok expr)

theorem Elaborates.chain (head : elaborator.heads.get? name = some (.nary op))
    (made : Elaborates elaborator scope depth
      (.combo .paren (.atom name headLoc :: first :: forms) loc) next expr later) :
    ElaboratesChain elaborator scope (depth + 1) op loc first forms next expr later := by
  obtain ⟨_, _, left, rest, middle, same, firstPart, restParts, rule⟩ := made.nary_inv head
  cases same
  exact ⟨firstPart, restParts, rule⟩

theorem ElaboratesChain.concat
    (made : ElaboratesChain elaborator scope depth op loc first forms next left middle)
    (last : Elaborates elaborator scope depth form middle right later)
    (rule : Typing.binary elaborator.registry loc op left right = .ok expr) :
    ElaboratesChain elaborator scope depth op loc first (forms ++ [form]) next expr later := by
  obtain ⟨firstPart, restParts, chain⟩ := made
  refine ⟨firstPart, restParts.append (.cons last .nil), ?_⟩
  rw [Typing.nary_concat, chain]
  exact rule

theorem ElaboratesChain.concat_inv
    (made : ElaboratesChain elaborator scope depth op loc first (forms ++ [form]) next expr later) :
    ∃ left middle right,
      ElaboratesChain elaborator scope depth op loc first forms next left middle ∧
        Elaborates elaborator scope depth form middle right later ∧
        Typing.binary elaborator.registry loc op left right = .ok expr := by
  obtain @⟨head, exprs, start, firstPart, restParts, rule⟩ := made
  obtain ⟨firstExprs, lastExprs, middle, rfl, parts, last⟩ := restParts.append_inv
  cases last with
  | cons last none =>
    cases none
    rw [Typing.nary_concat] at rule
    cases chain : Typing.nary elaborator.registry loc op head firstExprs with
    | error report =>
      rw [chain] at rule
      cases rule
    | ok left =>
      rw [chain] at rule
      exact ⟨left, middle, _, ⟨firstPart, parts, chain⟩, last, rule⟩

/-- A form of an n-ary head with two operands is a binary operation. -/
theorem Elaborates.pair_inv (head : elaborator.heads.get? name = some (.nary op))
    (made : Elaborates elaborator scope depth (.combo .paren [.atom name headLoc, first, form] loc)
      next expr later) :
    ∃ left middle right, Elaborates elaborator scope (depth + 1) first next left middle ∧
      Elaborates elaborator scope (depth + 1) form middle right later ∧
      Typing.binary elaborator.registry loc op left right = .ok expr := by
  have chain : ElaboratesChain elaborator scope (depth + 1) op loc first ([] ++ [form]) next expr
      later := made.chain head
  obtain ⟨left, middle, right, ⟨firstPart, restParts, rule⟩, last, made⟩ := chain.concat_inv
  cases restParts
  cases rule
  exact ⟨_, _, right, firstPart, last, made⟩

variable {nestDepth limit : Nat}

/-- The operands of a nested chain make a flat one, if they may stand one level below it. -/
theorem chain_of_nested (loc : Location) (head : elaborator.heads.get? name = some (.nary op))
    (deeper : depth ≤ nestDepth)
    (made : Elaborates elaborator scope nestDepth (.nested name first links) next expr later) :
    ∃ other, ElaboratesChain (elaborator.withLimit (elaborator.maxDepth + 1)) scope (depth + 1) op loc
        first (links.map (·.operand)) next other later ∧
      Expr.SameChain op links.length other expr := by
  have room : depth + 1 + elaborator.maxDepth ≤ elaborator.maxDepth + 1 + nestDepth := by omega
  induction links using List.reverseRecOn generalizing nestDepth expr later with
  | nil => exact ⟨expr, ⟨made.relocate room, .nil, rfl⟩, .done⟩
  | append_singleton links link ih =>
    rw [Form.nested_concat] at made
    obtain ⟨inner, middle, right, nested, last, rule⟩ := made.pair_inv head
    obtain ⟨flat, chain, same⟩ := ih (by omega) nested (by omega)
    obtain ⟨ty, rfl, moved⟩ := Typing.exists_binary_of_ty same.ty_eq.symm rule loc
    rw [List.map_append, List.length_append]
    exact ⟨_, chain.concat (last.relocate (by omega)) moved, same.node⟩

/-- The operands of a flat chain make a nested one, if the limit leaves enough levels. -/
theorem nested_of_chain (head : elaborator.heads.get? name = some (.nary op))
    (room : nestDepth + links.length + elaborator.maxDepth ≤ limit + depth)
    (made : ElaboratesChain elaborator scope depth op loc first (links.map (·.operand)) next expr
      later) :
    ∃ other, Elaborates (elaborator.withLimit limit) scope nestDepth (.nested name first links) next
        other later ∧
      Expr.SameChain op links.length expr other := by
  induction links using List.reverseRecOn generalizing nestDepth expr later with
  | nil =>
    obtain ⟨firstPart, restParts, rule⟩ := made
    cases restParts
    cases rule
    exact ⟨expr, firstPart.relocate (by simpa using room), .done⟩
  | append_singleton links link ih =>
    rw [List.length_append, List.length_singleton] at room
    rw [List.map_append] at made
    obtain ⟨left, middle, right, chain, last, rule⟩ := made.concat_inv
    have below : nestDepth + 1 + links.length + elaborator.maxDepth ≤ limit + depth := by omega
    obtain ⟨inner, nested, same⟩ := ih below chain
    obtain ⟨ty, rfl, moved⟩ := Typing.exists_binary_of_ty same.ty_eq rule link.loc
    have shallow : nestDepth ≤ limit := by
      have := last.shallow
      omega
    have second : Elaborates (elaborator.withLimit limit) scope (nestDepth + 1) link.operand middle
        right later := last.relocate (by omega)
    rw [Form.nested_concat, List.length_append]
    refine ⟨.binary ⟨ty, link.loc⟩ op inner right,
      .nary shallow head nested (.cons second .nil) ?_, same.node⟩
    exact (bind_pure _).trans moved

/-- Two successes of elaboration that are the same except for the locations of operator nodes. -/
structure SameMade (op : BinaryOp) (count : Nat) (made other : Expr × Nat) : Prop where
  chain : Expr.SameChain op count made.1 other.1
  later : made.2 = other.2

/-- A flat form and the nested chain over the same operands both fail, or elaborate to the same except
for the locations of operator nodes, if neither is too deep. -/
theorem flat_or_nested (headLoc loc : Location) (links : List Form.Link)
    (head : elaborator.heads.get? name = some (.nary op))
    (flatWithin : ¬ TooDeep
      (elaborator.elaborateAt scope depth (.flat name headLoc loc first links) next))
    (nestedWithin : ¬ TooDeep (elaborator.elaborateAt scope depth (.nested name first links) next)) :
    Parallel (fun _ _ => True) (SameMade op links.length)
      (elaborator.elaborateAt scope depth (.flat name headLoc loc first links) next)
      (elaborator.elaborateAt scope depth (.nested name first links) next) := by
  cases flatMade : elaborator.elaborateAt scope depth (.flat name headLoc loc first links) next with
  | ok made =>
    obtain ⟨expr, later⟩ := made
    have chain := (elaborates_of_ok flatMade).chain head
    have room : depth + links.length + elaborator.maxDepth ≤
        elaborator.maxDepth + links.length + (depth + 1) := by omega
    obtain ⟨other, nested, same⟩ := nested_of_chain head room chain
    have nestedMade := nested.ok
    rw [elaborateAt_withLimit_same (Nat.le_add_right _ _) nestedWithin] at nestedMade
    rw [nestedMade]
    exact .ok ⟨same, rfl⟩
  | error report =>
    cases nestedMade : elaborator.elaborateAt scope depth (.nested name first links) next with
    | error other => exact .error trivial
    | ok made =>
      obtain ⟨expr, later⟩ := made
      obtain ⟨other, ⟨firstPart, restParts, rule⟩, -⟩ :=
        chain_of_nested loc head (Nat.le_refl depth) (elaborates_of_ok nestedMade)
      have shallow : depth ≤ (elaborator.withLimit (elaborator.maxDepth + 1)).maxDepth :=
        Nat.le_of_succ_le firstPart.shallow
      have made : Elaborates (elaborator.withLimit (elaborator.maxDepth + 1)) scope depth
          (.flat name headLoc loc first links) next other later :=
        .nary shallow head firstPart restParts rule
      have same := elaborateAt_withLimit_same (Nat.le_succ _) flatWithin
      cases made.ok.symm.trans (same.trans flatMade)

/-- From another supply, a nested chain elaborates to the same up to the identities that are drawn. -/
theorem flat_or_renumbered (headLoc loc : Location) (links : List Form.Link)
    (head : elaborator.heads.get? name = some (.nary op))
    (flatWithin : ¬ TooDeep
      (elaborator.elaborateAt scope depth (.flat name headLoc loc first links) next))
    (nestedWithin : ¬ TooDeep (elaborator.elaborateAt scope depth (.nested name first links) next))
    (below : scope.Below next) (start : Nat) :
    Parallel (fun _ _ => True)
      (fun made other => ∃ same, SameMade op links.length made same ∧
        other = (same.1.rename (renumber next start), start + (same.2 - next)))
      (elaborator.elaborateAt scope depth (.flat name headLoc loc first links) next)
      (elaborator.elaborateAt scope depth (.nested name first links) start) := by
  have renumbered : elaborator.elaborateAt (scope.rename (renumber next start)) depth
      (.nested name first links) start = _ :=
    elaborateAt_withLimit (Nat.le_refl _) (renumber_drawn next start) nestedWithin
  rw [rename_renumber below] at renumbered
  rw [renumbered]
  exact (flat_or_nested headLoc loc links head flatWithin nestedWithin).map_right _

/-- A form of an n-ary head with one operand is that operand, one level further down. -/
theorem elaborateAt_single (headLoc loc : Location)
    (head : elaborator.heads.get? name = some (.nary op)) (shallow : depth ≤ elaborator.maxDepth) :
    elaborator.elaborateAt scope depth (.flat name headLoc loc first []) next =
      elaborator.elaborateAt scope (depth + 1) first next := by
  have unfolded : elaborator.elaborateAt scope depth (.flat name headLoc loc first []) =
      elaborator.elaborateAt scope (depth + 1) first >>= fun expr => pure expr := by
    rw [Form.flat, elaborateAt, if_neg (Nat.not_lt.mpr shallow)]
    simp only [List.map_nil, head, elaborateAll, pure_bind]
    rfl
  rw [unfolded, bind_pure]

end Elaborator

end ExprLang
