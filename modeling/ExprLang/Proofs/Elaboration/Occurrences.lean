import ExprLang.Proofs.Elaboration.Rules
import ExprLang.Proofs.Elaboration.Typed

/-!
# Where bindings occur

An expression declares bindings as the parameters of its lambdas and refers to bindings with its
variables. Elaboration in a scope draws an identity for every parameter, in the order in which the
parameters stand, and a variable refers to a parameter or to what the scope shows
(`Elaborator.Elaborates.scoped`).
-/

namespace ExprLang

/-- A binding at a place in an expression: a parameter that is declared, or a variable. -/
inductive Occurrence where
  | declared (param : Binding)
  | used (binding : Binding)

def Occurrence.binding : Occurrence → Binding
  | .declared param => param
  | .used binding => binding

def Occurrence.param? : Occurrence → Option Binding
  | .declared param => some param
  | .used _ => none

namespace Expr

mutual

/-- The bindings that occur in an expression, in order. -/
def occurrences : Expr → List Occurrence
  | .constant .. | .typeOf .. | .defaultOf .. => []
  | .variable _ binding => [.used binding]
  | .unary _ _ operand | .typeIs _ _ operand | .typeAs _ _ operand | .convert _ _ operand =>
    occurrences operand
  | .binary _ _ left right => occurrences left ++ occurrences right
  | .conditional _ condition yes no =>
    occurrences condition ++ (occurrences yes ++ occurrences no)
  | .construct _ _ args => occurrencesAll args
  | .lambda _ _ params body => params.map .declared ++ occurrences body
  | .index _ _ target args => occurrences target ++ occurrencesAll args
  | .list _ _ items => occurrencesAll items
  | .map _ _ _ entries => occurrencesEntries entries
termination_by structural expr => expr

def occurrencesAll : List Expr → List Occurrence
  | [] => []
  | expr :: rest => occurrences expr ++ occurrencesAll rest
termination_by structural exprs => exprs

def occurrencesEntries : List (Expr × Expr) → List Occurrence
  | [] => []
  | (key, value) :: rest => occurrences key ++ (occurrences value ++ occurrencesEntries rest)
termination_by structural entries => entries

end

def params (expr : Expr) : List Binding :=
  expr.occurrences.filterMap (·.param?)

theorem occurrencesEntries_pairs {exprs : List Expr} (even : exprs.length % 2 = 0) :
    occurrencesEntries (pairs exprs) = occurrencesAll exprs := by
  fun_induction pairs exprs with
  | case1 key value rest ih =>
    have restEven : rest.length % 2 = 0 := by
      simp only [List.length_cons] at even
      omega
    rw [occurrencesEntries, occurrencesAll, occurrencesAll, ih restEven]
  | case2 exprs short =>
    rcases exprs with _ | ⟨first, _ | ⟨second, rest⟩⟩
    · rfl
    · cases even
    · exact absurd rfl (short first second rest)

end Expr

theorem Typing.Folded.occurrences_eq {loc : Location} {op : BinaryOp} {first expr : Expr}
    {rest : List Expr} (folded : Folded loc op first rest expr) :
    expr.occurrences = first.occurrences ++ Expr.occurrencesAll rest := by
  induction folded with
  | done => rw [Expr.occurrencesAll, List.append_nil]
  | step further ih => rw [ih, Expr.occurrences, Expr.occurrencesAll, List.append_assoc]

namespace Occurrence

variable {scope inner : Scope} {next middle later : Nat} {occurrences more : List Occurrence}

/-- While the supply goes from one identity to another, bindings come to occur in a scope:
parameters with identities of their own, in order, and variables for parameters and for what the
scope shows. -/
structure Scoped (scope : Scope) (next later : Nat) (occurrences : List Occurrence) : Prop where
  le : next ≤ later
  ascending : ((occurrences.filterMap (·.param?)).map (·.id)).Pairwise (· < ·)
  between : ∀ param ∈ occurrences.filterMap (·.param?), next ≤ param.id ∧ param.id < later
  bound : ∀ binding, .used binding ∈ occurrences →
    binding ∈ occurrences.filterMap (·.param?) ∨ ∃ name, scope.lookup name = some binding

theorem Scoped.nil : Scoped scope next next [] :=
  ⟨Nat.le_refl _, .nil, by simp, by simp⟩

theorem Scoped.used {name : String} {binding : Binding} (bound : scope.lookup name = some binding) :
    Scoped scope next next [.used binding] := by
  refine ⟨Nat.le_refl _, .nil, by simp [param?], fun other belongs => .inr ⟨name, ?_⟩⟩
  obtain rfl : other = binding := by simpa using belongs
  exact bound

theorem Scoped.append (first : Scoped scope next middle occurrences)
    (second : Scoped scope middle later more) :
    Scoped scope next later (occurrences ++ more) := by
  refine ⟨Nat.le_trans first.le second.le, ?_, ?_, ?_⟩
  · rw [List.filterMap_append, List.map_append, List.pairwise_append]
    refine ⟨first.ascending, second.ascending, fun id drawn other otherDrawn => ?_⟩
    obtain ⟨param, belongs, rfl⟩ := List.mem_map.mp drawn
    obtain ⟨otherParam, otherBelongs, rfl⟩ := List.mem_map.mp otherDrawn
    exact Nat.lt_of_lt_of_le (first.between param belongs).2
      (second.between otherParam otherBelongs).1
  · intro param belongs
    rw [List.filterMap_append] at belongs
    rcases List.mem_append.mp belongs with early | late
    · have between := first.between param early
      exact ⟨between.1, Nat.lt_of_lt_of_le between.2 second.le⟩
    · have between := second.between param late
      exact ⟨Nat.le_trans first.le between.1, between.2⟩
  · intro binding belongs
    rw [List.filterMap_append]
    rcases List.mem_append.mp belongs with early | late
    · exact (first.bound binding early).imp_left (List.mem_append_left _)
    · exact (second.bound binding late).imp_left (List.mem_append_right _)

/-- A lambda declares its parameters before its body is looked at. -/
theorem Scoped.lambda {params : List Binding}
    (ids : params.map (·.id) = List.range' next params.length)
    (shown : ∀ name, inner.lookup name = (Scope.find? params name).or (scope.lookup name))
    (body : Scoped inner (next + params.length) later occurrences) :
    Scoped scope next (later + 1) (params.map .declared ++ occurrences) := by
  have declared : (params.map Occurrence.declared).filterMap (·.param?) = params := by
    simp [List.filterMap_map, param?]
  have drawn (param : Binding) (belongs : param ∈ params) :
      next ≤ param.id ∧ param.id < next + params.length := by
    have inRange : param.id ∈ params.map (·.id) := List.mem_map_of_mem belongs
    rwa [ids, List.mem_range'_1] at inRange
  have le := body.le
  refine ⟨by omega, ?_, ?_, ?_⟩
  · rw [List.filterMap_append, declared, List.map_append, List.pairwise_append]
    refine ⟨ids ▸ List.pairwise_lt_range', body.ascending, fun id early other late => ?_⟩
    obtain ⟨param, belongs, rfl⟩ := List.mem_map.mp early
    obtain ⟨otherParam, otherBelongs, rfl⟩ := List.mem_map.mp late
    exact Nat.lt_of_lt_of_le (drawn param belongs).2 (body.between otherParam otherBelongs).1
  · intro param belongs
    rw [List.filterMap_append, declared] at belongs
    rcases List.mem_append.mp belongs with own | deeper
    · have between := drawn param own
      omega
    · have between := body.between param deeper
      omega
  · intro binding belongs
    rw [List.filterMap_append, declared]
    rcases List.mem_append.mp belongs with own | deeper
    · simp at own
    rcases body.bound binding deeper with param | ⟨name, found⟩
    · exact .inl (List.mem_append_right _ param)
    rw [shown] at found
    rcases Option.or_eq_some_iff.mp found with own | ⟨-, outer⟩
    · exact .inl (List.mem_append_left _ (List.mem_of_find?_eq_some own))
    · exact .inr ⟨name, outer⟩

end Occurrence

namespace Elaborator

variable {elaborator : Elaborator}

mutual

/-- What elaboration makes declares parameters under the identities that it draws, and refers to
them and to what the scope shows. -/
theorem Elaborates.scoped {form : Form} {scope : Scope} {depth next later : Nat} {expr : Expr} :
    Elaborates elaborator scope depth form next expr later →
      Occurrence.Scoped scope next later expr.occurrences
  | .constant .. | .typeOf .. | .defaultOf .. => .nil
  | .variable _ _ bound => .used bound
  | .list _ parts rule => by
    obtain ⟨element, -, rfl⟩ := Typing.eq_of_list rule
    exact parts.scoped
  | .map _ paired parts rule => by
    obtain ⟨key, value, -, -, rfl⟩ := Typing.eq_of_map rule
    rw [Expr.occurrences, Expr.occurrencesEntries_pairs (parts.length_eq ▸ paired)]
    exact parts.scoped
  | .unary _ _ part rule => by
    obtain ⟨ty, rfl⟩ := Typing.eq_of_unary rule
    exact part.scoped
  | .binary _ _ left right rule => by
    obtain ⟨ty, rfl⟩ := Typing.eq_of_binary rule
    exact left.scoped.append right.scoped
  | .nary _ _ first rest rule => by
    rw [(Typing.folded_of_nary rule).occurrences_eq]
    exact first.scoped.append rest.scoped
  | .conditional _ _ condition yes no rule => by
    obtain rfl := Typing.eq_of_conditional rule
    exact condition.scoped.append (yes.scoped.append no.scoped)
  | .index _ _ target args rule => by
    obtain ⟨indexer, -, rfl⟩ := Typing.eq_of_index rule
    exact target.scoped.append args.scoped
  | .typeIs _ _ _ part rule => by
    cases rule
    exact part.scoped
  | .typeAs _ _ _ part rule => by
    obtain rfl := Typing.eq_of_typeAs rule
    exact part.scoped
  | .convert _ _ _ part rule => by
    obtain rfl := Typing.eq_of_convert rule
    exact part.scoped
  | .construct _ _ _ args rule => by
    obtain ⟨constructor, -, rfl⟩ := Typing.eq_of_construct rule
    exact args.scoped
  | .lambda _ _ declared body => by
    obtain ⟨-, ids, rfl⟩ := paramList_ok declared
    exact .lambda ids (lookup_paramList declared) body.scoped

theorem ElaboratesAll.scoped {forms : List Form} {scope : Scope} {depth next later : Nat}
    {exprs : List Expr} :
    ElaboratesAll elaborator scope depth forms next exprs later →
      Occurrence.Scoped scope next later (Expr.occurrencesAll exprs)
  | .nil => .nil
  | .cons first rest => first.scoped.append rest.scoped

end

end Elaborator

end ExprLang
