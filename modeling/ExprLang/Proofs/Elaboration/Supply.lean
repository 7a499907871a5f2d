import ExprLang.Proofs.Run

/-!
# The supply that elaboration leaves

Elaboration is the same for every kind of failure. A report does not tell how many identities were
drawn before it; a failure that keeps the supply does. Apart from that both ways to elaborate agree
(`tallies_elaborateAt`), so `Elaborator.elaborating` answers what `Elaborator.elaborate` does, and
the supply that is left, from which no identity of the elaboration is drawn again.
-/

namespace ExprLang

namespace Run

variable {α β : Type}

/-- From every start, a computation does what one does whose failures keep the supply, and that
gives no identity back. -/
def Tallies (run : Run α) (keeping : Drawing Halt α) : Prop :=
  ∀ next, match keeping next with
    | .ok (value, later) => run next = .ok (value, later) ∧ next ≤ later
    | .error halt => run next = .error halt.report ∧ next ≤ halt.supply

theorem tallies_pure {value : α} : Tallies (pure value) (pure value) :=
  fun _ => ⟨rfl, Nat.le_refl _⟩

theorem tallies_freshId : Tallies freshId freshId :=
  fun _ => ⟨rfl, Nat.le_succ _⟩

theorem tallies_lift {outcome : Except Diagnostic α} : Tallies (liftM outcome) (liftM outcome) := by
  intro next
  cases outcome <;> exact ⟨rfl, Nat.le_refl _⟩

theorem Tallies.bind {run : Run α} {keeping : Drawing Halt α} {rest : α → Run β}
    {keepingRest : α → Drawing Halt β} (first : Tallies run keeping)
    (second : ∀ value, Tallies (rest value) (keepingRest value)) :
    Tallies (run >>= rest) (keeping >>= keepingRest) := by
  intro next
  have start := first next
  simp only [Bind.bind, StateT.bind, Except.bind]
  cases outcome : keeping next with
  | error halt =>
    rw [outcome] at start
    exact ⟨by rw [start.1], start.2⟩
  | ok made =>
    obtain ⟨value, middle⟩ := made
    rw [outcome] at start
    have onward := second value middle
    rw [start.1]
    dsimp only
    generalize keepingRest value middle = outcome at onward ⊢
    cases outcome <;> exact ⟨onward.1, Nat.le_trans start.2 onward.2⟩

end Run

namespace Elaborator

variable {elaborator : Elaborator} {scope : Scope} {depth : Nat}

theorem tallies_param (form : Form) :
    Run.Tallies (elaborator.param scope form) (elaborator.param scope form) := by
  unfold param
  split
  next tyForm nameForm loc =>
    refine Run.tallies_lift.bind fun ty => ?_
    cases nameForm with
    | combo bracket children nameLoc => exact Run.tallies_lift
    | atom name nameLoc =>
      dsimp only
      split
      · exact Run.tallies_lift
      · exact Run.tallies_freshId.bind fun id => Run.tallies_pure
  · exact Run.tallies_lift

theorem tallies_params (forms : List Form) :
    Run.Tallies (elaborator.params scope forms) (elaborator.params scope forms) := by
  induction forms generalizing scope with
  | nil => exact Run.tallies_pure
  | cons form rest ih => exact (tallies_param form).bind fun _ => ih.bind fun _ => Run.tallies_pure

theorem tallies_paramList (form : Form) :
    Run.Tallies (elaborator.paramList scope form) (elaborator.paramList scope form) := by
  unfold paramList
  split
  · exact tallies_params _
  · exact Run.tallies_lift

mutual

theorem tallies_head {name : String} {headLoc loc : Location} {operands : List Form} {scope : Scope}
    {depth : Nat} (shallow : depth ≤ elaborator.maxDepth) :
    Run.Tallies
      (elaborator.elaborateAt scope depth (.combo .paren (.atom name headLoc :: operands) loc))
      (elaborator.elaborateAt scope depth (.combo .paren (.atom name headLoc :: operands) loc)) := by
  unfold elaborateAt
  rw [if_neg (Nat.not_lt.mpr shallow), if_neg (Nat.not_lt.mpr shallow)]
  cases head : elaborator.heads.get? name with
  | none =>
    simp only [head]
    exact Run.tallies_lift
  | some kind =>
    simp only [head]
    cases kind with
    | unary op =>
      match operands with
      | [form] => exact (tallies_elaborateAt form).bind fun _ => Run.tallies_lift
      | [] | _ :: _ :: _ => exact Run.tallies_lift
    | binary op =>
      match operands with
      | [left, right] =>
        exact (tallies_elaborateAt left).bind fun _ =>
          (tallies_elaborateAt right).bind fun _ => Run.tallies_lift
      | [] | [_] | _ :: _ :: _ :: _ => exact Run.tallies_lift
    | nary op =>
      match operands with
      | first :: rest =>
        exact (tallies_elaborateAt first).bind fun _ =>
          (tallies_elaborateAll rest).bind fun _ => Run.tallies_lift
      | [] => exact Run.tallies_lift
    | conditional =>
      match operands with
      | [condition, yes, no] =>
        exact (tallies_elaborateAt condition).bind fun _ => (tallies_elaborateAt yes).bind fun _ =>
          (tallies_elaborateAt no).bind fun _ => Run.tallies_lift
      | [] | [_] | [_, _] | _ :: _ :: _ :: _ :: _ => exact Run.tallies_lift
    | index =>
      match operands with
      | target :: args =>
        exact (tallies_elaborateAt target).bind fun _ =>
          (tallies_elaborateAll args).bind fun _ => Run.tallies_lift
      | [] => exact Run.tallies_lift
    | typeIs | typeAs | cast =>
      match operands with
      | [tyForm, form] =>
        exact Run.tallies_lift.bind fun _ =>
          (tallies_elaborateAt form).bind fun _ => Run.tallies_lift
      | [] | [_] | _ :: _ :: _ :: _ => exact Run.tallies_lift
    | typeOf | defaultOf =>
      match operands with
      | [tyForm] => exact Run.tallies_lift.bind fun _ => Run.tallies_pure
      | [] | _ :: _ :: _ => exact Run.tallies_lift
    | construct =>
      match operands with
      | tyForm :: args =>
        exact Run.tallies_lift.bind fun _ =>
          (tallies_elaborateAll args).bind fun _ => Run.tallies_lift
      | [] => exact Run.tallies_lift
    | lambda =>
      match operands with
      | [params, body] =>
        exact (tallies_paramList params).bind fun _ => (tallies_elaborateAt body).bind fun _ =>
          Run.tallies_freshId.bind fun _ => Run.tallies_pure
      | [] | [_] | _ :: _ :: _ :: _ => exact Run.tallies_lift
termination_by structural operands

/-- Elaboration does the same whether its failures keep the supply or not, and gives no identity
back. -/
theorem tallies_elaborateAt (form : Form) {scope : Scope} {depth : Nat} :
    Run.Tallies (elaborator.elaborateAt scope depth form)
      (elaborator.elaborateAt scope depth form) := by
  by_cases exceeds : elaborator.maxDepth < depth
  · cases form <;> rw [elaborateAt, elaborateAt, if_pos exceeds, if_pos exceeds] <;>
      exact Run.tallies_lift
  match form with
  | .atom text loc =>
    rw [elaborateAt, elaborateAt, if_neg exceeds, if_neg exceeds]
    exact Run.tallies_lift
  | .combo .square items loc =>
    rw [elaborateAt, elaborateAt, if_neg exceeds, if_neg exceeds]
    exact (tallies_elaborateAll items).bind fun _ => Run.tallies_lift
  | .combo .curly forms loc =>
    rw [elaborateAt, elaborateAt, if_neg exceeds, if_neg exceeds]
    dsimp only
    split
    · exact Run.tallies_lift
    · exact (tallies_elaborateAll forms).bind fun _ => Run.tallies_lift
  | .combo .paren [] loc =>
    rw [elaborateAt, elaborateAt, if_neg exceeds, if_neg exceeds]
    exact Run.tallies_lift
  | .combo .paren (.combo .. :: _) loc =>
    rw [elaborateAt, elaborateAt, if_neg exceeds, if_neg exceeds]
    exact Run.tallies_lift
  | .combo .paren (.atom name headLoc :: operands) loc =>
    exact tallies_head (Nat.not_lt.mp exceeds)
termination_by structural form

theorem tallies_elaborateAll (forms : List Form) {scope : Scope} {depth : Nat} :
    Run.Tallies (elaborator.elaborateAll scope depth forms)
      (elaborator.elaborateAll scope depth forms) := by
  match forms with
  | [] => exact Run.tallies_pure
  | form :: rest =>
    exact (tallies_elaborateAt form).bind fun _ =>
      (tallies_elaborateAll rest).bind fun _ => Run.tallies_pure
termination_by structural forms

end

variable {form : Form} {next later : Nat}

/-- Elaboration answers an expression and the supply after it, or only its report. -/
theorem elaborate_eq (elaborator : Elaborator) (scope : Scope) (form : Form) (next : Nat) :
    elaborator.elaborate scope form next =
      (elaborator.elaborating scope form next).1.map fun expr =>
        (expr, (elaborator.elaborating scope form next).2) := by
  have tallies := @tallies_elaborateAt elaborator form scope 0 next
  unfold elaborate elaborating
  split at tallies
  next outcome => rw [outcome, tallies.1]; rfl
  next outcome => rw [outcome, tallies.1]; rfl

/-- No identity is given back, whether elaboration succeeds or fails. -/
theorem le_elaborating (elaborator : Elaborator) (scope : Scope) (form : Form) (next : Nat) :
    next ≤ (elaborator.elaborating scope form next).2 := by
  have tallies := @tallies_elaborateAt elaborator form scope 0 next
  unfold elaborating
  split at tallies
  next outcome => rw [outcome]; exact tallies.2
  next outcome => rw [outcome]; exact tallies.2

end Elaborator

end ExprLang
