import ExprLang.Proofs.Elaboration.Chains
import ExprLang.Proofs.Likeness.Formatting

/-!
# The expansion of forms with many operands

A form of an n-ary head stands for the chain of binary ones that nests to the left. Both compile or
neither does, what they compile to differs in the places of the operator's nodes, and runs of it end
alike (`Elaborator.nary_expansion`).
-/

namespace ExprLang

/-- An outcome is like itself, wherever its report is located. -/
theorem likewise_self {α : Type} (outcome : Except Diagnostic α) :
    Likewise (fun _ _ => True) Eq outcome outcome := by
  cases outcome with
  | ok => exact .ok rfl
  | error report =>
    refine .error ⟨rfl, rfl, rfl, ?_⟩
    cases report.location with
    | none => exact .none
    | some => exact .some trivial

/-- Reports that are alike wherever they are located are so in a row. -/
theorem Diagnostic.Alike.trans {report middle other : Diagnostic}
    (alike : report.Alike (fun _ _ => True) middle) (further : middle.Alike (fun _ _ => True) other) :
    report.Alike (fun _ _ => True) other := by
  obtain ⟨code, message, location, notes⟩ := report
  obtain ⟨otherCode, otherMessage, otherLocation, otherNotes⟩ := other
  obtain ⟨rfl, rfl, rfl, place⟩ := alike
  obtain ⟨rfl, rfl, rfl, otherPlace⟩ := further
  refine ⟨rfl, rfl, rfl, ?_⟩
  generalize middle.location = between at place otherPlace
  cases place with
  | none =>
    cases otherPlace
    exact .none
  | some =>
    cases otherPlace
    exact .some trivial

/-! ## Expressions -/

namespace Expr

variable {op : BinaryOp} {count : Nat} {expr middle other : Expr} {view : View}

/-- Expressions that differ in locations of operator nodes evaluate to the same, up to the places of
reports. -/
theorem SameChain.evaluate (same : SameChain op count expr other) (setting : Setting)
    (frame : Frame Value) (next : Nat) :
    Likewise (fun _ _ => True) Eq (setting.evaluate frame expr next)
      (setting.evaluate frame other next) := by
  induction same generalizing next with
  | done => exact likewise_self _
  | @node _ _ loc otherLoc left other right _ ih =>
    rw [Setting.evaluate, Setting.evaluate]
    refine Parallel.bind (ih next) ?_
    rintro ⟨leftValue, later⟩ _ rfl
    dsimp only
    split
    · exact .ok rfl
    · refine Parallel.bind (likewise_self (setting.evaluate frame right later)) ?_
      rintro ⟨rightValue, last⟩ _ rfl
      dsimp only
      cases op.apply leftValue rightValue with
      | ok value => exact likewise_self (.ok (value, last))
      | error fault => exact .error (alike_reportAt trivial)

/-- Such expressions are alike to the same. -/
theorem SameChain.alike (same : SameChain op count expr middle)
    (alike : middle.Alike .unlocated view other) : expr.Alike .unlocated view other := by
  induction same generalizing other with
  | done => exact alike
  | node _ ih =>
    cases alike with
    | binary nodes lefts rights => exact .binary ⟨nodes.ty, nodes.known, trivial⟩ (ih lefts) rights

end Expr

/-! ## Engines -/

namespace Engine

variable {engine first second : Engine} {name : String} {op : BinaryOp} {operand : Form}
  {links : List Form.Link}

/-- Two compiled units are the same except for the locations of operator nodes. -/
structure SameCompiled (op : BinaryOp) (count : Nat) (made other : CompiledUnit × Engine) : Prop where
  chain : Expr.SameChain op count made.1.root other.1.root
  frame : made.1.frame = other.1.frame
  registry : made.1.registry = other.1.registry
  engine : made.2 = other.2

/-- Runs of such units give the same value, or reports that differ in their places only. -/
theorem SameCompiled.invoke {count : Nat} {made other : CompiledUnit × Engine}
    (same : SameCompiled op count made other) (runner : Engine) :
    Likewise (fun _ _ => True) Eq (runner.invoke made.1) (runner.invoke other.1) := by
  unfold Engine.invoke
  rw [perform_eq, perform_eq, same.frame, same.registry]
  refine (same.chain.evaluate _ other.1.frame runner.supply).map ?_
  rintro done _ rfl
  rfl

theorem compileForm_flat_or_nested (headLoc loc : Location) (links : List Form.Link)
    (head : engine.heads.get? name = some (.nary op))
    (flatWithin : ¬ TooDeep (engine.compileForm (.flat name headLoc loc operand links)))
    (nestedWithin : ¬ TooDeep (engine.compileForm (.nested name operand links))) :
    Parallel (fun _ _ => True) (SameCompiled op links.length)
      (engine.compileForm (.flat name headLoc loc operand links))
      (engine.compileForm (.nested name operand links)) := by
  have same : Parallel (fun _ _ => True) (Elaborator.SameMade op links.length)
      (engine.elaborator.elaborate engine.root (.flat name headLoc loc operand links) engine.supply)
      (engine.elaborator.elaborate engine.root (.nested name operand links) engine.supply) :=
    Elaborator.flat_or_nested headLoc loc links head (tooDeep_compileForm.not.mp flatWithin)
      (tooDeep_compileForm.not.mp nestedWithin)
  rw [compileForm_eq, perform_eq, compileForm_eq, perform_eq]
  refine (same.map fun made other held => ?_).map fun made other held => held
  exact ⟨held.chain, rfl, rfl, congrArg (fun supply => { engine with supply }) held.later⟩

/-- Engines that drew from one engine compile a flat form and a nested chain to the same. -/
theorem compiledAlike_flat_or_nested (reached : engine.Reached)
    (settled : engine.globals.Below engine.supply)
    (inert : engine.host.Inert .unlocated engine.supply) (drawn : engine.Drawn first)
    (otherDrawn : engine.Drawn second) (headLoc loc : Location)
    (head : engine.heads.get? name = some (.nary op))
    (flatWithin : ¬ TooDeep (first.compileForm (.flat name headLoc loc operand links)))
    (nestedWithin : ¬ TooDeep (second.compileForm (.nested name operand links))) :
    Parallel (fun _ _ => True)
      (first.CompiledAlike .unlocated engine.supply (fun _ => True) second)
      (first.compileForm (.flat name headLoc loc operand links))
      (second.compileForm (.nested name operand links)) := by
  have alike := alike_of_drawn reached settled inert drawn otherDrawn
  have moved := alike.compileForm ((Form.nested name operand links).alike_refl fun _ => trivial)
  have withinFirst : ¬ TooDeep (first.compileForm (.nested name operand links)) := by
    rintro ⟨report, failed, code⟩
    rw [failed] at moved
    generalize outcome : second.compileForm (.nested name operand links) = made at moved
    cases moved with
    | error held => exact nestedWithin ⟨_, outcome, held.code ▸ code⟩
  have known : first.heads.get? name = some (.nary op) := by
    obtain ⟨supply, -, rfl⟩ := drawn
    exact head
  refine ((compileForm_flat_or_nested headLoc loc links known flatWithin withinFirst).trans moved
    |>.mono_fails fun _ _ _ => trivial).mono ?_
  rintro made otherMade ⟨middle, same, held⟩
  refine ⟨same.chain.alike held.roots, fun runner otherRunner further otherFurther => ?_⟩
  have run := (same.invoke runner).trans
    (held.runs runner otherRunner (same.engine ▸ further) otherFurther)
  refine (run.mono_fails ?_).mono ?_
  · rintro failure last ⟨report, ends, held⟩
    exact ends.trans held
  · rintro done last ⟨_, rfl, held⟩
    exact held

end Engine

namespace Elaborator

variable {elaborator : Elaborator} {name : String} {op : BinaryOp}

/-- **A form of many operands is its left-nested expansion.** A flat form of an n-ary head and the chain
of binary forms over the same operands both fail to elaborate, unless one is too deep, or they give
expressions of one type that differ in the locations of the operator's nodes only; these evaluate to the
same value, or to reports that differ in their places only. From another supply the chain draws other
identities for the same. In a session, what the two compile to runs alike, whatever was drawn in the
meantime. A form with one operand elaborates to that operand. -/
theorem nary_expansion (head : elaborator.heads.get? name = some (.nary op)) (headLoc loc : Location)
    (first : Form) (links : List Form.Link) :
    (∀ scope depth next,
      ¬ TooDeep (elaborator.elaborateAt scope depth (.flat name headLoc loc first links) next) →
      ¬ TooDeep (elaborator.elaborateAt scope depth (.nested name first links) next) →
        Parallel (fun _ _ => True)
          (fun made other => SameMade op links.length made other ∧ made.1.ty = other.1.ty ∧
            ∀ (setting : Setting) frame start, Likewise (fun _ _ => True) Eq
              (setting.evaluate frame made.1 start) (setting.evaluate frame other.1 start))
          (elaborator.elaborateAt scope depth (.flat name headLoc loc first links) next)
          (elaborator.elaborateAt scope depth (.nested name first links) next) ∧
        ∀ start, scope.Below next → Parallel (fun _ _ => True)
          (fun made other => ∃ same, SameMade op links.length made same ∧
            other = (same.1.rename (renumber next start), start + (same.2 - next)))
          (elaborator.elaborateAt scope depth (.flat name headLoc loc first links) next)
          (elaborator.elaborateAt scope depth (.nested name first links) start)) ∧
    (∀ engine later other : Engine, engine.elaborator = elaborator → engine.Reached →
      engine.globals.Below engine.supply → engine.host.Inert .unlocated engine.supply →
      engine.Drawn later → engine.Drawn other →
      ¬ TooDeep (later.compileForm (.flat name headLoc loc first links)) →
      ¬ TooDeep (other.compileForm (.nested name first links)) →
        Parallel (fun _ _ => True)
          (later.CompiledAlike .unlocated engine.supply (fun _ => True) other)
          (later.compileForm (.flat name headLoc loc first links))
          (other.compileForm (.nested name first links))) ∧
    ∀ scope depth next,
      (depth ≤ elaborator.maxDepth →
        elaborator.elaborateAt scope depth (.flat name headLoc loc first []) next =
          elaborator.elaborateAt scope (depth + 1) first next) ∧
      (¬ TooDeep (elaborator.elaborateAt scope depth (.flat name headLoc loc first []) next) →
        ¬ TooDeep (elaborator.elaborateAt scope depth first next) →
          Parallel (fun _ _ => True) Eq
            (elaborator.elaborateAt scope depth (.flat name headLoc loc first []) next)
            (elaborator.elaborateAt scope depth first next)) := by
  refine ⟨fun scope depth next flatWithin nestedWithin => ⟨?_, fun start below => ?_⟩, ?_,
    fun scope depth next => ⟨elaborateAt_single headLoc loc head, fun within operandWithin => ?_⟩⟩
  · refine (flat_or_nested headLoc loc links head flatWithin nestedWithin).mono ?_
    exact fun made other same => ⟨same, same.chain.ty_eq, same.chain.evaluate⟩
  · exact flat_or_renumbered headLoc loc links head flatWithin nestedWithin below start
  · rintro engine later other rfl reached settled inert drawn otherDrawn flatWithin nestedWithin
    exact Engine.compiledAlike_flat_or_nested reached settled inert drawn otherDrawn headLoc loc head
      flatWithin nestedWithin
  · refine (flat_or_nested headLoc loc [] head within operandWithin).mono ?_
    rintro ⟨expr, later⟩ ⟨other, otherLater⟩ ⟨chain, rfl⟩
    cases chain
    rfl

def numeralAtom (text : String) : Form :=
  .atom text ⟨"chain", 1, 1⟩

def subtrahends : List Form.Link :=
  [⟨⟨"chain", 1, 2⟩, ⟨"chain", 1, 3⟩, numeralAtom "3"⟩,
    ⟨⟨"chain", 1, 4⟩, ⟨"chain", 1, 5⟩, numeralAtom "2"⟩]

/-- The form `(- 10 3 2)` and, when more was drawn, the form `(- (- 10 3) 2)` compile to units that run
alike, and the first one gives five. -/
theorem nary_expansion_subtrahends :
    let flat : Form := .flat "-" ⟨"chain", 2, 2⟩ ⟨"chain", 2, 1⟩ (numeralAtom "10") subtrahends
    let nested : Form := .nested "-" (numeralAtom "10") subtrahends
    let later := { PointHost.withOrigin with supply := 9 }
    ∃ made other, PointHost.withOrigin.compileForm flat = .ok made ∧
      later.compileForm nested = .ok other ∧
      PointHost.withOrigin.CompiledAlike .unlocated 3 (fun _ => True) later made other ∧
      made.2.invoke made.1 = .ok (.datum (.int 5), made.2) := by
  intro flat nested later
  have head : PointHost.withOrigin.elaborator.heads.get? "-" = some (.nary .subtract) := rfl
  obtain ⟨-, sessions, -⟩ :=
    nary_expansion head ⟨"chain", 2, 2⟩ ⟨"chain", 2, 1⟩ (numeralAtom "10") subtrahends
  have alike := sessions PointHost.withOrigin PointHost.withOrigin later rfl
    PointHost.reached_withOrigin PointHost.below_withOrigin PointHost.inert_withOrigin
    (Engine.drawn_refl _) ⟨9, by decide, rfl⟩ (by rintro ⟨report, failed, -⟩; cases failed)
    (by rintro ⟨report, failed, -⟩; cases failed)
  generalize made : PointHost.withOrigin.compileForm flat = outcome at alike
  generalize otherMade : later.compileForm nested = otherOutcome at alike
  cases alike with
  | error => cases made
  | ok held =>
    cases made
    exact ⟨_, _, rfl, rfl, held, rfl⟩

end Elaborator

end ExprLang
