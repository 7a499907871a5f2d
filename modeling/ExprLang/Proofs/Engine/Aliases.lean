import ExprLang.Proofs.Elaboration.Aliases
import ExprLang.Proofs.Likeness.Formatting

/-!
# Aliases are transparent

Names with one entry in the table of heads can be put for each other in front of compiled forms
(`Engine.aliases_transparent`): what is compiled is the same, and so are its runs. Only reports show
the name that was written.
-/

namespace ExprLang.Engine

variable {engine : Engine} {a b name existing : String} {form aliased : Form}
  {names : String → Prop}

/-- An alias that is defined has the entry of the name that it was made from. -/
theorem get?_defineAlias (known : (engine.defineAlias name existing).1 = true) :
    (engine.defineAlias name existing).2.heads.get? name =
      (engine.defineAlias name existing).2.heads.get? existing := by
  unfold defineAlias HeadTable.withAlias? at known ⊢
  cases found : engine.heads.get? existing with
  | none =>
    rw [found] at known
    cases known
  | some head =>
    simp [Option.map_some, Table.get?_insert, found]

theorem compileForm_aliased (entry : engine.heads.get? a = engine.heads.get? b)
    (forms : form.Aliased engine.heads a b names aliased) :
    Parallel (Diagnostic.AlikeBut a b Eq) Eq (engine.compileForm form)
      (engine.compileForm aliased) := by
  have elaborated : Elaborator.SameBut a b (engine.elaborator.elaborateAt engine.root 0 form)
      (engine.elaborator.elaborateAt engine.root 0 aliased) :=
    Elaborator.sameBut_elaborateAt form entry (fun _ _ => rfl) forms
  have performed : Parallel (Diagnostic.AlikeBut a b Eq) Eq
      (engine.perform (engine.elaborator.elaborate engine.root form))
      (engine.perform (engine.elaborator.elaborate engine.root aliased)) := by
    rw [perform_eq, perform_eq]
    refine (elaborated engine.supply).map ?_
    rintro ⟨root, supply⟩ ⟨_, _⟩ ⟨rfl, rfl⟩
    rfl
  rw [compileForm_eq, compileForm_eq]
  exact performed.map fun _ _ same => by rw [same]

/-- **Aliases are transparent.** Let two names have the same entry in the table of heads, and put
one for the other in front of compiled forms, anywhere in a form. The form is then elaborated to the
same expression in every scope, also in one with other bindings of the names that the form mentions
as leading atoms only, or it is refused with the same report, where at most the quoted name differs.
So it is compiled to the same unit. If the form was found elsewhere and more identities were drawn,
the unit is the same but for locations and new identities, and its runs are alike. -/
theorem aliases_transparent (entry : engine.heads.get? a = engine.heads.get? b)
    (forms : form.Aliased engine.heads a b names aliased) :
    (∀ (scope other : Scope) (depth next : Nat), scope.AgreeOn names other →
      Parallel (Diagnostic.AlikeBut a b Eq) Eq
        (engine.elaborator.elaborateAt scope depth form next)
        (engine.elaborator.elaborateAt other depth aliased next)) ∧
    Parallel (Diagnostic.AlikeBut a b Eq) Eq (engine.compileForm form)
      (engine.compileForm aliased) ∧
    (engine.Reached → engine.globals.Below engine.supply →
      engine.host.Inert .unlocated engine.supply →
      ∀ (first second : Engine) (elsewhere : Form), engine.Drawn first → engine.Drawn second →
        aliased.same elsewhere = true →
        Parallel (Diagnostic.AlikeBut a b Likeness.unlocated.places)
          (first.CompiledAlike .unlocated engine.supply (fun _ => True) second)
          (first.compileForm form) (second.compileForm elsewhere)) := by
  refine ⟨fun scope other depth next agree => ?_, compileForm_aliased entry forms, ?_⟩
  · have elaborated : Elaborator.SameBut a b (engine.elaborator.elaborateAt scope depth form)
        (engine.elaborator.elaborateAt other depth aliased) :=
      Elaborator.sameBut_elaborateAt form entry agree forms
    exact (elaborated next).mono fun _ _ same => Prod.ext same.1 same.2
  · intro reached settled inert first second elsewhere drawn otherDrawn same
    have alike := alike_of_drawn reached settled inert drawn otherDrawn
    have moved := alike.compileForm (Form.alike_of_same same)
    have kept : Parallel (Diagnostic.AlikeBut a b Eq) Eq (first.compileForm form)
        (first.compileForm aliased) := by
      obtain ⟨supply, -, rfl⟩ := drawn
      exact compileForm_aliased entry forms
    refine ((kept.trans moved).mono_fails ?_).mono ?_
    · rintro report other ⟨middle, but, further⟩
      exact but.trans further
    · rintro made other ⟨_, rfl, further⟩
      exact further

end ExprLang.Engine

namespace ExprLang

namespace Adder

def engine : Engine :=
  ((Engine.withOptions {}).defineAlias "plus" "+").2

def form (name : String) : Form :=
  let loc : Location := ⟨"adder", 1, 1⟩
  .combo .paren [.atom name loc, .atom "x" loc, .atom "1" loc] loc

def scope : Scope where
  innermost := [⟨7, "x", .int⟩]

def shadowing : Scope where
  innermost := [⟨7, "x", .int⟩, ⟨8, "plus", .string⟩]

end Adder

namespace Engine

/-- A sum under an alias is the same expression as under the first name, also where a variable has
the name of the alias. -/
theorem aliases_transparent_plus :
    ∃ made, Adder.engine.elaborator.elaborateAt Adder.scope 0 (Adder.form "+") 9 = .ok made ∧
      Adder.engine.elaborator.elaborateAt Adder.shadowing 0 (Adder.form "plus") 9 = .ok made := by
  have entry : Adder.engine.heads.get? "+" = Adder.engine.heads.get? "plus" :=
    (get?_defineAlias rfl).symm
  have forms : (Adder.form "+").Aliased Adder.engine.heads "+" "plus" (· ≠ "plus")
      (Adder.form "plus") := by
    refine .expressions (.inr ⟨rfl, rfl⟩) (fun head found => .inr ?_)
      (.cons (.atom (by decide)) (.cons (.atom (by decide)) .nil))
    cases found
    rfl
  have agree : Adder.scope.AgreeOn (· ≠ "plus") Adder.shadowing := by
    intro name other
    simp [Scope.lookup, Scope.find?, Adder.scope, Adder.shadowing, List.find?_cons, Ne.symm other]
  have elaborated := (aliases_transparent entry forms).1 Adder.scope Adder.shadowing 0 9 agree
  generalize made : Adder.engine.elaborator.elaborateAt Adder.scope 0 (Adder.form "+") 9 = outcome
    at elaborated
  generalize otherMade :
    Adder.engine.elaborator.elaborateAt Adder.shadowing 0 (Adder.form "plus") 9 = other
    at elaborated
  cases elaborated with
  | ok same => exact ⟨_, rfl, same ▸ rfl⟩
  | error => cases made

end Engine

end ExprLang
