import Mathlib.Data.Option.Basic
import Mathlib.Order.Basic
import ExprLang.Expr.Typing
import ExprLang.Proofs.Run

/-!
# Two runs side by side

Two runs go likewise if both fail with reports that are alike, or both give results that are
related. How the supplies of the two runs compare is described by a situation, which may only widen
while the runs go on. The rules follow the way computations are put together, so that elaboration
and evaluation are compared part by part.
-/

namespace ExprLang

/-- Two outcomes side by side: results that are related, or failures that are. -/
inductive Parallel {ε α β : Type} (fails : ε → ε → Prop) (related : α → β → Prop) :
    Except ε α → Except ε β → Prop where
  | ok {result : α} {other : β} (held : related result other) :
      Parallel fails related (.ok result) (.ok other)
  | error {failure other : ε} (held : fails failure other) :
      Parallel fails related (.error failure) (.error other)

/-- Two reports are alike: they say the same, at places that count as the same. -/
structure Diagnostic.Alike (places : Location → Location → Prop) (report other : Diagnostic) :
    Prop where
  code : report.code = other.code
  message : report.message = other.message
  notes : report.notes = other.notes
  location : Option.Rel places report.location other.location

theorem isSome_eq_of_rel {α β : Type} {related : α → β → Prop} {found : Option α}
    {otherFound : Option β} (rel : Option.Rel related found otherFound) :
    found.isSome = otherFound.isSome := by
  cases rel <;> rfl

theorem Diagnostic.Alike.eq {report other : Diagnostic} (alike : report.Alike Eq other) :
    report = other := by
  obtain ⟨code, message, location, notes⟩ := report
  obtain ⟨otherCode, otherMessage, otherLocation, otherNotes⟩ := other
  obtain ⟨rfl, rfl, rfl, places⟩ := alike
  cases places with
  | none => rfl
  | some same => cases same; rfl

/-- Two outcomes with reports that are alike or results that are related. -/
abbrev Likewise {α β : Type} (places : Location → Location → Prop) (related : α → β → Prop)
    (outcome : Except Diagnostic α) (other : Except Diagnostic β) : Prop :=
  Parallel (Diagnostic.Alike places) related outcome other

namespace Parallel

variable {ε α β γ δ : Type} {fails : ε → ε → Prop} {related : α → β → Prop} {after : γ → δ → Prop}
  {outcome : Except ε α} {other : Except ε β}

theorem mono (parallel : Parallel fails related outcome other) {wider : α → β → Prop}
    (implied : ∀ result second, related result second → wider result second) :
    Parallel fails wider outcome other := by
  cases parallel with
  | ok held => exact .ok (implied _ _ held)
  | error held => exact .error held

theorem mono_fails (parallel : Parallel fails related outcome other) {wider : ε → ε → Prop}
    (implied : ∀ failure second, fails failure second → wider failure second) :
    Parallel wider related outcome other := by
  cases parallel with
  | ok held => exact .ok held
  | error held => exact .error (implied _ _ held)

theorem trans {final : β → γ → Prop} {third : Except ε γ} {failsAfter : ε → ε → Prop}
    (parallel : Parallel fails related outcome other)
    (further : Parallel failsAfter final other third) :
    Parallel (fun failure last => ∃ middle, fails failure middle ∧ failsAfter middle last)
      (fun result last => ∃ middle, related result middle ∧ final middle last) outcome third := by
  cases parallel with
  | ok held =>
    cases further with
    | ok later => exact .ok ⟨_, held, later⟩
  | error held =>
    cases further with
    | error later => exact .error ⟨_, held, later⟩

theorem map (parallel : Parallel fails related outcome other) {f : α → γ} {g : β → δ}
    (implied : ∀ result second, related result second → after (f result) (g second)) :
    Parallel fails after (outcome.map f) (other.map g) := by
  cases parallel with
  | ok held => exact .ok (implied _ _ held)
  | error held => exact .error held

theorem map_right (parallel : Parallel fails related outcome other) (f : β → γ) :
    Parallel fails (fun result second => ∃ same, related result same ∧ second = f same) outcome
      (other.map f) := by
  cases parallel with
  | ok held => exact .ok ⟨_, held, rfl⟩
  | error held => exact .error held

theorem bind {rest : α → Except ε γ} {otherRest : β → Except ε δ}
    (parallel : Parallel fails related outcome other)
    (further : ∀ result second, related result second →
      Parallel fails after (rest result) (otherRest second)) :
    Parallel fails after (outcome >>= rest) (other >>= otherRest) := by
  cases parallel with
  | ok held => exact further _ _ held
  | error held => exact .error held

end Parallel

variable {places : Location → Location → Prop} {loc other : Location} {fault : Fault}

theorem alike_reportAt (place : places loc other) :
    (fault.reportAt loc).Alike places (fault.reportAt other) :=
  ⟨rfl, rfl, rfl, .some place⟩

theorem likewise_faultAt {α β : Type} {related : α → β → Prop} (place : places loc other) :
    Likewise places related (faultAt loc fault) (faultAt other fault) :=
  .error (alike_reportAt place)

/-- Two faults that say the same are reported alike. -/
theorem likewise_faultAt_of_message {α β : Type} {related : α → β → Prop} {otherFault : Fault}
    (code : fault.code = otherFault.code) (message : fault.message = otherFault.message)
    (notes : fault.notes = otherFault.notes) (place : places loc other) :
    Likewise places related (faultAt loc fault) (faultAt other otherFault) :=
  .error ⟨code, message, notes, .some place⟩

namespace Run

variable {S α β γ δ : Type} [Preorder S] {fits : S → Nat → Nat → Prop} {situation wider : S}
  {related : S → α → β → Prop} {after : S → γ → δ → Prop}

/-- From whatever supplies fit a situation or a wider one, two computations end likewise, and what
is left of the supplies fits a situation that is wider still. -/
def GoLikewise (places : Location → Location → Prop) (fits : S → Nat → Nat → Prop) (situation : S)
    (related : S → α → β → Prop) (run : Run α) (second : Run β) : Prop :=
  ∀ wider, situation ≤ wider → ∀ next otherNext, fits wider next otherNext →
    Likewise places (fun result otherResult => ∃ final, wider ≤ final ∧
      fits final result.2 otherResult.2 ∧ related final result.1 otherResult.1)
      (run next) (second otherNext)

theorem goLikewise_pure {value : α} {otherValue : β}
    (held : ∀ wider, situation ≤ wider → related wider value otherValue) :
    GoLikewise places fits situation related (pure value) (pure otherValue) :=
  fun wider wide _ _ fit => .ok ⟨wider, le_refl _, fit, held wider wide⟩

theorem goLikewise_lift {outcome : Except Diagnostic α} {second : Except Diagnostic β}
    (likewise : Likewise places (fun result otherResult => ∀ wider, situation ≤ wider →
      related wider result otherResult) outcome second) :
    GoLikewise places fits situation related (liftM outcome) (liftM second) := by
  intro wider wide next otherNext fit
  cases likewise with
  | ok held => exact .ok ⟨wider, le_refl _, fit, held wider wide⟩
  | error held => exact .error held

theorem goLikewise_faultAt (place : places loc other) :
    GoLikewise places fits situation related
      (liftM (faultAt loc fault : Except Diagnostic α))
      (liftM (faultAt other fault : Except Diagnostic β)) :=
  goLikewise_lift (likewise_faultAt place)

/-- Computations go likewise if their parts do, each from where the one before has come to. -/
theorem GoLikewise.bind {run : Run α} {second : Run β} {rest : α → Run γ} {otherRest : β → Run δ}
    (first : GoLikewise places fits situation related run second)
    (further : ∀ wider, situation ≤ wider → ∀ value otherValue, related wider value otherValue →
      GoLikewise places fits wider after (rest value) (otherRest otherValue)) :
    GoLikewise places fits situation after (run >>= rest) (second >>= otherRest) := by
  intro wider wide next otherNext fit
  have start := first wider wide next otherNext fit
  simp only [Bind.bind, StateT.bind]
  refine start.bind ?_
  rintro ⟨value, later⟩ ⟨otherValue, otherLater⟩ ⟨middle, further₁, fit, held⟩
  have ends := further middle (le_trans wide further₁) value otherValue held middle (le_refl _)
    later otherLater fit
  refine ends.mono ?_
  rintro result otherResult ⟨final, more, fit, held⟩
  exact ⟨final, le_trans further₁ more, fit, held⟩

end Run

end ExprLang
