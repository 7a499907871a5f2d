import ExprLang.Expr.Elaborate

/-!
# Computations with a supply of identities

How a `Run` that is composed of others succeeds, and what may be concluded of a `Run` from its
parts. `Run.Meets run next holds fails` says that `run`, started with the identity `next`, ends in
a result with `holds` or in a report with `fails`. Its rules follow the way a computation is put
together, so a proof about elaboration or evaluation names what each part guarantees.
-/

namespace ExprLang.Run

variable {α β : Type} {next later : Nat}

/-! ## Parts in order -/

theorem bind_of_ok {run : Run α} {rest : α → Run β} {value : α}
    (ran : run next = .ok (value, later)) : (run >>= rest) next = rest value later := by
  simp only [bind, StateT.bind, Except.bind, ran]

theorem bind_of_error {run : Run α} {rest : α → Run β} {report : Diagnostic}
    (failed : run next = .error report) : (run >>= rest) next = .error report := by
  simp only [bind, StateT.bind, Except.bind, failed]

/-- What follows a computation and cannot fail is a function of its outcome. -/
theorem bind_eq_map {run : Run α} {rest : α → Run β} {f : α → Nat → β × Nat}
    (follows : ∀ value later, rest value later = .ok (f value later)) :
    (run >>= rest) next = (run next).map fun made => f made.1 made.2 := by
  cases ran : run next with
  | error report => exact bind_of_error ran
  | ok made => exact (bind_of_ok ran).trans (follows made.1 made.2)

/-! ## Success -/

theorem bind_ok {run : Run α} {rest : α → Run β} {result : β} :
    (run >>= rest) next = .ok (result, later) ↔
      ∃ value middle, run next = .ok (value, middle) ∧ rest value middle = .ok (result, later) := by
  simp only [bind, StateT.bind, Except.bind]
  cases run next with
  | error report => simp
  | ok outcome => exact ⟨fun ok => ⟨_, _, rfl, ok⟩, fun ⟨_, _, same, ok⟩ => by cases same; exact ok⟩

theorem pure_ok {value result : α} :
    (pure value : Run α) next = .ok (result, later) ↔ value = result ∧ next = later := by
  have reduced : (pure value : Run α) next = .ok (value, next) := rfl
  simp [reduced]

theorem lift_ok {outcome : Except Diagnostic α} {result : α} :
    (liftM outcome : Run α) next = .ok (result, later) ↔ outcome = .ok result ∧ next = later := by
  cases outcome <;> simp [liftM, monadLift, MonadLift.monadLift]

theorem lift_bind_ok {outcome : Except Diagnostic α} {rest : α → Run β} {result : β} :
    ((liftM outcome : Run α) >>= rest) next = .ok (result, later) ↔
      ∃ value, outcome = .ok value ∧ rest value next = .ok (result, later) := by
  rw [bind_ok]
  constructor
  · rintro ⟨value, middle, lifted, ok⟩
    obtain ⟨same, rfl⟩ := lift_ok.mp lifted
    exact ⟨value, same, ok⟩
  · rintro ⟨value, same, ok⟩
    exact ⟨value, next, lift_ok.mpr ⟨same, rfl⟩, ok⟩

theorem freshId_ok {id : Nat} :
    (freshId : Run Nat) next = .ok (id, later) ↔ next = id ∧ next + 1 = later := by
  simp [freshId, modifyGet, MonadStateOf.modifyGet, StateT.modifyGet, pure, Except.pure]

@[simp] theorem faultAt_ne_ok {loc : Location} {fault : Fault} {result : α} :
    (liftM (faultAt loc fault) : Run α) next ≠ .ok (result, later) := by
  rw [ne_eq, lift_ok]
  rintro ⟨failed, -⟩
  cases failed

/-! ## What a computation guarantees -/

/-- From a given start, a computation ends in a result or a report as described. -/
def Meets (run : Run α) (next : Nat) (holds : α → Prop) (fails : Diagnostic → Prop) : Prop :=
  match run next with
  | .ok (result, _) => holds result
  | .error report => fails report

variable {holds : α → Prop} {after : β → Prop} {fails : Diagnostic → Prop}

theorem Meets.of_ok {run : Run α} {result : α} (meets : run.Meets next holds fails)
    (ok : run next = .ok (result, later)) : holds result := by
  unfold Meets at meets
  rwa [ok] at meets

theorem Meets.of_error {run : Run α} {report : Diagnostic} (meets : run.Meets next holds fails)
    (error : run next = .error report) : fails report := by
  unfold Meets at meets
  rwa [error] at meets

theorem meets_pure {value : α} (held : holds value) : (pure value : Run α).Meets next holds fails :=
  held

theorem meets_freshId : Meets freshId next (fun _ => True) fails :=
  trivial

theorem meets_lift {outcome : Except Diagnostic α}
    (ok : ∀ result, outcome = .ok result → holds result)
    (error : ∀ report, outcome = .error report → fails report) :
    (liftM outcome : Run α).Meets next holds fails := by
  cases outcome with
  | error report => exact error report rfl
  | ok result => exact ok result rfl

theorem meets_faultAt {loc : Location} {fault : Fault} (failed : fails (fault.reportAt loc)) :
    (liftM (faultAt loc fault) : Run α).Meets next holds fails :=
  failed

/-- A part that guarantees a property is followed by a part that starts where the first one ended,
with the result that it gave. -/
theorem Meets.bind {run : Run α} {rest : α → Run β} (first : run.Meets next holds fails)
    (second : ∀ value later, run next = .ok (value, later) → holds value →
      (rest value).Meets later after fails) : (run >>= rest).Meets next after fails := by
  cases outcome : run next with
  | error report =>
    unfold Meets
    rw [bind_of_error outcome]
    exact first.of_error outcome
  | ok done =>
    obtain ⟨value, later⟩ := done
    unfold Meets
    rw [bind_of_ok outcome]
    exact second value later outcome (first.of_ok outcome)

theorem Meets.mono {run : Run α} {weaker : α → Prop} {allowed : Diagnostic → Prop}
    (meets : run.Meets next holds fails) (ok : ∀ result, holds result → weaker result)
    (error : ∀ report, fails report → allowed report) : run.Meets next weaker allowed := by
  unfold Meets at meets ⊢
  split
  next result later done =>
    rw [done] at meets
    exact ok result meets
  next report failed =>
    rw [failed] at meets
    exact error report meets

/-- From every start, what a computation reports is as described. -/
abbrev FailsAs (run : Run α) (fails : Diagnostic → Prop) : Prop :=
  ∀ next, run.Meets next (fun _ => True) fails

theorem failsAs_pure {value : α} : (pure value : Run α).FailsAs fails :=
  fun _ => meets_pure trivial

theorem failsAs_freshId : FailsAs freshId fails :=
  fun _ => meets_freshId

theorem failsAs_lift {outcome : Except Diagnostic α}
    (error : ∀ report, outcome = .error report → fails report) :
    (liftM outcome : Run α).FailsAs fails :=
  fun _ => meets_lift (fun _ _ => trivial) error

theorem failsAs_faultAt {loc : Location} {fault : Fault} (failed : fails (fault.reportAt loc)) :
    (liftM (faultAt loc fault) : Run α).FailsAs fails :=
  fun _ => meets_faultAt failed

theorem FailsAs.bind {run : Run α} {rest : α → Run β} (first : run.FailsAs fails)
    (second : ∀ value, (rest value).FailsAs fails) : (run >>= rest).FailsAs fails :=
  fun next => (first next).bind fun value later _ _ => second value later

theorem FailsAs.mono {run : Run α} {allowed : Diagnostic → Prop} (faults : run.FailsAs fails)
    (error : ∀ report, fails report → allowed report) : run.FailsAs allowed :=
  fun next => (faults next).mono (fun _ _ => trivial) error

end ExprLang.Run
