import Mathlib.Data.List.Permutation
import ExprLang.Proofs.Elaboration.Faults
import ExprLang.Proofs.Elaboration.Renaming
import ExprLang.Proofs.Engine.Session
import ExprLang.Proofs.Form.Depth
import ExprLang.Proofs.Form.RoundTrip

/-!
# The limit on nesting

What the limit on nesting decides about elaboration. It cuts an elaboration off at a form that is
too many levels below the root (`CutOff`), and has no other influence: an elaboration that is not
cut off gives the same under every higher limit, whichever supply it draws identities from, up to
the identities that it draws (`tracks_elaborateAt`).
-/

namespace ExprLang

/-! ## Computations that agree unless one is cut off -/

namespace Run

variable {α β γ δ : Type}

/-- A computation is cut off with a certain report, or another computation that starts with other
identities gives the same: the result with the drawn identities renamed, or the same report. -/
def Tracks (cut : Diagnostic → Prop) (f : Nat → Nat) (g : α → β) (run : Run α) (other : Run β) :
    Prop :=
  ∀ next start, (∀ drawn, f (next + drawn) = start + drawn) →
    match run next with
    | .error report =>
      cut report ∨ (report.code ≠ .tooDeeplyNested ∧ other start = .error report)
    | .ok (value, later) =>
      ∃ drawn, later = next + drawn ∧ other start = .ok (g value, start + drawn)

variable {cut weaker : Diagnostic → Prop} {f : Nat → Nat} {g : α → β} {h : γ → δ}
  {run : Run α} {other : Run β}

theorem Tracks.mono (tracks : Tracks cut f g run other) (implied : ∀ report, cut report → weaker report) :
    Tracks weaker f g run other := by
  intro next start renamed
  have outcome := tracks next start renamed
  cases result : run next with
  | error report =>
    rw [result] at outcome
    exact outcome.imp_left (implied report)
  | ok value =>
    rw [result] at outcome
    exact outcome

theorem tracks_pure {value : α} : Tracks cut f g (pure value) (pure (g value)) :=
  fun _ _ _ => ⟨0, rfl, rfl⟩

theorem tracks_freshId : Tracks cut f f freshId freshId := by
  intro next start renamed
  refine ⟨1, rfl, ?_⟩
  rw [show f next = start from renamed 0]
  rfl

theorem tracks_lift {outcome : Except Diagnostic α} {mapped : Except Diagnostic β}
    (same : mapped = outcome.map g) (faults : StaticFaults outcome) :
    Tracks cut f g (liftM outcome) (liftM mapped) := by
  subst same
  intro next start renamed
  cases outcome with
  | error report => exact .inr ⟨(faults report rfl).2, rfl⟩
  | ok value => exact ⟨0, rfl, rfl⟩

theorem tracks_faultAt {loc : Location} {fault : Fault} (other : fault.code ≠ .tooDeeplyNested) :
    Tracks cut f g (liftM (faultAt loc fault)) (liftM (faultAt loc fault)) :=
  fun _ _ _ => .inr ⟨other, rfl⟩

/-- What is done one after the other agrees if each part does. -/
theorem Tracks.bind {rest : α → Run γ} {otherRest : β → Run δ} (first : Tracks cut f g run other)
    (second : ∀ value, Tracks cut f h (rest value) (otherRest (g value))) :
    Tracks cut f h (run >>= rest) (other >>= otherRest) := by
  intro next start renamed
  have outcome := first next start renamed
  simp only [Bind.bind, StateT.bind, Except.bind]
  cases result : run next with
  | error report =>
    rw [result] at outcome
    rcases outcome with isCut | ⟨code, same⟩
    · exact .inl isCut
    · exact .inr ⟨code, by rw [same]⟩
  | ok done =>
    obtain ⟨value, later⟩ := done
    rw [result] at outcome
    obtain ⟨drawn, rfl, same⟩ := outcome
    rw [same]
    have further := second value (next + drawn) (start + drawn) fun more => by
      rw [Nat.add_assoc, renamed, Nat.add_assoc]
    dsimp only
    cases last : rest value (next + drawn) with
    | error report =>
      rw [last] at further
      exact further
    | ok done =>
      rw [last] at further
      obtain ⟨more, later, same⟩ := further
      exact ⟨drawn + more, by rw [later, Nat.add_assoc], by rw [same, Nat.add_assoc]⟩

end Run

namespace Elaborator

variable {elaborator : Elaborator} {limit : Nat} {f : Nat → Nat} {scope : Scope} {depth : Nat}
  {cut : Diagnostic → Prop}

/-- The report says that a form is too many levels below a root at a depth. -/
def CutOff (elaborator : Elaborator) (depth : Nat) (root : Form) (report : Diagnostic) : Prop :=
  ∃ form level, root.AtLevel level form ∧ elaborator.maxDepth < depth + level ∧
    report = (Fault.expressionTooDeep elaborator.maxDepth).reportAt form.loc

/-- What is too deep below a child is too deep below its parent. -/
theorem CutOff.of_child {bracket : Bracket} {children : List Form} {loc : Location} {child : Form}
    {report : Diagnostic} (belongs : child ∈ children)
    (isCut : CutOff elaborator (depth + 1) child report) :
    CutOff elaborator depth (.combo bracket children loc) report := by
  obtain ⟨form, level, below, deep, same⟩ := isCut
  exact ⟨form, level + 1, .child belongs below, by omega, same⟩

abbrev withLimit (elaborator : Elaborator) (limit : Nat) : Elaborator :=
  { elaborator with maxDepth := limit }

theorem typeName_withLimit (form : Form) :
    (elaborator.withLimit limit).typeName form = elaborator.typeName form := by
  cases form <;> rfl

theorem atom_rename (text : String) (loc : Location) :
    atom (scope.rename f) text loc = (atom scope text loc).map (Expr.rename f) := by
  unfold atom
  rw [Scope.lookup_rename]
  split
  · rfl
  · rfl
  · cases scope.lookup text <;> rfl

theorem tracks_typeName (form : Form) :
    Run.Tracks cut f id (liftM (elaborator.typeName form))
      (liftM ((elaborator.withLimit limit).typeName form)) := by
  refine Run.tracks_lift ?_ staticFaults_typeName
  rw [typeName_withLimit]
  cases elaborator.typeName form <;> rfl

theorem tracks_param (form : Form) :
    Run.Tracks cut f (Prod.map (·.rename f) (·.rename f)) (elaborator.param scope form)
      ((elaborator.withLimit limit).param (scope.rename f) form) := by
  unfold param
  split
  next tyForm nameForm loc =>
    refine (tracks_typeName tyForm).bind fun ty => ?_
    cases nameForm with
    | combo bracket children nameLoc => exact Run.tracks_faultAt nofun
    | atom name nameLoc =>
      dsimp only
      rw [Scope.local?_rename, Option.isSome_map]
      split
      · exact Run.tracks_faultAt nofun
      · refine Run.tracks_freshId.bind fun id => ?_
        rw [Scope.define_rename]
        exact Run.tracks_pure
  · exact Run.tracks_faultAt nofun

theorem tracks_params (forms : List Form) (scope : Scope) :
    Run.Tracks cut f (Prod.map (List.map (·.rename f)) (·.rename f)) (elaborator.params scope forms)
      ((elaborator.withLimit limit).params (scope.rename f) forms) := by
  induction forms generalizing scope with
  | nil => exact Run.tracks_pure
  | cons form rest ih =>
    exact (tracks_param form).bind fun first => (ih first.2).bind fun more => Run.tracks_pure

theorem tracks_paramList (form : Form) :
    Run.Tracks cut f (Prod.map (List.map (·.rename f)) (·.rename f))
      (elaborator.paramList scope form)
      ((elaborator.withLimit limit).paramList (scope.rename f) form) := by
  unfold paramList
  split
  · exact tracks_params _ scope.push
  · exact Run.tracks_faultAt nofun

/-! ## Forms -/

/-- What an elaboration has in common with one in a renamed scope under a higher limit. -/
abbrev TracksForm (elaborator : Elaborator) (limit : Nat) (f : Nat → Nat) (scope : Scope)
    (depth : Nat) (form : Form) : Prop :=
  Run.Tracks (CutOff elaborator depth form) f (Expr.rename f) (elaborator.elaborateAt scope depth form)
    ((elaborator.withLimit limit).elaborateAt (scope.rename f) depth form)

abbrev TracksForms (elaborator : Elaborator) (limit : Nat) (f : Nat → Nat) (scope : Scope)
    (depth : Nat) (forms : List Form) : Prop :=
  Run.Tracks (fun report => ∃ form ∈ forms, CutOff elaborator depth form report) f
    (List.map (Expr.rename f)) (elaborator.elaborateAll scope depth forms)
    ((elaborator.withLimit limit).elaborateAll (scope.rename f) depth forms)

section Children

variable {bracket : Bracket} {children : List Form} {loc : Location}

/-- A child is cut off only where its parent is. -/
theorem TracksForm.inside {child : Form} (tracks : TracksForm elaborator limit f scope (depth + 1) child)
    (belongs : child ∈ children) :
    Run.Tracks (CutOff elaborator depth (.combo bracket children loc)) f (Expr.rename f)
      (elaborator.elaborateAt scope (depth + 1) child)
      ((elaborator.withLimit limit).elaborateAt (scope.rename f) (depth + 1) child) :=
  tracks.mono fun _ => .of_child belongs

theorem TracksForms.inside {forms : List Form}
    (tracks : TracksForms elaborator limit f scope (depth + 1) forms) (belong : forms ⊆ children) :
    Run.Tracks (CutOff elaborator depth (.combo bracket children loc)) f (List.map (Expr.rename f))
      (elaborator.elaborateAll scope (depth + 1) forms)
      ((elaborator.withLimit limit).elaborateAll (scope.rename f) (depth + 1) forms) :=
  tracks.mono fun _ ⟨_, belongs, isCut⟩ => .of_child (belong belongs) isCut

end Children

/-- A form that is too deep is cut off there. -/
theorem tracks_of_deep (deep : elaborator.maxDepth < depth) (form : Form) :
    TracksForm elaborator limit f scope depth form := by
  have faults : elaborator.elaborateAt scope depth form =
      liftM (faultAt form.loc (.expressionTooDeep elaborator.maxDepth) : Except Diagnostic Expr) := by
    cases form <;> rw [elaborateAt, if_pos deep] <;> rfl
  unfold TracksForm
  rw [faults]
  exact fun _ _ _ => .inl ⟨form, 0, .root, deep, rfl⟩

mutual

theorem tracks_head {name : String} {headLoc loc : Location} {operands : List Form} {scope : Scope}
    {depth : Nat} (shallow : depth ≤ elaborator.maxDepth) (higher : elaborator.maxDepth ≤ limit) :
    TracksForm elaborator limit f scope depth
      (.combo .paren (.atom name headLoc :: operands) loc) := by
  unfold TracksForm elaborateAt
  rw [if_neg (Nat.not_lt.mpr shallow), if_neg (Nat.not_lt.mpr (Nat.le_trans shallow higher))]
  cases head : elaborator.heads.get? name with
  | none =>
    simp only [head]
    exact Run.tracks_faultAt nofun
  | some kind =>
    simp only [head]
    cases kind with
    | unary op =>
      match operands with
      | [form] =>
        refine (tracks_elaborateAt form higher).inside (by simp) |>.bind fun operand => ?_
        exact Run.tracks_lift (Typing.unary_rename ..) staticFaults_unary
      | [] | _ :: _ :: _ => exact Run.tracks_faultAt nofun
    | binary op =>
      match operands with
      | [left, right] =>
        refine (tracks_elaborateAt left higher).inside (by simp) |>.bind fun leftExpr => ?_
        refine (tracks_elaborateAt right higher).inside (by simp) |>.bind fun rightExpr => ?_
        exact Run.tracks_lift (Typing.binary_rename ..) staticFaults_binary
      | [] | [_] | _ :: _ :: _ :: _ => exact Run.tracks_faultAt nofun
    | nary op =>
      match operands with
      | first :: rest =>
        refine (tracks_elaborateAt first higher).inside (by simp) |>.bind fun firstExpr => ?_
        refine (tracks_elaborateAll rest higher).inside (by simp) |>.bind fun exprs => ?_
        exact Run.tracks_lift (Typing.nary_rename ..) staticFaults_nary
      | [] => exact Run.tracks_faultAt nofun
    | conditional =>
      match operands with
      | [condition, yes, no] =>
        refine (tracks_elaborateAt condition higher).inside (by simp) |>.bind fun test => ?_
        refine (tracks_elaborateAt yes higher).inside (by simp) |>.bind fun yesExpr => ?_
        refine (tracks_elaborateAt no higher).inside (by simp) |>.bind fun noExpr => ?_
        exact Run.tracks_lift (Typing.conditional_rename ..) staticFaults_conditional
      | [] | [_] | [_, _] | _ :: _ :: _ :: _ :: _ => exact Run.tracks_faultAt nofun
    | index =>
      match operands with
      | target :: args =>
        refine (tracks_elaborateAt target higher).inside (by simp) |>.bind fun targetExpr => ?_
        refine (tracks_elaborateAll args higher).inside (by simp) |>.bind fun exprs => ?_
        exact Run.tracks_lift (Typing.index_rename ..) staticFaults_index
      | [] => exact Run.tracks_faultAt nofun
    | typeIs =>
      match operands with
      | [tyForm, form] =>
        refine (tracks_typeName tyForm).bind fun target => ?_
        refine (tracks_elaborateAt form higher).inside (by simp) |>.bind fun operand => ?_
        exact Run.tracks_lift rfl staticFaults_ok
      | [] | [_] | _ :: _ :: _ :: _ => exact Run.tracks_faultAt nofun
    | typeAs =>
      match operands with
      | [tyForm, form] =>
        refine (tracks_typeName tyForm).bind fun target => ?_
        refine (tracks_elaborateAt form higher).inside (by simp) |>.bind fun operand => ?_
        exact Run.tracks_lift (Typing.typeAs_rename ..) staticFaults_typeAs
      | [] | [_] | _ :: _ :: _ :: _ => exact Run.tracks_faultAt nofun
    | cast =>
      match operands with
      | [tyForm, form] =>
        refine (tracks_typeName tyForm).bind fun target => ?_
        refine (tracks_elaborateAt form higher).inside (by simp) |>.bind fun operand => ?_
        exact Run.tracks_lift (Typing.convert_rename ..) staticFaults_convert
      | [] | [_] | _ :: _ :: _ :: _ => exact Run.tracks_faultAt nofun
    | typeOf =>
      match operands with
      | [tyForm] => exact (tracks_typeName tyForm).bind fun target => Run.tracks_pure
      | [] | _ :: _ :: _ => exact Run.tracks_faultAt nofun
    | defaultOf =>
      match operands with
      | [tyForm] => exact (tracks_typeName tyForm).bind fun target => Run.tracks_pure
      | [] | _ :: _ :: _ => exact Run.tracks_faultAt nofun
    | construct =>
      match operands with
      | tyForm :: args =>
        refine (tracks_typeName tyForm).bind fun ty => ?_
        refine (tracks_elaborateAll args higher).inside (by simp) |>.bind fun exprs => ?_
        exact Run.tracks_lift (Typing.construct_rename ..) staticFaults_construct
      | [] => exact Run.tracks_faultAt nofun
    | lambda =>
      match operands with
      | [params, body] =>
        refine (tracks_paramList params).bind fun declared => ?_
        refine (tracks_elaborateAt body higher).inside (by simp) |>.bind fun bodyExpr => ?_
        refine Run.tracks_freshId.bind fun id => ?_
        dsimp only [Prod.map]
        rw [Typing.lambda_rename]
        exact Run.tracks_pure
      | [] | [_] | _ :: _ :: _ :: _ => exact Run.tracks_faultAt nofun
termination_by structural operands

/-- Elaboration is cut off, or it is the same in a renamed scope under a higher limit. -/
theorem tracks_elaborateAt (form : Form) {scope : Scope} {depth : Nat}
    (higher : elaborator.maxDepth ≤ limit) : TracksForm elaborator limit f scope depth form := by
  by_cases deep : elaborator.maxDepth < depth
  · exact tracks_of_deep deep form
  have allowed : ¬ (elaborator.withLimit limit).maxDepth < depth := by
    dsimp only
    omega
  match form with
  | .atom text loc =>
    unfold TracksForm elaborateAt
    rw [if_neg deep, if_neg allowed]
    exact Run.tracks_lift (atom_rename text loc) staticFaults_atom
  | .combo .square items loc =>
    unfold TracksForm elaborateAt
    rw [if_neg deep, if_neg allowed]
    refine (tracks_elaborateAll items higher).inside (by simp) |>.bind fun exprs => ?_
    exact Run.tracks_lift (Typing.list_rename ..) staticFaults_list
  | .combo .curly forms loc =>
    unfold TracksForm elaborateAt
    rw [if_neg deep, if_neg allowed]
    dsimp only
    split
    · exact Run.tracks_faultAt nofun
    · refine (tracks_elaborateAll forms higher).inside (by simp) |>.bind fun exprs => ?_
      rw [pairs_map]
      exact Run.tracks_lift (Typing.map_rename ..) staticFaults_map
  | .combo .paren [] loc =>
    unfold TracksForm elaborateAt
    rw [if_neg deep, if_neg allowed]
    exact Run.tracks_faultAt nofun
  | .combo .paren (.combo .. :: _) loc =>
    unfold TracksForm elaborateAt
    rw [if_neg deep, if_neg allowed]
    exact Run.tracks_faultAt nofun
  | .combo .paren (.atom name headLoc :: operands) loc =>
    exact tracks_head (Nat.not_lt.mp deep) higher
termination_by structural form

theorem tracks_elaborateAll (forms : List Form) {scope : Scope} {depth : Nat}
    (higher : elaborator.maxDepth ≤ limit) : TracksForms elaborator limit f scope depth forms := by
  match forms with
  | [] => exact Run.tracks_pure
  | form :: forms =>
    refine ((tracks_elaborateAt form higher).mono fun report isCut =>
      ⟨form, List.mem_cons_self, isCut⟩).bind fun expr => ?_
    refine ((tracks_elaborateAll forms higher).mono fun report ⟨child, belongs, isCut⟩ =>
      ⟨child, List.mem_cons_of_mem _ belongs, isCut⟩).bind fun exprs => ?_
    exact Run.tracks_pure
termination_by structural forms

end

/-! ## What the limit decides -/

variable {form : Form} {next start : Nat}

/-- Elaboration reports too deep a nesting only of a form that is too many levels below the root. -/
theorem cutOff_of_tooDeep (deep : TooDeep (elaborator.elaborateAt scope depth form next)) :
    ∃ report, elaborator.elaborateAt scope depth form next = .error report ∧
      CutOff elaborator depth form report := by
  obtain ⟨report, failed, code⟩ := deep
  have outcome : TracksForm elaborator elaborator.maxDepth id scope depth form :=
    tracks_elaborateAt form (Nat.le_refl _)
  have here := outcome next next fun _ => rfl
  rw [failed] at here
  rcases here with isCut | ⟨other, -⟩
  · exact ⟨report, failed, isCut⟩
  · exact absurd code other

/-- Under a higher limit, in a renamed scope and from another supply, elaboration gives the same up
to the renaming. -/
theorem elaborateAt_withLimit (higher : elaborator.maxDepth ≤ limit)
    (renamed : ∀ drawn, f (next + drawn) = start + drawn)
    (within : ¬ TooDeep (elaborator.elaborateAt scope depth form next)) :
    (elaborator.withLimit limit).elaborateAt (scope.rename f) depth form start =
      (elaborator.elaborateAt scope depth form next).map fun made =>
        (made.1.rename f, start + (made.2 - next)) := by
  have tracks : TracksForm elaborator limit f scope depth form := tracks_elaborateAt form higher
  have outcome := tracks next start renamed
  cases made : elaborator.elaborateAt scope depth form next with
  | error report =>
    rw [made] at outcome
    rcases outcome with ⟨deep, level, -, -, same⟩ | ⟨-, same⟩
    · exact absurd ⟨report, made, by rw [same]; rfl⟩ within
    · exact same
  | ok result =>
    rw [made] at outcome
    obtain ⟨drawn, later, same⟩ := outcome
    rw [same, Except.map, later, Nat.add_sub_cancel_left]

/-- The renaming of the identities drawn from one supply to those drawn from another. -/
def renumber (next start id : Nat) : Nat :=
  if id < next then id else start + (id - next)

theorem renumber_drawn (next start drawn : Nat) :
    renumber next start (next + drawn) = start + drawn := by
  rw [renumber, if_neg (by omega), Nat.add_sub_cancel_left]

/-- Identities that were drawn before are not renamed. -/
theorem rename_renumber (below : scope.Below next) (start : Nat) :
    scope.rename (renumber next start) = scope := by
  have same (bindings : List Binding) (older : ∀ binding ∈ bindings, binding.id < next) :
      bindings.map (·.rename (renumber next start)) = bindings := by
    refine (List.map_congr_left fun binding belongs => ?_).trans (List.map_id bindings)
    rw [Binding.rename, renumber, if_pos (older binding belongs)]
    rfl
  have outer : scope.enclosing.map (List.map (·.rename (renumber next start))) =
      scope.enclosing := by
    refine (List.map_congr_left fun level belongs => ?_).trans (List.map_id scope.enclosing)
    refine same level fun binding inLevel => below binding ?_
    exact List.mem_append_right _ (List.mem_flatten.mpr ⟨level, belongs, inLevel⟩)
  rw [Scope.rename, outer, same _ fun binding belongs =>
    below binding (List.mem_append_left _ belongs)]

/-- Under a higher limit, from the same supply, elaboration gives the same. -/
theorem elaborateAt_withLimit_same (higher : elaborator.maxDepth ≤ limit)
    (within : ¬ TooDeep (elaborator.elaborateAt scope depth form next)) :
    (elaborator.withLimit limit).elaborateAt scope depth form next =
      elaborator.elaborateAt scope depth form next := by
  have same : (elaborator.withLimit limit).elaborateAt (scope.rename id) depth form next = _ :=
    elaborateAt_withLimit higher (fun _ => rfl) within
  rw [Scope.rename_id] at same
  rw [same]
  cases made : elaborator.elaborateAt scope depth form next with
  | error report => rfl
  | ok result =>
    have drawn : next ≤ result.2 := (elaborates_of_ok made).next_le
    rw [Except.map, Expr.rename_id, Nat.add_sub_cancel' drawn]

theorem elaborate_withLimit (higher : elaborator.maxDepth ≤ limit)
    (within : ¬ TooDeep (elaborator.elaborate scope form next)) :
    (elaborator.withLimit limit).elaborate scope form next =
      elaborator.elaborate scope form next :=
  elaborateAt_withLimit_same higher within

/-- **The limits on nesting.** What a reader read under a limit, an elaborator with that limit does
not find too deep. An elaborator finds a form too deep only if something in it is more levels below
its root than the limit. And under a higher limit, what is not too deep is read and elaborated to the
same, from another supply up to the identities that are drawn. -/
theorem limits_on_nesting (elaborator : Elaborator) (reader : Reader) :
    (reader.maxDepth = elaborator.maxDepth → ∀ text input form behind, Input.From text input →
      reader.readForm input = (.ok form, behind) →
        ∀ scope next, ¬ TooDeep (elaborator.elaborate scope form next)) ∧
    (∀ scope form next, TooDeep (elaborator.elaborate scope form next) →
      ∃ level deep, Form.AtLevel form level deep ∧ elaborator.maxDepth < level) ∧
    (∀ limit, reader.maxDepth ≤ limit →
      (∀ input, ¬ TooDeep (reader.readForm input).1 →
        (reader.withLimit limit).readForm input = reader.readForm input) ∧
      (∀ text, ¬ TooDeep (reader.readAll text) →
        (reader.withLimit limit).readAll text = reader.readAll text) ∧
      ∀ text, ¬ TooDeep (reader.readOnly text) →
        (reader.withLimit limit).readOnly text = reader.readOnly text) ∧
    ∀ limit, elaborator.maxDepth ≤ limit → ∀ scope form next,
      ¬ TooDeep (elaborator.elaborate scope form next) →
        (elaborator.withLimit limit).elaborate scope form next =
          elaborator.elaborate scope form next ∧
        ∀ start, scope.Below next → (elaborator.withLimit limit).elaborate scope form start =
          (elaborator.elaborate scope form next).map fun made =>
            (made.1.rename (renumber next start), start + (made.2 - next)) := by
  have reaches {scope : Scope} {form : Form} {next : Nat}
      (deep : TooDeep (elaborator.elaborate scope form next)) :
      ∃ level deep, Form.AtLevel form level deep ∧ elaborator.maxDepth < level := by
    obtain ⟨report, -, part, level, below, exceeds, -⟩ := cutOff_of_tooDeep deep
    exact ⟨level, part, below, by omega⟩
  refine ⟨?_, fun scope form next deep => reaches deep, ?_, ?_⟩
  · intro same text input form behind passed read scope next deep
    obtain ⟨level, part, below, exceeds⟩ := reaches deep
    have nests := (Reader.readable_of_readForm passed read).2
    have levels := below.le_nesting
    omega
  · intro limit higher
    exact ⟨fun input => Reader.readForm_withLimit higher input,
      fun text => Reader.readAll_withLimit higher text,
      fun text => Reader.readOnly_withLimit higher text⟩
  · intro limit higher scope form next within
    refine ⟨elaborate_withLimit higher within, fun start below => ?_⟩
    have same : (elaborator.withLimit limit).elaborateAt (scope.rename (renumber next start)) 0
        form start = _ := elaborateAt_withLimit higher (renumber_drawn next start) within
    rwa [rename_renumber below] at same

def nestedList : Form :=
  .combo .square [.combo .square [.atom "1" ⟨"<input>", 1, 3⟩] ⟨"<input>", 1, 2⟩] ⟨"<input>", 1, 1⟩

theorem readForm_nestedList : Reader.readForm { maxDepth := 2 } (.ofText "[[1]]") =
    (.ok nestedList, ⟨[], ⟨1, 6⟩, ⟨1, 6⟩⟩) := by
  cbv

/-- A literal that nests two levels is elaborated under a limit of two, and to the same under a limit
of three; under a limit of one, its innermost part is too deep. -/
theorem limits_on_nesting_nestedList :
    ¬ TooDeep (elaborate { maxDepth := 2 } {} nestedList 1) ∧
      elaborate { maxDepth := 3 } {} nestedList 1 = elaborate { maxDepth := 2 } {} nestedList 1 ∧
      ∃ level deep, Form.AtLevel nestedList level deep ∧ 1 < level := by
  obtain ⟨agree, -, -, monotone⟩ := limits_on_nesting { maxDepth := 2 } { maxDepth := 2 }
  have within := agree rfl _ _ _ _ .start readForm_nestedList {} 1
  obtain ⟨-, reaches, -⟩ := limits_on_nesting { maxDepth := 1 } {}
  refine ⟨within, (monotone 3 (by decide) _ _ _ within).1, reaches {} nestedList 1 ?_⟩
  exact ⟨_, rfl, rfl⟩

end Elaborator

theorem Engine.tooDeep_compileForm {engine : Engine} {form : Form} :
    TooDeep (engine.compileForm form) ↔
      TooDeep (engine.elaborator.elaborate engine.root form engine.supply) := by
  unfold TooDeep
  simp only [compileForm_eq, perform_eq, map_error]

end ExprLang
