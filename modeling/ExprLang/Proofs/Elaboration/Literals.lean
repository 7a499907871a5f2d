import ExprLang.Proofs.Elaboration.Failure
import ExprLang.Proofs.Elaboration.Limits
import ExprLang.Proofs.Elaboration.Rules
import ExprLang.Proofs.Registry.LeastBase

/-!
# Types of literals

The type of a list or map literal is made from the least upper bound of the types of its items. A
form has one type wherever it stands in a literal, since the supply decides nothing but identities
(`typedAt_of_elaborates`). So the order and the number of the items do not matter on a registry whose
host types all have `object` on their chain of bases, and the only literals without a type of elements
there are the empty ones (`common_base_least`).
-/

namespace ExprLang

variable {registry : Registry} {loc : Location} {report : Diagnostic}

/-! ## Reports about common bases -/

/-- Where an outcome is a report, it is not about a common base. -/
def NotOnBases {α : Type} (outcome : Except Diagnostic α) : Prop :=
  ∀ report, outcome = .error report → report.code ≠ .noCommonBaseType

theorem notOnBases_faultAt {α : Type} {fault : Fault} (other : fault.code ≠ .noCommonBaseType) :
    NotOnBases (faultAt loc fault : Except Diagnostic α) := by
  rintro report ⟨⟩
  exact other

namespace Typing

theorem notOnBases_binary {op : BinaryOp} {left right : Expr} :
    NotOnBases (binary registry loc op left right) := by
  unfold binary
  split
  · nofun
  · exact notOnBases_faultAt nofun

theorem notOnBases_nary {op : BinaryOp} {first : Expr} {rest : List Expr} :
    NotOnBases (nary registry loc op first rest) := by
  induction rest generalizing first with
  | nil => nofun
  | cons second rest ih =>
    intro report failed
    rw [nary, List.foldlM_cons] at failed
    cases step : binary registry loc op first second with
    | error other =>
      rw [step] at failed
      cases failed
      exact notOnBases_binary _ step
    | ok node =>
      rw [step] at failed
      exact ih report failed

/-- No rule for operators and members is about common bases. -/
theorem Operation.notOnBases {outcome : Except Diagnostic Expr}
    (rule : Operation registry loc outcome) : NotOnBases outcome := by
  cases rule with
  | unary op operand =>
    unfold Typing.unary
    split
    · nofun
    · exact notOnBases_faultAt nofun
  | binary op left right => exact notOnBases_binary
  | nary op first rest => exact notOnBases_nary
  | conditional condition yes no =>
    unfold Typing.conditional
    split
    · exact notOnBases_faultAt nofun
    · split
      · exact notOnBases_faultAt nofun
      · nofun
  | index target args =>
    unfold Typing.index
    dsimp only
    split
    · nofun
    · exact notOnBases_faultAt nofun
  | construct ty args =>
    unfold Typing.construct
    dsimp only
    split
    · nofun
    · exact notOnBases_faultAt nofun
  | typeIs target operand => nofun
  | typeAs target operand =>
    unfold Typing.typeAs
    split
    · exact notOnBases_faultAt nofun
    · nofun
  | convert target operand =>
    unfold Typing.convert
    split
    · nofun
    · exact notOnBases_faultAt nofun

theorem elementTy_eq_ok {types : List Ty} {ty : Ty} :
    elementTy registry loc types = .ok ty ↔ registry.commonBase? types = some ty := by
  unfold elementTy
  split
  next base found => simp [found]
  next missing => simp [missing, faultAt]

/-- The element type of a literal depends on the common base of the types alone. -/
theorem elementTy_of_commonBase?_eq {types others : List Ty} {ty : Ty} {place : Location}
    (same : registry.commonBase? types = registry.commonBase? others)
    (common : elementTy registry loc types = .ok ty) :
    elementTy registry place others = .ok ty := by
  rw [elementTy_eq_ok] at common ⊢
  rw [← same, common]

/-- An element type is not found only where there are no elements. -/
theorem eq_of_elementTy_error (grounded : registry.Grounded) {types : List Ty}
    (failed : elementTy registry loc types = .error report) :
    types = [] ∧ report = Fault.emptyCollection.reportAt loc := by
  by_cases empty : types = []
  · subst empty
    cases failed
    exact ⟨rfl, rfl⟩
  · obtain ⟨base, found⟩ := grounded.exists_commonBase? empty
    rw [elementTy_eq_ok.mpr found] at failed
    cases failed

theorem eq_of_list_error (grounded : registry.Grounded) {items : List Expr}
    (failed : list registry loc items = .error report) :
    items = [] ∧ report = Fault.emptyCollection.reportAt loc := by
  cases common : elementTy registry loc (items.map (·.ty)) with
  | ok element =>
    simp only [list, common, bind, Except.bind] at failed
    cases failed
  | error other =>
    simp only [list, common, bind, Except.bind] at failed
    cases failed
    obtain ⟨empty, same⟩ := eq_of_elementTy_error grounded common
    exact ⟨List.map_eq_nil_iff.mp empty, same⟩

theorem eq_of_map_error (grounded : registry.Grounded) {entries : List (Expr × Expr)}
    (failed : map registry loc entries = .error report) :
    entries = [] ∧ report = Fault.emptyCollection.reportAt loc := by
  cases commonKey : elementTy registry loc (entries.map (·.1.ty)) with
  | error other =>
    simp only [map, commonKey, bind, Except.bind] at failed
    cases failed
    obtain ⟨empty, same⟩ := eq_of_elementTy_error grounded commonKey
    exact ⟨List.map_eq_nil_iff.mp empty, same⟩
  | ok key =>
    cases commonValue : elementTy registry loc (entries.map (·.2.ty)) with
    | error other =>
      simp only [map, commonKey, commonValue, bind, Except.bind] at failed
      cases failed
      obtain ⟨empty, same⟩ := eq_of_elementTy_error grounded commonValue
      exact ⟨List.map_eq_nil_iff.mp empty, same⟩
    | ok value =>
      simp only [map, commonKey, commonValue, bind, Except.bind] at failed
      cases failed

end Typing

namespace Elaborator

variable {elaborator : Elaborator} {scope : Scope} {depth next : Nat} {form : Form}
  {forms others : List Form} {types : List Ty} {ty : Ty}

theorem ne_of_isSyntactic (syntactic : report.IsSyntactic) : report.code ≠ .noCommonBaseType := by
  intro code
  have kind := syntactic.1
  rw [Diagnostic.kind, code] at kind
  cases kind

theorem eq_nil_of_pairs {α : Type} {members : List α} (even : members.length % 2 = 0)
    (none : pairs members = []) : members = [] := by
  refine List.eq_nil_iff_forall_not_mem.mpr fun member belongs => ?_
  have paired := mem_pairs_of_even even belongs
  rw [none] at paired
  cases paired

/-- A rule that is broken is about a common base only at an empty literal. -/
theorem Breaks.eq_of_noCommonBase (grounded : elaborator.registry.Grounded)
    (breaks : Breaks elaborator scope depth form report) (code : report.code = .noCommonBaseType) :
    ∃ bracket loc, bracket ≠ .paren ∧ form = .combo bracket [] loc ∧
      report = Fault.emptyCollection.reportAt loc := by
  cases breaks with
  | deep exceeds => cases code
  | @shape _ _ _ _ fault malformed =>
    have other : fault.code ≠ .noCommonBaseType := by
      cases fault <;> first | exact malformed.elim | nofun
    exact absurd code other
  | atom failed => exact absurd code (ne_of_isSyntactic (isSyntactic_of_atom failed))
  | typeName belongs failed => exact absurd code (ne_of_isSyntactic (isSyntactic_of_typeName failed))
  | @paramList _ _ _ next _ belongs failed =>
    exact absurd code (ne_of_isSyntactic ((paramList_failsAs next).of_error failed))
  | operation rule failed => exact absurd code (rule.notOnBases _ failed)
  | @list forms loc _ _ _ _ parts failed =>
    obtain ⟨rfl, same⟩ := Typing.eq_of_list_error grounded failed
    have none : forms = [] := List.length_eq_zero_iff.mp parts.length_eq.symm
    exact ⟨.square, loc, nofun, by rw [none], same⟩
  | @map forms loc _ _ exprs _ paired parts failed =>
    obtain ⟨unpaired, same⟩ := Typing.eq_of_map_error grounded failed
    have exprs_nil : exprs = [] := eq_nil_of_pairs (by rwa [parts.length_eq]) unpaired
    subst exprs_nil
    have none : forms = [] := List.length_eq_zero_iff.mp parts.length_eq.symm
    exact ⟨.curly, loc, nofun, by rw [none], same⟩

/-! ## One type for each form -/

/-- In a scope and at a depth, a form elaborates to an expression of a type from every supply. -/
def TypedAt (elaborator : Elaborator) (scope : Scope) (depth : Nat) (form : Form) (ty : Ty) : Prop :=
  ∀ start, ∃ expr later, Elaborates elaborator scope depth form start expr later ∧ expr.ty = ty

/-- A form that elaborates has the same type from every other supply: nothing but the identities in
it depends on where they are drawn from. -/
theorem typedAt_of_elaborates {later : Nat} {expr : Expr} (below : scope.Below next)
    (made : Elaborates elaborator scope depth form next expr later) :
    TypedAt elaborator scope depth form expr.ty := by
  intro start
  have within : ¬ TooDeep (elaborator.elaborateAt scope depth form next) := by
    rintro ⟨report, failed, -⟩
    rw [made.ok] at failed
    cases failed
  have same : elaborator.elaborateAt (scope.rename (renumber next start)) depth form start = _ :=
    elaborateAt_withLimit (Nat.le_refl _) (renumber_drawn next start) within
  rw [rename_renumber below, made.ok] at same
  exact ⟨_, _, elaborates_of_ok same, Expr.ty_rename _ _⟩

theorem TypedAt.unique {other : Ty} (here : TypedAt elaborator scope depth form ty)
    (there : TypedAt elaborator scope depth form other) : ty = other := by
  obtain ⟨expr, later, made, rfl⟩ := here 0
  obtain ⟨_, _, madeToo, rfl⟩ := there 0
  have same := made.ok.symm.trans madeToo.ok
  cases same
  rfl

theorem forall₂_typedAt {later : Nat} {exprs : List Expr} (below : scope.Below next)
    (made : ElaboratesAll elaborator scope depth forms next exprs later) :
    List.Forall₂ (TypedAt elaborator scope depth) forms (exprs.map (·.ty)) := by
  induction forms generalizing next exprs with
  | nil =>
    cases made
    exact .nil
  | cons form forms ih =>
    cases made with
    | cons first rest =>
      exact .cons (typedAt_of_elaborates below first) (ih (below.mono first.next_le) rest)

theorem elaboratesAll_of_typedAt (typed : List.Forall₂ (TypedAt elaborator scope depth) forms types)
    (start : Nat) :
    ∃ exprs later, ElaboratesAll elaborator scope depth forms start exprs later ∧
      exprs.map (·.ty) = types := by
  induction typed generalizing start with
  | nil => exact ⟨[], start, .nil, rfl⟩
  | cons first _ ih =>
    obtain ⟨expr, middle, made, rfl⟩ := first start
    obtain ⟨exprs, later, madeAll, rfl⟩ := ih middle
    exact ⟨expr :: exprs, later, .cons made madeAll, rfl⟩

/-- The types of forms are the types that the forms have. -/
theorem mem_types_iff (typed : List.Forall₂ (TypedAt elaborator scope depth) forms types) :
    ty ∈ types ↔ ∃ form ∈ forms, TypedAt elaborator scope depth form ty := by
  induction typed with
  | nil => simp
  | @cons form first forms types here _ ih =>
    have isFirst : ty = first ↔ TypedAt elaborator scope depth form ty :=
      ⟨fun same => same ▸ here, fun there => there.unique here⟩
    simp [ih, isFirst]

/-- Forms that each have a type have a list of types. -/
theorem exists_types (each : ∀ form ∈ forms, ∃ ty, TypedAt elaborator scope depth form ty) :
    ∃ types, List.Forall₂ (TypedAt elaborator scope depth) forms types := by
  induction forms with
  | nil => exact ⟨[], .nil⟩
  | cons form forms ih =>
    rw [List.forall_mem_cons] at each
    obtain ⟨ty, here⟩ := each.1
    obtain ⟨types, rest⟩ := ih each.2
    exact ⟨ty :: types, .cons here rest⟩

theorem exists_typedAt (typed : List.Forall₂ (TypedAt elaborator scope depth) forms types) :
    ∀ form ∈ forms, ∃ ty, TypedAt elaborator scope depth form ty := by
  induction typed with
  | nil => nofun
  | cons here _ ih => exact List.forall_mem_cons.mpr ⟨⟨_, here⟩, ih⟩

/-- Forms that are the same but for their order and number have the same types. -/
theorem mem_types_of_same {otherTypes : List Ty}
    (typed : List.Forall₂ (TypedAt elaborator scope depth) forms types)
    (otherTyped : List.Forall₂ (TypedAt elaborator scope depth) others otherTypes)
    (same : ∀ form, form ∈ forms ↔ form ∈ others) (ty : Ty) : ty ∈ types ↔ ty ∈ otherTypes := by
  rw [mem_types_iff typed, mem_types_iff otherTyped]
  exact exists_congr fun form => and_congr_left fun _ => same form

/-! ## Literals -/

/-- In a scope, a form elaborates to an expression of a type. -/
def HasType (elaborator : Elaborator) (scope : Scope) (form : Form) (next : Nat) (ty : Ty) : Prop :=
  ∃ expr later, elaborator.elaborate scope form next = .ok (expr, later) ∧ expr.ty = ty

variable {loc place : Location}

/-- A list literal has the type that it has with its items in any other order and number. -/
theorem HasType.list_of_same (grounded : elaborator.registry.Grounded) (below : scope.Below next)
    (same : ∀ form, form ∈ forms ↔ form ∈ others)
    (typed : HasType elaborator scope (.combo .square forms loc) next ty) :
    HasType elaborator scope (.combo .square others place) next ty := by
  obtain ⟨expr, later, ok, rfl⟩ := typed
  cases elaborates_of_ok ok with
  | list shallow parts rule =>
    obtain ⟨element, common, rfl⟩ := Typing.eq_of_list rule
    have here := forall₂_typedAt below parts
    obtain ⟨types, there⟩ := exists_types fun form belongs =>
      exists_typedAt here form ((same form).mpr belongs)
    obtain ⟨exprs, last, made, rfl⟩ := elaboratesAll_of_typedAt there next
    have common : Typing.elementTy elaborator.registry place (exprs.map (·.ty)) = .ok element :=
      Typing.elementTy_of_commonBase?_eq
        (grounded.commonBase?_eq (mem_types_of_same here there same)) common
    have rule : Typing.list elaborator.registry place exprs =
        .ok (.list ⟨.list element, place⟩ element exprs) := by
      rw [Typing.list, common]
      rfl
    exact ⟨_, last, (Elaborates.list shallow made rule).ok, rfl⟩

/-- A map literal has the type that it has with its entries in any other order and number. -/
theorem HasType.map_of_same (grounded : elaborator.registry.Grounded) (below : scope.Below next)
    (parity : forms.length % 2 = others.length % 2)
    (same : ∀ entry, entry ∈ pairs forms ↔ entry ∈ pairs others)
    (typed : HasType elaborator scope (.combo .curly forms loc) next ty) :
    HasType elaborator scope (.combo .curly others place) next ty := by
  obtain ⟨expr, later, ok, rfl⟩ := typed
  cases elaborates_of_ok ok with
  | @map _ _ _ _ _ _ exprs _ shallow paired parts rule =>
    obtain ⟨key, value, commonKey, commonValue, rfl⟩ := Typing.eq_of_map rule
    have here := forall₂_typedAt below parts
    have among : others ⊆ forms := by
      intro form belongs
      have inPairs := mem_pairs_of_even (parity ▸ paired) belongs
      simp only [List.mem_append, List.mem_map] at inPairs
      rcases inPairs with ⟨entry, inOthers, rfl⟩ | ⟨entry, inOthers, rfl⟩
      · exact (mem_of_mem_pairs ((same entry).mpr inOthers)).1
      · exact (mem_of_mem_pairs ((same entry).mpr inOthers)).2
    obtain ⟨types, there⟩ := exists_types fun form belongs =>
      exists_typedAt here form (among belongs)
    obtain ⟨otherExprs, last, made, rfl⟩ := elaboratesAll_of_typedAt there next
    obtain ⟨keys, values⟩ := forall₂_pairs here
    obtain ⟨otherKeys, otherValues⟩ := forall₂_pairs there
    have sameSide (side : Form × Form → Form) (form : Form) :
        form ∈ (pairs forms).map side ↔ form ∈ (pairs others).map side := by
      simp only [List.mem_map, same]
    have sameKeys :
        ∀ ty, ty ∈ (pairs exprs).map (·.1.ty) ↔ ty ∈ (pairs otherExprs).map (·.1.ty) := by
      simpa only [pairs_map, List.map_map, Function.comp_def, Prod.map_fst] using
        mem_types_of_same keys otherKeys (sameSide (·.1))
    have sameValues :
        ∀ ty, ty ∈ (pairs exprs).map (·.2.ty) ↔ ty ∈ (pairs otherExprs).map (·.2.ty) := by
      simpa only [pairs_map, List.map_map, Function.comp_def, Prod.map_snd] using
        mem_types_of_same values otherValues (sameSide (·.2))
    have commonKey : Typing.elementTy elaborator.registry place
        ((pairs otherExprs).map (·.1.ty)) = .ok key :=
      Typing.elementTy_of_commonBase?_eq (grounded.commonBase?_eq sameKeys) commonKey
    have commonValue : Typing.elementTy elaborator.registry place
        ((pairs otherExprs).map (·.2.ty)) = .ok value :=
      Typing.elementTy_of_commonBase?_eq (grounded.commonBase?_eq sameValues) commonValue
    have rule : Typing.map elaborator.registry place (pairs otherExprs) =
        .ok (.map ⟨.map key value, place⟩ key value (pairs otherExprs)) := by
      rw [Typing.map, commonKey]
      simp only [bind, Except.bind]
      rw [commonValue]
      rfl
    exact ⟨_, last, (Elaborates.map shallow (parity ▸ paired) made rule).ok, rfl⟩

/-- **Common bases are least upper bounds.** On a registry whose host types all have `object` on
their chain of bases, every list of types but the empty one has a common base: a type that all of
them are assignable to, that is assignable to every other such type, and that is the only one with
these properties. It depends on which types are in the list, not on their order or number. So the type
of a literal depends on which items or entries it has, and the report that there is no common base is
given for an empty literal only, at its place. -/
theorem common_base_least (elaborator : Elaborator) (grounded : elaborator.registry.Grounded) :
    (∀ types, types ≠ [] → ∃ base, elaborator.registry.commonBase? types = some base ∧
      elaborator.registry.LeastBase types base ∧
      ∀ other, elaborator.registry.LeastBase types other → other = base) ∧
    (∀ types others, (∀ ty, ty ∈ types ↔ ty ∈ others) →
      elaborator.registry.commonBase? types = elaborator.registry.commonBase? others) ∧
    (∀ scope next, scope.Below next →
      (∀ items others loc place ty, (∀ form, form ∈ items ↔ form ∈ others) →
        (HasType elaborator scope (.combo .square items loc) next ty ↔
          HasType elaborator scope (.combo .square others place) next ty)) ∧
      ∀ forms others loc place ty, forms.length % 2 = others.length % 2 →
        (∀ entry, entry ∈ pairs forms ↔ entry ∈ pairs others) →
        (HasType elaborator scope (.combo .curly forms loc) next ty ↔
          HasType elaborator scope (.combo .curly others place) next ty)) ∧
    ∀ scope form next report, elaborator.elaborate scope form next = .error report →
      report.code = .noCommonBaseType →
        ∃ level bracket loc, form.AtLevel level (.combo bracket [] loc) ∧ bracket ≠ .paren ∧
          report = Fault.emptyCollection.reportAt loc := by
  refine ⟨fun types nonempty => ?_, fun types others => grounded.commonBase?_eq, ?_, ?_⟩
  · obtain ⟨base, found⟩ := grounded.exists_commonBase? nonempty
    have least := Registry.leastBase_of_commonBase? found
    exact ⟨base, found, least, fun other bound => bound.unique grounded least⟩
  · intro scope next below
    constructor
    · intro items others loc place ty same
      exact ⟨.list_of_same grounded below same,
        .list_of_same grounded below fun form => (same form).symm⟩
    · intro forms others loc place ty parity same
      exact ⟨.map_of_same grounded below parity same,
        .map_of_same grounded below parity.symm fun entry => (same entry).symm⟩
  · intro scope form next report failed code
    obtain ⟨level, part, inner, within, breaks⟩ := breaks_of_error failed
    obtain ⟨bracket, loc, curved, rfl, same⟩ := breaks.eq_of_noCommonBase grounded code
    exact ⟨level, bracket, loc, within, curved, same⟩

/-- Cats and dogs are animals, and a puppy is a dog. -/
def kennel : Elaborator where
  registry := ((({} : Registry).register { name := "Animal" }).register
    { name := "Cat", base := some (.named "Animal") }).register
    { name := "Dog", base := some (.named "Animal") } |>.register
    { name := "Puppy", base := some (.named "Dog") }

theorem grounded_kennel : kennel.registry.Grounded := by
  intro name declaration found
  have animal : kennel.registry.Chain (.named "Animal") .object := .single rfl
  have dog : kennel.registry.Chain (.named "Dog") .object := .head rfl animal
  have known : name ∈ kennel.registry.types.keys := by
    obtain ⟨before, behind, split, -⟩ := List.lookup_eq_some_iff.mp found
    simp [Table.keys, split]
  have names : kennel.registry.types.keys = ["Animal", "Cat", "Dog", "Puppy"] := by decide
  rw [names] at known
  simp only [List.mem_cons, List.not_mem_nil, or_false] at known
  rcases known with rfl | rfl | rfl | rfl
  · exact animal
  · exact .head rfl animal
  · exact dog
  · exact .head rfl dog

def pets : Scope where
  innermost := [⟨1, "cat", .named "Cat"⟩, ⟨2, "puppy", .named "Puppy"⟩]

def startAtom (text : String) : Form :=
  .atom text ⟨"<input>", 1, 1⟩

def startCombo (bracket : Bracket) (children : List Form) : Form :=
  .combo bracket children ⟨"<input>", 1, 1⟩

/-- A cat and a puppy are animals, in whichever order a list or a map has them. A list of nothing has
no type of elements. -/
theorem common_base_least_kennel :
    (∃ base, kennel.registry.commonBase? [.named "Cat", .named "Puppy"] = some base ∧
      kennel.registry.LeastBase [.named "Cat", .named "Puppy"] base) ∧
      HasType kennel pets
        (startCombo .square [startAtom "puppy", startAtom "cat", startAtom "puppy"]) 3
        (.list (.named "Animal")) ∧
      HasType kennel pets
        (startCombo .curly [startAtom "2", startAtom "puppy", startAtom "1", startAtom "cat"]) 3
        (.map .int (.named "Animal")) ∧
      ∃ level bracket loc,
        (startCombo .square [startCombo .square []]).AtLevel level (.combo bracket [] loc) ∧
        bracket ≠ .paren := by
  obtain ⟨exist, -, literals, failures⟩ := common_base_least kennel grounded_kennel
  have below : pets.Below 3 := by
    unfold Scope.Below
    decide
  obtain ⟨base, found, least, -⟩ := exist [.named "Cat", .named "Puppy"] (by simp)
  have cats : HasType kennel pets (startCombo .square [startAtom "cat", startAtom "puppy"]) 3
      (.list (.named "Animal")) := ⟨_, 3, rfl, rfl⟩
  have entries : HasType kennel pets
      (startCombo .curly [startAtom "1", startAtom "cat", startAtom "2", startAtom "puppy"]) 3
      (.map .int (.named "Animal")) := ⟨_, 3, rfl, rfl⟩
  obtain ⟨level, bracket, loc, within, curved, -⟩ := failures pets
    (startCombo .square [startCombo .square []]) 3
    (Fault.emptyCollection.reportAt ⟨"<input>", 1, 1⟩) rfl rfl
  refine ⟨⟨base, found, least⟩, ?_, ?_, level, bracket, loc, within, curved⟩
  · refine ((literals pets 3 below).1 _ _ _ _ _ fun form => ?_).mp cats
    simp only [List.mem_cons, List.not_mem_nil, or_false]
    tauto
  · have swapped := (literals pets 3 below).2
      [startAtom "1", startAtom "cat", startAtom "2", startAtom "puppy"]
      [startAtom "2", startAtom "puppy", startAtom "1", startAtom "cat"]
      ⟨"<input>", 1, 1⟩ ⟨"<input>", 1, 1⟩ (.map .int (.named "Animal")) rfl
    refine (swapped fun entry => ?_).mp entries
    simp only [pairs, List.mem_cons, List.not_mem_nil, or_false]
    tauto

end Elaborator

end ExprLang
