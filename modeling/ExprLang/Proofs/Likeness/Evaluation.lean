import ExprLang.Eval.Evaluate
import ExprLang.Proofs.Likeness.Registry
import ExprLang.Proofs.Likeness.Run
import ExprLang.Proofs.Likeness.Value

/-!
# Evaluation of expressions that are alike

Expressions that are alike evaluate likewise in frames that are alike (`Setting.Alike.evaluate`),
and functions that are alike do the same with arguments that are alike (`Closure.call_likewise`):
they give values that are alike in a wider world, or fail with reports that are alike. The code of a
host may do what it likes as long as it does likewise with what is alike (`Callback.Likewise`).
-/

namespace ExprLang

variable {like : Likeness} {world wider : World} {view : View} {value other second : Value}
  {otherSecond : Value} {loc otherLoc : Location}

/-! ## Operators and conversions -/

/-- Two outcomes of an operator: values that are alike, or one fault. -/
abbrev Value.Outcomes (like : Likeness) (world : World) (outcome other : Except Fault Value) :
    Prop :=
  Parallel Eq (Value.Alike like world) outcome other

theorem outcomes_map_datum (outcome : Except Fault Datum) :
    Value.Outcomes like world (outcome.map .datum) (outcome.map .datum) := by
  cases outcome with
  | ok leaf => exact .ok .datum
  | error fault => exact .error rfl

namespace Value.Alike

theorem unary (alike : Alike like world value other) (op : UnaryOp) :
    Outcomes like world (op.apply value) (op.apply other) := by
  have inapplicable : op.inapplicable value = op.inapplicable other := by
    rw [UnaryOp.inapplicable, alike.typeName_eq, UnaryOp.inapplicable]
  cases alike with
  | @datum leaf =>
    unfold UnaryOp.apply
    dsimp only
    cases op.applyDatum leaf with
    | none => exact .error rfl
    | some outcome => exact outcomes_map_datum outcome
  | list | map | function | object => exact .error inapplicable

theorem binary (alike : Alike like world value other)
    (secondAlike : Alike like world second otherSecond) (op : BinaryOp) :
    Outcomes like world (op.apply value second) (op.apply other otherSecond) := by
  have inapplicable : op.inapplicable value second = op.inapplicable other otherSecond := by
    rw [BinaryOp.inapplicable, alike.typeName_eq, secondAlike.typeName_eq, BinaryOp.inapplicable]
  have equal := alike.equal_eq secondAlike
  have null := alike.isNull_eq
  cases op with
  | equal | notEqual =>
    simp only [BinaryOp.apply, equal]
    exact .ok .datum
  | coalesce =>
    simp only [BinaryOp.apply, null]
    split
    · exact .ok secondAlike
    · exact .ok alike
  | _ =>
    -- All other operators look at data only.
    cases alike with
    | @datum leaf =>
      cases secondAlike with
      | @datum secondLeaf =>
        simp only [BinaryOp.apply]
        split
        · exact outcomes_map_datum _
        · exact .error rfl
      | list | map | function | object => exact .error inapplicable
    | list | map | function | object => exact .error inapplicable

theorem isDecided_eq (alike : Alike like world value other) (op : BinaryOp) :
    op.isDecided value = op.isDecided other := by
  cases alike with
  | datum => rfl
  | list | map | function | object => cases op <;> rfl

variable {setting otherSetting : Setting}

theorem isInstance_eq (alike : Alike like world value other)
    (agree : setting.registry.Agree like otherSetting.registry) (target : Ty) :
    setting.isInstance value target = otherSetting.isInstance other target := by
  have known := @alike.known
  unfold Setting.isInstance
  rw [← alike.ty?_eq]
  cases shown : value.ty? with
  | none => rfl
  | some actual => exact agree.isAssignable_eq (known shown) target

theorem convert (alike : Alike like world value other)
    (agree : setting.registry.Agree like otherSetting.registry) (source target : Ty) :
    Outcomes like world (setting.convert value source target)
      (otherSetting.convert other source target) := by
  have numeric : Outcomes like world (Convert.numericValue value target)
      (Convert.numericValue other target) := by
    have text := alike.text_eq
    cases alike with
    | datum => exact outcomes_map_datum _
    | list | map | function | object =>
      unfold Convert.numericValue
      dsimp only
      rw [text]
      exact .error rfl
  unfold Setting.convert
  rw [← alike.ty?_eq]
  cases shown : value.ty? with
  | none =>
    dsimp only
    split
    · exact .error rfl
    · exact .ok .datum
  | some actual =>
    dsimp only
    rw [← agree.isAssignable_eq (alike.known shown)]
    split
    · exact numeric
    · split
      · exact .ok alike
      · exact .error rfl

end Value.Alike

/-! ## The code of a host -/

/-- Two callbacks do likewise: in every world in which what was drawn before the runs parted
corresponds to itself, they answer values that are alike, or fail with one message, where their
targets and arguments are alike. -/
def Callback.Likewise (like : Likeness) (older : Nat) (callback other : Callback) : Prop :=
  ∀ (world : World) (next otherNext : Nat) (target otherTarget : Value)
    (args otherArgs : List Value), World.below older ≤ world → world.Fits next otherNext →
    target.Alike like world otherTarget → List.Forall₂ (Value.Alike like world) args otherArgs →
    Parallel Eq (fun result otherResult => ∃ wider, world ≤ wider ∧
      wider.Fits result.2 otherResult.2 ∧ result.1.Alike like wider otherResult.1)
      (callback target args next) (other otherTarget otherArgs otherNext)

/-- The code of a host does likewise with itself: what it does shows in no way where something was
found or which identity something has. -/
def Host.Inert (like : Likeness) (older : Nat) (host : Host) : Prop :=
  ∀ callback ∈ host.callbacks, Callback.Likewise like older callback callback

theorem Host.Inert.callback {older : Nat} {host : Host}
    (inert : host.Inert like older) (key : Nat) :
    Callback.Likewise like older (host.callback key) (host.callback key) := by
  refine callback_of_forall (fun callback => Callback.Likewise like older callback callback) ?_ inert
    key
  exact fun _ _ _ _ _ _ _ _ _ _ _ => .error rfl

/-- Two settings in which expressions that are alike mean the same. -/
structure Setting.Alike (like : Likeness) (older : Nat) (setting other : Setting) : Prop where
  kept : like.registries setting.registry other.registry
  registry : setting.registry.Agree like other.registry
  host : ∀ key, like.keys key →
    Callback.Likewise like older (setting.host.callback key) (other.host.callback key)

/-! ## Expressions -/

/-- Two computations give values that are alike in a world that is wider, or fail alike. -/
abbrev Run.Evaluate {α : Type} (like : Likeness) (world : World) (related : World → α → α → Prop)
    (run other : Run α) : Prop :=
  Run.GoLikewise like.places World.Fits world related run other

theorem rel_widen {found otherFound : Option Value}
    (rel : Option.Rel (Value.Alike like world) found otherFound) (wide : world ≤ wider) :
    Option.Rel (Value.Alike like wider) found otherFound := by
  cases rel with
  | none => exact .none
  | some alike => exact .some (alike.mono wide)

theorem Frame.Alike.mono {frame otherFrame : Frame Value}
    (frames : frame.Alike like world view otherFrame) (wide : world ≤ wider) :
    frame.Alike like wider view otherFrame where
  slots binding second pair := rel_widen (frames.slots binding second pair) wide
  functions lambda second pair := wide.2 _ _ (frames.functions lambda second pair)

namespace Setting

variable {setting otherSetting : Setting} {frame otherFrame : Frame Value} {older : Nat}
  {args otherArgs : List Value}

theorem evaluate_value (alike : value.Alike like world other) :
    Run.Evaluate like world (Value.Alike like) (pure value) (pure other) :=
  Run.goLikewise_pure fun _ wide => alike.mono wide

theorem evaluate_locate {outcome otherOutcome : Except Fault Value}
    (place : like.places loc otherLoc) (outcomes : Value.Outcomes like world outcome otherOutcome) :
    Run.Evaluate like world (Value.Alike like) (liftM (locate loc outcome))
      (liftM (locate otherLoc otherOutcome)) := by
  cases outcomes with
  | ok alike => exact evaluate_value alike
  | error same =>
    subst same
    exact Run.goLikewise_faultAt place

/-- Two new lists, maps or objects correspond. -/
theorem evaluate_freshId :
    Run.Evaluate like world (fun wider => wider.identities) freshId freshId := by
  intro wider wide next otherNext fits
  obtain ⟨final, further, fit, pair⟩ := fits.draw
  exact .ok ⟨final, further, fit, pair⟩

theorem Alike.callHost (settings : setting.Alike like older otherSetting)
    (old : World.below older ≤ world) {key : Nat} (known : like.keys key)
    (place : like.places loc otherLoc) (alike : value.Alike like world other)
    (parts : List.Forall₂ (Value.Alike like world) args otherArgs) :
    Run.Evaluate like world (Value.Alike like) (setting.callHost loc key value args)
      (otherSetting.callHost otherLoc key other otherArgs) := by
  intro wider wide next otherNext fits
  have ends := settings.host key known wider next otherNext value other args otherArgs
    (le_trans old wide) fits (alike.mono wide) (parts.imp fun _ _ part => part.mono wide)
  unfold Setting.callHost
  generalize setting.host.callback key value args next = outcome at ends ⊢
  generalize otherSetting.host.callback key other otherArgs otherNext = otherOutcome at ends ⊢
  cases ends with
  | ok held => exact .ok held
  | error same =>
    subst same
    exact likewise_faultAt place

/-! ### Indexers -/

theorem rel_getElem?_alike {items others : List Value}
    (parts : List.Forall₂ (Value.Alike like world) items others) (position : Nat) :
    Option.Rel (Value.Alike like world) items[position]? others[position]? := by
  induction parts generalizing position with
  | nil => exact .none
  | cons first _ ih =>
    cases position with
    | zero => exact .some first
    | succ position => exact ih position

/-- What is found where something may be missing. -/
theorem evaluate_found {found otherFound : Option Value} {fault : Fault}
    (place : like.places loc otherLoc) : Option.Rel (Value.Alike like world) found otherFound →
    Run.Evaluate like world (Value.Alike like)
      (match found with
        | some item => pure item
        | none => liftM (faultAt loc fault : Except Diagnostic Value))
      (match otherFound with
        | some item => pure item
        | none => liftM (faultAt otherLoc fault : Except Diagnostic Value)) := by
  intro rel
  cases rel with
  | some alike => exact evaluate_value alike
  | none => exact Run.goLikewise_faultAt place

/-- Arguments that are alike are the same word on both sides, or no word on either. -/
theorem word_or_not (parts : List.Forall₂ (Value.Alike like world) args otherArgs) :
    (∃ word, args = [.datum (.int word)] ∧ otherArgs = [.datum (.int word)]) ∨
      (∀ word, args ≠ [.datum (.int word)]) ∧ ∀ word, otherArgs ≠ [.datum (.int word)] := by
  by_cases isWord : ∃ word, args = [.datum (.int word)]
  · obtain ⟨word, rfl⟩ := isWord
    match parts with
    | .cons .datum .nil => exact .inl ⟨word, rfl, rfl⟩
  · refine .inr ⟨fun word same => isWord ⟨word, same⟩, fun word same => isWord ⟨word, ?_⟩⟩
    subst same
    match parts with
    | .cons .datum .nil => rfl

theorem evaluate_inapplicable (place : like.places loc otherLoc)
    (alike : value.Alike like world other) :
    Run.Evaluate like world (Value.Alike like)
      (liftM (faultAt loc (.indexerInapplicable value.typeName) : Except Diagnostic Value))
      (liftM (faultAt otherLoc (.indexerInapplicable other.typeName) :
        Except Diagnostic Value)) := by
  rw [alike.typeName_eq]
  exact Run.goLikewise_faultAt place

theorem evaluate_conditionValue (place : like.places loc otherLoc)
    (alike : value.Alike like world other) :
    Run.Evaluate like world (Value.Alike like)
      (liftM (faultAt loc (.conditionValue value.typeName) : Except Diagnostic Value))
      (liftM (faultAt otherLoc (.conditionValue other.typeName) : Except Diagnostic Value)) := by
  rw [alike.typeName_eq]
  exact Run.goLikewise_faultAt place

theorem Alike.index (settings : setting.Alike like older otherSetting)
    (old : World.below older ≤ world) {indexer : Indexer}
    (key : ∀ found, indexer = .host found → like.keys found.callback)
    (place : like.places loc otherLoc) (alike : value.Alike like world other)
    (parts : List.Forall₂ (Value.Alike like world) args otherArgs) :
    Run.Evaluate like world (Value.Alike like) (setting.index loc indexer value args)
      (otherSetting.index otherLoc indexer other otherArgs) := by
  have refused := evaluate_inapplicable place alike
  unfold Setting.index
  rw [← alike.isNull_eq]
  split
  · exact Run.goLikewise_faultAt place
  cases indexer with
  | host indexer => exact settings.callHost old (key indexer rfl) place alike parts
  | listElement element =>
    cases alike with
    | list ids known count items =>
      rcases word_or_not parts with ⟨word, rfl, rfl⟩ | ⟨noWord, otherNoWord⟩
      · dsimp only
        rw [← count]
        refine evaluate_found place ?_
        cases position? word with
        | none => exact .none
        | some position =>
          exact rel_getElem?_alike (List.forall₂_iff_zip.mpr ⟨count, items _ _⟩) position
      · simp only [noWord, otherNoWord, imp_false, not_false_eq_true, implies_true]
        exact refused
    | datum | map | function | object => exact refused
  | mapEntry keyTy valueTy =>
    cases alike with
    | map ids keyKnown valueKnown count keys values =>
      match parts with
      | .nil | .cons _ (.cons _ _) => exact refused
      | .cons first .nil =>
        dsimp only
        rw [first.text_eq]
        exact evaluate_found place (first.findEntry? (List.forall₂_iff_zip.mpr
          ⟨count, fun belongs => ⟨keys _ _ belongs, values _ _ belongs⟩⟩))
    | datum | list | function | object => exact refused
  | stringChar =>
    cases alike with
    | @datum leaf =>
      cases leaf with
      | string text =>
        rcases word_or_not parts with ⟨word, rfl, rfl⟩ | ⟨noWord, otherNoWord⟩
        · dsimp only
          cases (position? word).bind (text.toList[·]?) with
          | some c => exact evaluate_value .datum
          | none => exact Run.goLikewise_faultAt place
        · simp only [noWord, otherNoWord, imp_false, not_false_eq_true, implies_true]
          exact refused
      | _ => exact refused
    | list | map | function | object => exact refused

/-! ### The evaluator -/

mutual

/-- Expressions that are alike evaluate likewise. -/
theorem Alike.evaluate (settings : setting.Alike like older otherSetting) (expr : Expr)
    {otherExpr : Expr} {world : World} (old : World.below older ≤ world)
    (frames : frame.Alike like world view otherFrame) (alike : expr.Alike like view otherExpr) :
    Run.Evaluate like world (Value.Alike like) (setting.evaluate frame expr)
      (otherSetting.evaluate otherFrame otherExpr) := by
  have place := alike.place
  match expr, alike with
  | .constant _ _, .constant _ => exact evaluate_value .datum
  | .variable node binding, .variable nodes bindings =>
    have rel := frames.slots _ _ bindings.id
    unfold Setting.evaluate
    rw [← bindings.name]
    exact evaluate_found place rel
  | .unary _ op operand, .unary nodes operands =>
    refine (settings.evaluate operand old frames operands).bind fun wider wide _ _ values => ?_
    exact evaluate_locate place (values.unary op)
  | .binary _ op left right, .binary nodes lefts rights =>
    refine (settings.evaluate left old frames lefts).bind fun wider wide _ _ leftValues => ?_
    rw [← leftValues.isDecided_eq]
    split
    · exact evaluate_value leftValues
    · refine (settings.evaluate right (le_trans old wide) (frames.mono wide) rights).bind
        fun last further _ _ rightValues => ?_
      exact evaluate_locate place ((leftValues.mono further).binary rightValues op)
  | .conditional _ condition yes no, .conditional nodes conditions yeses nos =>
    refine (settings.evaluate condition old frames conditions).bind fun wider wide _ _ values => ?_
    have refused := evaluate_conditionValue conditions.place values
    cases values with
    | @datum leaf =>
      cases leaf with
      | bool holds =>
        cases holds with
        | true => exact settings.evaluate yes (le_trans old wide) (frames.mono wide) yeses
        | false => exact settings.evaluate no (le_trans old wide) (frames.mono wide) nos
      | _ => exact Run.goLikewise_faultAt conditions.place
    | list | map | function | object => exact refused
  | .construct _ _ args, .construct nodes key parts =>
    refine (settings.evaluateAll args old frames parts).bind fun wider wide _ _ values => ?_
    exact settings.callHost (le_trans old wide) key place .datum values
  | .lambda node id params body, .lambda nodes ids bindings bodies =>
    refine evaluate_value (Value.alike_function (frames.functions _ _ ids) bindings bodies nodes.ty
      nodes.known settings.kept frames.slots)
  | .index _ _ target args, .index nodes key targets parts =>
    refine (settings.evaluate target old frames targets).bind fun wider wide _ _ values => ?_
    refine (settings.evaluateAll args (le_trans old wide) (frames.mono wide) parts).bind
      fun last further _ _ parts => ?_
    exact settings.index (le_trans old (le_trans wide further)) key place (values.mono further)
      parts
  | .typeIs _ target operand, .typeIs nodes operands =>
    refine (settings.evaluate operand old frames operands).bind fun wider wide _ _ values => ?_
    rw [values.isInstance_eq settings.registry]
    exact evaluate_value .datum
  | .typeAs _ target operand, .typeAs nodes operands =>
    refine (settings.evaluate operand old frames operands).bind fun wider wide _ _ values => ?_
    rw [values.isInstance_eq settings.registry]
    split
    · exact evaluate_value values
    · exact evaluate_value .datum
  | .convert _ target operand, .convert nodes operands =>
    refine (settings.evaluate operand old frames operands).bind fun wider wide _ _ values => ?_
    rw [operands.ty_eq]
    exact evaluate_locate place (values.convert settings.registry _ target)
  | .typeOf _ _, .typeOf _ => exact evaluate_value .datum
  | .defaultOf _ _, .defaultOf _ => exact evaluate_value .datum
  | .list _ _ items, .list nodes known parts =>
    refine (settings.evaluateAll items old frames parts).bind fun wider wide _ _ values => ?_
    refine evaluate_freshId.bind fun last further _ _ ids => ?_
    exact evaluate_value (Value.alike_list ids known
      (values.imp fun _ _ alike => alike.mono further))
  | .map _ _ _ entries, .map nodes keyKnown valueKnown keys values =>
    refine (settings.evaluateEntries entries old frames .nil keys values).bind
      fun wider wide _ _ made => ?_
    refine evaluate_freshId.bind fun last further _ _ ids => ?_
    exact evaluate_value (Value.alike_map ids keyKnown valueKnown
      (made.imp fun _ _ alike => alike.mono further))
termination_by structural expr

theorem Alike.evaluateAll (settings : setting.Alike like older otherSetting) (exprs : List Expr)
    {others : List Expr} {world : World} (old : World.below older ≤ world)
    (frames : frame.Alike like world view otherFrame)
    (alike : List.Forall₂ (Expr.Alike like view) exprs others) :
    Run.Evaluate like world (fun wider => List.Forall₂ (Value.Alike like wider))
      (setting.evaluateAll frame exprs) (otherSetting.evaluateAll otherFrame others) := by
  match exprs, alike with
  | [], .nil => exact Run.goLikewise_pure fun _ _ => .nil
  | expr :: rest, .cons first rests =>
    refine (settings.evaluate expr old frames first).bind fun wider wide _ _ value => ?_
    refine (settings.evaluateAll rest (le_trans old wide) (frames.mono wide) rests).bind
      fun last further _ _ values => ?_
    exact Run.goLikewise_pure fun _ wide =>
      .cons (value.mono (le_trans further wide)) (values.imp fun _ _ alike => alike.mono wide)
termination_by structural exprs

theorem Alike.evaluateEntries (settings : setting.Alike like older otherSetting)
    (entries : List (Expr × Expr)) {others : List (Expr × Expr)} {world : World}
    (old : World.below older ≤ world) (frames : frame.Alike like world view otherFrame)
    {before otherBefore : List (Value × Value)}
    (made : List.Forall₂ (EntriesAlike like world) before otherBefore)
    (keys : List.Forall₂ (Expr.Alike like view) (entries.map (·.1)) (others.map (·.1)))
    (values : List.Forall₂ (Expr.Alike like view) (entries.map (·.2)) (others.map (·.2))) :
    Run.Evaluate like world (fun wider => List.Forall₂ (EntriesAlike like wider))
      (setting.evaluateEntries frame before entries)
      (otherSetting.evaluateEntries otherFrame otherBefore others) := by
  match entries, others, keys, values with
  | [], [], _, _ =>
    exact Run.goLikewise_pure fun _ wide =>
      made.imp fun _ _ alike => alike.mono wide
  | (key, value) :: rest, (otherKey, otherValue) :: others, .cons keyFirst keys,
      .cons valueFirst values =>
    refine (settings.evaluate key old frames keyFirst).bind fun wider wide _ _ keyValues => ?_
    refine (settings.evaluate value (le_trans old wide) (frames.mono wide) valueFirst).bind
      fun last further _ _ valueValues => ?_
    have keyAlike := keyValues.mono further
    have madeAlike := made.imp fun _ _ alike => EntriesAlike.mono alike (le_trans wide further)
    rw [isSome_eq_of_rel (keyAlike.findEntry? madeAlike), keyAlike.text_eq]
    split
    · exact Run.goLikewise_faultAt keyFirst.place
    · have more : List.Forall₂ (EntriesAlike like last) (before ++ [(_, _)])
          (otherBefore ++ [(_, _)]) :=
        List.rel_append madeAlike (.cons ⟨keyAlike, valueValues⟩ .nil)
      exact settings.evaluateEntries rest (le_trans old (le_trans wide further))
        (frames.mono (le_trans wide further)) more keys values
termination_by structural entries

end

end Setting

/-! ## Calls -/

/-- The values of parameters that correspond, by binding. -/
theorem rel_lookup_zip {params otherParams : List Binding} {args otherArgs : List Value}
    (bindings : List.Forall₂ (Binding.Alike like view) params otherParams)
    (parts : List.Forall₂ (Value.Alike like world) args otherArgs) {binding second : Nat}
    (pair : view.bindings binding second) :
    Option.Rel (Value.Alike like world) (((params.map (·.id)).zip args).lookup binding)
      (((otherParams.map (·.id)).zip otherArgs).lookup second) := by
  induction bindings generalizing args otherArgs with
  | nil => exact .none
  | @cons param _ _ _ first _ ih =>
    cases parts with
    | nil => exact .none
    | cons part parts =>
      simp only [List.map_cons, List.zip_cons_cons, List.lookup_cons]
      have same := Pairing.eq_iff pair first.id
      by_cases here : binding = param.id
      · rw [beq_iff_eq.mpr here, beq_iff_eq.mpr (same.mp here)]
        exact .some part
      · rw [beq_eq_false_iff_ne.mpr here,
          beq_eq_false_iff_ne.mpr fun there => here (same.mpr there)]
        exact ih parts

/-- The frames of two calls are alike if the functions and the arguments are. -/
theorem Frame.alike_extend {frame otherFrame : Frame Value} {params otherParams : List Binding}
    {args otherArgs : List Value} {id otherId : Nat}
    (bindings : List.Forall₂ (Binding.Alike like view) params otherParams)
    (parts : List.Forall₂ (Value.Alike like world) args otherArgs)
    (slots : ∀ binding second, view.bindings binding second →
      Option.Rel (Value.Alike like world) (frame.lookup binding) (otherFrame.lookup second))
    (entered : ∀ lambda second, view.lambdas lambda second →
      world.functions (lambda, id) (second, otherId)) :
    (frame.extend id ((params.map (·.id)).zip args)).Alike like world view
      (otherFrame.extend otherId ((otherParams.map (·.id)).zip otherArgs)) where
  slots binding second pair := by
    have before := rel_lookup_zip bindings parts pair
    unfold Frame.lookup Frame.extend
    dsimp only
    rw [List.lookup_append, List.lookup_append]
    generalize ((params.map (·.id)).zip args).lookup binding = found at before ⊢
    generalize ((otherParams.map (·.id)).zip otherArgs).lookup second = otherFound at before ⊢
    cases before with
    | some alike => exact .some alike
    | none => exact slots _ _ pair
  functions := entered

namespace Closure

variable {closure other : Closure Value} {host otherHost : Host} {older : Nat}
  {args otherArgs : List Value}

/-- The first argument that a parameter does not admit is the same on both sides. -/
theorem rel_find?_refused {registry otherRegistry : Registry} {params otherParams : List Binding}
    (agree : registry.Agree like otherRegistry)
    (bindings : List.Forall₂ (Binding.Alike like view) params otherParams)
    (parts : List.Forall₂ (Value.Alike like world) args otherArgs) :
    Option.Rel (fun refused otherRefused : Binding × Value =>
        refused.1.Alike like view otherRefused.1 ∧ refused.2.Alike like world otherRefused.2)
      ((params.zip args).find? fun pair => !admits registry pair.1 pair.2)
      ((otherParams.zip otherArgs).find? fun pair => !admits otherRegistry pair.1 pair.2) := by
  induction bindings generalizing args otherArgs with
  | nil => exact .none
  | @cons param otherParam _ _ first _ ih =>
    cases parts with
    | nil => exact .none
    | @cons arg otherArg _ _ part parts =>
      have admitted : admits registry param arg = admits otherRegistry otherParam otherArg := by
        unfold admits
        rw [← part.ty?_eq, ← first.ty]
        cases shown : arg.ty? with
        | none => rfl
        | some actual => exact agree.isAssignable_eq (part.known shown) _
      simp only [List.zip_cons_cons, List.find?_cons, admitted]
      split
      · exact .some ⟨first, part⟩
      · exact ih parts

/-- Functions that are alike do the same with arguments that are alike, in every world and with code
of hosts that does likewise. -/
theorem call_likewise (agrees : ∀ registry otherRegistry,
      like.registries registry otherRegistry → registry.Agree like otherRegistry)
    (hosts : ∀ key, like.keys key →
      Callback.Likewise like older (host.callback key) (otherHost.callback key))
    (old : World.below older ≤ world)
    (alike : Value.Alike like world (.function closure) (.function other))
    (parts : List.Forall₂ (Value.Alike like world) args otherArgs) :
    Run.Evaluate like world (Value.Alike like) (closure.call host args)
      (other.call otherHost otherArgs) := by
  obtain ⟨view, ids, bindings, bodies, kept, slots⟩ := alike.function_inv
  have place := bodies.place
  have agree := agrees _ _ kept
  have refused := rel_find?_refused agree bindings parts
  unfold call arity
  rw [bindings.length_eq, parts.length_eq]
  dsimp only
  split
  · exact Run.goLikewise_faultAt place
  · generalize (closure.params.zip args).find? _ = found at refused ⊢
    generalize (other.params.zip otherArgs).find? _ = otherFound at refused ⊢
    cases refused with
    | some pair =>
      obtain ⟨param, arg⟩ := pair
      dsimp only
      rw [param.name, param.ty, arg.typeName_eq]
      exact Run.goLikewise_faultAt place
    | none =>
      intro wider wide next otherNext fits
      obtain ⟨last, further, fit, entered⟩ := fits.enter view.lambdas
      let frame := closure.frame.extend next ((closure.params.map (·.id)).zip args)
      let otherFrame := other.frame.extend otherNext ((other.params.map (·.id)).zip otherArgs)
      have grown := le_trans wide further
      have frames : frame.Alike like last view otherFrame :=
        Frame.alike_extend bindings (parts.imp fun _ _ part => part.mono grown)
          (fun _ _ pair => rel_widen (slots _ _ pair) grown) entered
      have settings : Setting.Alike like older ⟨closure.registry, host⟩
          ⟨other.registry, otherHost⟩ := ⟨kept, agree, hosts⟩
      have ends := settings.evaluate closure.body (le_trans old grown) frames bodies last
        (le_refl _) _ _ fit
      refine ends.mono ?_
      rintro result otherResult ⟨final, more, fit, held⟩
      exact ⟨final, le_trans further more, fit, held⟩

end Closure

end ExprLang
