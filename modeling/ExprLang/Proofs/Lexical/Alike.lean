import ExprLang.Proofs.Lexical.Agreement

/-!
# Computations that end alike

Two computations end alike if both give results that are related and draw the same identities, or
both fail with the same report. The operators, conversions and indexers end alike on values that
agree. None of them reports that a name has no value; evaluation does so only for names that a unit
lacks a value for (`Compiled.MayReport`).
-/

namespace ExprLang

/-- Two outcomes are alike: their results are related, or they are the same failure of some kind. -/
inductive EndsAlike {ε α β : Type} (fails : ε → Prop) (related : α → β → Prop) :
    Except ε α → Except ε β → Prop where
  | ok {result : α} {other : β} (held : related result other) :
      EndsAlike fails related (.ok result) (.ok other)
  | error {failure : ε} (may : fails failure) :
      EndsAlike fails related (.error failure) (.error failure)

namespace EndsAlike

variable {ε α β : Type} {fails weaker : ε → Prop} {related : α → β → Prop} {first : Except ε α}
  {second : Except ε β}

theorem results (alike : EndsAlike fails related first second) :
    (∃ result other, first = .ok result ∧ second = .ok other ∧ related result other) ∨
      ∃ failure, first = .error failure ∧ second = .error failure ∧ fails failure := by
  cases alike with
  | ok held => exact .inl ⟨_, _, rfl, rfl, held⟩
  | error may => exact .inr ⟨_, rfl, rfl, may⟩

theorem mono (alike : EndsAlike fails related first second)
    (implied : ∀ failure, fails failure → weaker failure) :
    EndsAlike weaker related first second := by
  cases alike with
  | ok held => exact .ok held
  | error may => exact .error (implied _ may)

end EndsAlike

namespace Run

variable {α β γ δ : Type} {fails : Diagnostic → Prop} {related : α → β → Prop}
  {after : γ → δ → Prop}

/-- Two computations that start with the same identity end alike and draw the same identities. -/
def Alike (fails : Diagnostic → Prop) (related : α → β → Prop) (run : Run α) (other : Run β) :
    Prop :=
  ∀ next, EndsAlike fails
    (fun result otherResult => related result.1 otherResult.1 ∧ result.2 = otherResult.2)
    (run next) (other next)

theorem alike_pure {value : α} {other : β} (held : related value other) :
    Alike fails related (pure value) (pure other) :=
  fun _ => .ok ⟨held, rfl⟩

theorem alike_freshId : Alike fails Eq freshId freshId :=
  fun _ => .ok ⟨rfl, rfl⟩

theorem alike_lift {outcome : Except Diagnostic α} {other : Except Diagnostic β}
    (alike : EndsAlike fails related outcome other) :
    Alike fails related (liftM outcome) (liftM other) := by
  intro next
  cases alike with
  | ok held => exact .ok ⟨held, rfl⟩
  | error may => exact .error may

theorem Alike.bind {run : Run α} {other : Run β} {rest : α → Run γ} {otherRest : β → Run δ}
    (first : Alike fails related run other)
    (second : ∀ value otherValue, related value otherValue →
      Alike fails after (rest value) (otherRest otherValue)) :
    Alike fails after (run >>= rest) (other >>= otherRest) := by
  intro next
  simp only [Bind.bind, StateT.bind, Except.bind]
  rcases (first next).results with
    ⟨result, otherResult, ran, otherRan, held⟩ | ⟨report, ran, otherRan, may⟩
  · obtain ⟨value, later⟩ := result
    obtain ⟨otherValue, otherLater⟩ := otherResult
    obtain ⟨agrees, rfl⟩ := held
    rw [ran, otherRan]
    exact second value otherValue agrees later
  · rw [ran, otherRan]
    exact .error may

/-- A computation that gives a known result at once can be left out. -/
theorem lift_bind_eq {outcome : Except Diagnostic α} {value : α} (same : outcome = .ok value)
    (rest : α → Run γ) : ((liftM outcome : Run α) >>= rest) = rest value := by
  rw [same]
  rfl

end Run

/-! ## Reports -/

/-- A fault other than that a name has no value. -/
def Fault.Plain (fault : Fault) : Prop :=
  fault.code ≠ .unboundVariable

/-- A report speaks of a name without a value only if the unit lacks a value for the name. -/
def Compiled.MayReport (compiled : Compiled) (report : Diagnostic) : Prop :=
  report.code = .unboundVariable →
    ∃ name binding loc, compiled.Lacks name binding ∧
      report = (Fault.valueless name).reportAt loc

variable {compiled : Compiled} {units : List Compiled} {loc : Location} {fault : Fault}

theorem Compiled.mayReport_of_plain (plain : fault.Plain) :
    compiled.MayReport (fault.reportAt loc) :=
  fun unbound => absurd unbound plain

theorem Compiled.Lacks.mayReport {name : String} {binding : Binding}
    (lacks : compiled.Lacks name binding) :
    compiled.MayReport ((Fault.valueless name).reportAt loc) :=
  fun _ => ⟨name, binding, loc, lacks, rfl⟩

/-- Two computations of one unit end alike, in values that agree. -/
abbrev Run.Agree (units : List Compiled) (compiled : Compiled) (run : Run Value)
    (other : Run ScopedValue) : Prop :=
  Run.Alike compiled.MayReport (Agrees units) run other

theorem Run.alike_faultAt {α β : Type} {related : α → β → Prop} (plain : fault.Plain) :
    Run.Alike compiled.MayReport related (liftM (faultAt loc fault : Except Diagnostic α))
      (liftM (faultAt loc fault : Except Diagnostic β)) :=
  Run.alike_lift (.error (Compiled.mayReport_of_plain plain))

/-- Outcomes that are alike stay so when their faults are located. -/
theorem Run.agree_locate {outcome : Except Fault Value} {other : Except Fault ScopedValue}
    (alike : EndsAlike Fault.Plain (Agrees units) outcome other) :
    Run.Agree units compiled (liftM (Setting.locate loc outcome))
      (liftM (Setting.locate loc other)) := by
  cases alike with
  | ok held => exact Run.alike_pure held
  | error may => exact Run.alike_faultAt may

/-! ## Operators -/

variable {value left right : Value} {other otherLeft otherRight : ScopedValue}

theorem plain_of_map {α β : Type} {f : α → β} {outcome : Except Fault α}
    (plain : ∀ {fault}, outcome = .error fault → fault.Plain)
    (failed : outcome.map f = .error fault) : fault.Plain := by
  cases outcome with
  | ok result => cases failed
  | error found =>
    cases failed
    exact plain rfl

/-- Data of one outcome are results that agree. -/
theorem alike_map_datum {outcome : Except Fault Datum}
    (plain : ∀ fault, outcome = .error fault → fault.Plain) :
    EndsAlike Fault.Plain (Agrees units) (outcome.map .datum) (outcome.map .datum) := by
  cases outcome with
  | ok leaf => exact .ok .datum
  | error fault => exact .error (plain fault rfl)

theorem UnaryOp.plain_of_applyDatum {op : UnaryOp} {leaf : Datum}
    (failed : op.applyDatum leaf = some (.error fault)) : fault.Plain := by
  have overflow {up : Bool} (failed : step up leaf = some (.error fault)) : fault.Plain := by
    unfold step at failed
    split at failed
    · cases failed
    · cases failed
    · cases failed
    · split at failed
      · cases failed
      · cases failed
        nofun
    · cases failed
  unfold applyDatum at failed
  split at failed
  · cases failed
  · cases failed
  · cases failed
  · exact overflow failed
  · exact overflow failed
  · cases failed

theorem UnaryOp.plain_inapplicable (op : UnaryOp) (value : Value) :
    (op.inapplicable value).Plain := by
  rintro ⟨⟩

/-- Unary operators do the same with values that agree. -/
theorem Agrees.unary (agrees : Agrees units value other) (op : UnaryOp) :
    EndsAlike Fault.Plain (Agrees units) (op.apply value) (other.unary op) := by
  have inapplicable : op.inapplicable other.outline = op.inapplicable value := by
    rw [UnaryOp.inapplicable, agrees.typeName_eq, UnaryOp.inapplicable]
  cases agrees with
  | @datum leaf =>
    unfold UnaryOp.apply ScopedValue.unary
    dsimp only
    cases applied : op.applyDatum leaf with
    | none => exact .error (op.plain_inapplicable _)
    | some outcome =>
      refine alike_map_datum fun fault failed => ?_
      rw [failed] at applied
      exact UnaryOp.plain_of_applyDatum applied
  | list | map | function | object =>
    unfold UnaryOp.apply ScopedValue.unary
    dsimp only
    rw [inapplicable]
    exact .error (op.plain_inapplicable _)

namespace BinaryOp

variable {op : BinaryOp} {leaf second : Datum}

theorem plain_of_wordArithmetic {kind : IntKind} {a b : kind.Word}
    (failed : op.wordArithmetic kind a b = .error fault) : fault.Plain := by
  unfold wordArithmetic at failed
  split at failed
  · cases failed
    nofun
  · cases failed

theorem plain_of_decimalArithmetic {a b : Decimal}
    (failed : op.decimalArithmetic a b = .error fault) : fault.Plain := by
  unfold decimalArithmetic at failed
  dsimp only at failed
  split at failed
  · cases failed
    nofun
  · split at failed
    · cases failed
    · cases failed
      nofun

theorem plain_of_arithmetic (failed : op.arithmetic leaf second = some (.error fault)) :
    fault.Plain := by
  unfold arithmetic at failed
  split at failed
  · split at failed
    · exact plain_of_map plain_of_wordArithmetic (Option.some.inj failed)
    · cases failed
  · cases failed
  · cases failed
  · exact plain_of_map plain_of_decimalArithmetic (Option.some.inj failed)
  · split at failed <;> cases failed
  · cases failed

theorem plain_of_applyData (failed : op.applyData leaf second = some (.error fault)) :
    fault.Plain := by
  have comparison (failed : op.comparison leaf second = some (.error fault)) : fault.Plain := by
    obtain ⟨order, -, made⟩ := Option.map_eq_some_iff.mp failed
    cases made
  have shift (failed : op.shift leaf second = some (.error fault)) : fault.Plain := by
    unfold BinaryOp.shift at failed
    split at failed <;> cases failed
  have bitwise (failed : op.bitwise leaf second = some (.error fault)) : fault.Plain := by
    unfold BinaryOp.bitwise at failed
    split at failed
    · cases failed
    · split at failed
      · cases failed
      · split at failed <;> cases failed
    · cases failed
  cases op with
  | less | lessEqual | greater | greaterEqual => exact comparison failed
  | leftShift | rightShift => exact shift failed
  | and | or | exclusiveOr | andAlso | orElse => exact bitwise failed
  | add | subtract | multiply | divide | modulo => exact plain_of_arithmetic failed
  | equal | notEqual | coalesce => cases failed

end BinaryOp

theorem BinaryOp.plain_inapplicable (op : BinaryOp) (left right : Value) :
    (op.inapplicable left right).Plain := by
  rintro ⟨⟩

/-- Binary operators do the same with values that agree. -/
theorem Agrees.binary (leftAgrees : Agrees units left otherLeft)
    (rightAgrees : Agrees units right otherRight) (op : BinaryOp) :
    EndsAlike Fault.Plain (Agrees units) (op.apply left right)
      (otherLeft.binary op otherRight) := by
  have inapplicable :
      op.inapplicable otherLeft.outline otherRight.outline = op.inapplicable left right := by
    rw [BinaryOp.inapplicable, leftAgrees.typeName_eq, rightAgrees.typeName_eq,
      BinaryOp.inapplicable]
  have data (other : op ≠ .equal ∧ op ≠ .notEqual ∧ op ≠ .coalesce) :
      EndsAlike Fault.Plain (Agrees units) (op.apply left right)
        (otherLeft.binary op otherRight) := by
    obtain ⟨notEqual, notNotEqual, notCoalesce⟩ := other
    cases leftAgrees with
    | @datum leaf =>
      cases rightAgrees with
      | @datum second =>
        simp only [BinaryOp.apply, ScopedValue.binary, inapplicable]
        cases applied : op.applyData leaf second with
        | none => exact .error (op.plain_inapplicable _ _)
        | some outcome =>
          refine alike_map_datum fun fault failed => ?_
          rw [failed] at applied
          exact BinaryOp.plain_of_applyData applied
      | list | map | function | object =>
        simp only [BinaryOp.apply, ScopedValue.binary, inapplicable]
        exact .error (op.plain_inapplicable _ _)
    | list | map | function | object =>
      simp only [BinaryOp.apply, ScopedValue.binary, inapplicable]
      exact .error (op.plain_inapplicable _ _)
  cases op with
  | equal | notEqual =>
    simp only [BinaryOp.apply, ScopedValue.binary, leftAgrees.equal_eq rightAgrees]
    exact .ok .datum
  | coalesce =>
    simp only [BinaryOp.apply, ScopedValue.binary, leftAgrees.isNull_eq]
    split
    · exact .ok rightAgrees
    · exact .ok leftAgrees
  | _ => exact data (by decide)

theorem Agrees.isDecided_eq (agrees : Agrees units value other) (op : BinaryOp) :
    op.isDecided other.outline = op.isDecided value := by
  cases agrees with
  | datum => rfl
  | list | map | function | object => cases op <;> rfl

/-! ## Conversions, tests and indexers -/

theorem Agrees.isInstance_eq (agrees : Agrees units value other) {setting : Setting} (target : Ty) :
    other.isInstance setting.registry target = setting.isInstance value target := by
  rw [ScopedValue.isInstance, agrees.ty?_eq]
  rfl

theorem Convert.plain_of_numeric {leaf : Datum} {target : Ty}
    (failed : Convert.numeric leaf target = .error fault) : fault.Plain := by
  have missing {cause : Fault} {found : Option Datum}
      (failed : orFault cause found = .error fault) (plain : cause.Plain) : fault.Plain := by
    cases found with
    | none =>
      cases failed
      exact plain
    | some leaf => cases failed
  unfold numeric at failed
  dsimp only at failed
  split at failed
  · cases failed
    nofun
  · exact missing failed nofun
  · exact missing failed nofun
  · exact missing failed nofun
  · cases failed
  · cases failed
  · exact missing failed nofun
  · cases failed
  · cases failed
  · cases failed
  · exact missing failed nofun

theorem Agrees.convert (agrees : Agrees units value other) {setting : Setting}
    (source target : Ty) :
    EndsAlike Fault.Plain (Agrees units) (setting.convert value source target)
      (other.convert setting.registry source target) := by
  have numeric : EndsAlike Fault.Plain (Agrees units) (Convert.numericValue value target)
      (other.numeric target) := by
    have text := agrees.text_eq
    cases agrees with
    | datum => exact alike_map_datum fun _ => Convert.plain_of_numeric
    | list | map | function | object =>
      unfold Convert.numericValue ScopedValue.numeric
      dsimp only
      rw [text]
      exact .error nofun
  unfold Setting.convert ScopedValue.convert
  rw [agrees.ty?_eq]
  cases value.ty? with
  | none =>
    dsimp only
    split
    · exact .error nofun
    · exact .ok .datum
  | some actual =>
    dsimp only
    split
    · exact numeric
    · split
      · exact .ok agrees
      · exact .error nofun

/-- Keys that agree find entries that agree. -/
theorem Agrees.findEntry? (agrees : Agrees units value other) {entries : List (Value × Value)}
    {others : List (ScopedValue × ScopedValue)}
    (held : List.Forall₂ (AgreeingEntries units) entries others) :
    Option.Rel (Agrees units) (Value.findEntry? value entries) (other.findEntry? others) := by
  unfold Value.findEntry? ScopedValue.findEntry?
  induction held with
  | nil => exact .none
  | cons first _ ih =>
    rw [List.find?_cons, List.find?_cons, agrees.same_eq first.1]
    split
    · exact .some first.2
    · exact ih

/-- Code of a host does the same with values that agree, whatever functions are in them: it may pass
functions on, keep them in objects or call them, but their code and frames are not open to it. -/
def Host.Alike (host : Host) (scopedHost : ScopedHost) : Prop :=
  ∀ (units : List Compiled) (key : Nat) (target : Value) (otherTarget : ScopedValue)
    (args : List Value) (otherArgs : List ScopedValue) (next : Nat),
    Agrees units target otherTarget → List.Forall₂ (Agrees units) args otherArgs →
    EndsAlike (fun _ => True)
      (fun result otherResult => Agrees units result.1 otherResult.1 ∧ result.2 = otherResult.2)
      (host.callback key target args next) (scopedHost key otherTarget otherArgs next)

section Hosts

variable {setting : Setting} {scopedHost : ScopedHost} {args : List Value}
  {otherArgs : List ScopedValue}

theorem agree_callHost (hosts : setting.host.Alike scopedHost) (agrees : Agrees units value other)
    (held : List.Forall₂ (Agrees units) args otherArgs) (key : Nat) :
    Run.Agree units compiled (setting.callHost loc key value args)
      (scopedHost.run loc key other otherArgs) := by
  intro next
  unfold Setting.callHost ScopedHost.run
  rcases (hosts units key value other args otherArgs next agrees held).results with
    ⟨result, otherResult, ran, otherRan, same⟩ | ⟨message, ran, otherRan, -⟩
  · rw [ran, otherRan]
    exact .ok same
  · rw [ran, otherRan]
    exact .error (Compiled.mayReport_of_plain nofun)

theorem rel_getElem? {α β : Type} {related : α → β → Prop} {items : List α} {others : List β}
    (held : List.Forall₂ related items others) (position : Nat) :
    Option.Rel related items[position]? others[position]? := by
  induction held generalizing position with
  | nil => exact .none
  | cons first _ ih =>
    cases position with
    | zero => exact .some first
    | succ position => exact ih position

/-- What is found where something may be missing. -/
theorem agree_found {found : Option Value} {otherFound : Option ScopedValue}
    (plain : fault.Plain) : Option.Rel (Agrees units) found otherFound → Run.Agree units compiled
      (match found with
        | some item => pure item
        | none => liftM (faultAt loc fault : Except Diagnostic Value))
      (match otherFound with
        | some item => pure item
        | none => liftM (faultAt loc fault : Except Diagnostic ScopedValue)) := by
  intro rel
  cases rel with
  | some agrees => exact Run.alike_pure agrees
  | none => exact Run.alike_faultAt plain

/-- Arguments that agree are the same word on both sides, or no word on either. -/
theorem eq_word_or_ne_word (held : List.Forall₂ (Agrees units) args otherArgs) :
    (∃ word, args = [.datum (.int word)] ∧ otherArgs = [.datum (.int word)]) ∨
      (∀ word, args ≠ [.datum (.int word)]) ∧ ∀ word, otherArgs ≠ [.datum (.int word)] := by
  by_cases isWord : ∃ word, args = [.datum (.int word)]
  · obtain ⟨word, rfl⟩ := isWord
    cases held with
    | cons first rest =>
      cases first
      cases rest
      exact .inl ⟨word, rfl, rfl⟩
  · refine .inr ⟨fun word same => isWord ⟨word, same⟩, fun word same => isWord ⟨word, ?_⟩⟩
    subst same
    cases held with
    | cons first rest =>
      cases first
      cases rest
      rfl

theorem agree_indexerInapplicable (agrees : Agrees units value other) :
    Run.Agree units compiled
      (liftM (faultAt loc (.indexerInapplicable value.typeName) : Except Diagnostic Value))
      (liftM (faultAt loc (.indexerInapplicable other.outline.typeName) :
        Except Diagnostic ScopedValue)) := by
  rw [agrees.typeName_eq]
  exact Run.alike_faultAt nofun

theorem agree_listElement {element ty : Ty} {id : Nat} {items : List Value}
    {others : List ScopedValue} (parts : List.Forall₂ (Agrees units) items others)
    (held : List.Forall₂ (Agrees units) args otherArgs) :
    Run.Agree units compiled (setting.index loc (.listElement element) (.list id ty items) args)
      (scopedHost.index loc (.listElement element) (.list id ty others) otherArgs) := by
  unfold Setting.index ScopedHost.index
  rw [if_neg nofun, if_neg nofun]
  rcases eq_word_or_ne_word held with ⟨word, rfl, rfl⟩ | ⟨noWord, otherNoWord⟩
  · dsimp only
    rw [← parts.length_eq]
    have plain : (Fault.listIndex word.toInt items.length).Plain := nofun
    refine agree_found plain ?_
    cases Setting.position? word with
    | none => exact .none
    | some position => exact rel_getElem? parts position
  · simp only [noWord, otherNoWord, imp_false, not_false_eq_true, implies_true]
    exact agree_indexerInapplicable (Agrees.list_iff.mpr parts)

theorem agree_mapEntry {keyTy valueTy keys values : Ty} {id : Nat} {entries : List (Value × Value)}
    {others : List (ScopedValue × ScopedValue)}
    (parts : List.Forall₂ (AgreeingEntries units) entries others)
    (held : List.Forall₂ (Agrees units) args otherArgs) :
    Run.Agree units compiled
      (setting.index loc (.mapEntry keyTy valueTy) (.map id keys values entries) args)
      (scopedHost.index loc (.mapEntry keyTy valueTy) (.map id keys values others) otherArgs) := by
  unfold Setting.index ScopedHost.index
  rw [if_neg nofun, if_neg nofun]
  cases held with
  | nil => exact agree_indexerInapplicable (Agrees.map_iff.mpr parts)
  | @cons key _ _ _ first rest =>
    cases rest with
    | cons => exact agree_indexerInapplicable (Agrees.map_iff.mpr parts)
    | nil =>
      dsimp only
      rw [first.text_eq]
      have plain : (Fault.keyMissing key.text).Plain := nofun
      exact agree_found plain (first.findEntry? parts)

theorem agree_stringChar {text : String} (held : List.Forall₂ (Agrees units) args otherArgs) :
    Run.Agree units compiled (setting.index loc .stringChar (.datum (.string text)) args)
      (scopedHost.index loc .stringChar (.datum (.string text)) otherArgs) := by
  unfold Setting.index ScopedHost.index
  rw [if_neg nofun, if_neg nofun]
  rcases eq_word_or_ne_word held with ⟨word, rfl, rfl⟩ | ⟨noWord, otherNoWord⟩
  · dsimp only
    have plain : (Fault.stringIndex word.toInt text).Plain := nofun
    cases (Setting.position? word).bind (text.toList[·]?) with
    | some c => exact Run.alike_pure Agrees.datum
    | none => exact Run.alike_faultAt plain
  · simp only [noWord, otherNoWord, imp_false, not_false_eq_true, implies_true]
    exact agree_indexerInapplicable .datum

theorem agree_index (hosts : setting.host.Alike scopedHost) (agrees : Agrees units value other)
    (held : List.Forall₂ (Agrees units) args otherArgs) (indexer : Indexer) :
    Run.Agree units compiled (setting.index loc indexer value args)
      (scopedHost.index loc indexer other otherArgs) := by
  -- A target of another kind is refused, whatever the arguments are.
  have refused : Run.Agree units compiled
      (if value.isNull then liftM (faultAt loc .nullTarget : Except Diagnostic Value)
        else liftM (faultAt loc (.indexerInapplicable value.typeName) : Except Diagnostic Value))
      (if other.outline.isNull then
          liftM (faultAt loc .nullTarget : Except Diagnostic ScopedValue)
        else liftM (faultAt loc (.indexerInapplicable other.outline.typeName) :
          Except Diagnostic ScopedValue)) := by
    rw [agrees.isNull_eq]
    split
    · exact Run.alike_faultAt (by rintro ⟨⟩)
    · exact agree_indexerInapplicable agrees
  cases indexer with
  | listElement element =>
    cases agrees with
    | list count parts => exact agree_listElement (List.forall₂_iff_zip.mpr ⟨count, parts _ _⟩) held
    | datum | map | function | object => exact refused
  | mapEntry keyTy valueTy =>
    cases agrees with
    | map count keys values =>
      exact agree_mapEntry (List.forall₂_iff_zip.mpr
        ⟨count, fun belongs => ⟨keys _ _ belongs, values _ _ belongs⟩⟩) held
    | datum | list | function | object => exact refused
  | stringChar =>
    cases agrees with
    | @datum target =>
      cases target with
      | string text => exact agree_stringChar held
      | _ => exact refused
    | list | map | function | object => exact refused
  | host indexer =>
    unfold Setting.index ScopedHost.index
    rw [agrees.isNull_eq]
    split
    · exact Run.alike_faultAt (by rintro ⟨⟩)
    · exact agree_callHost hosts agrees held indexer.callback
end Hosts

end ExprLang
