import ExprLang.Host.Recipe
import ExprLang.Proofs.Eval.Results
import ExprLang.Proofs.Run

/-!
# What running keeps

A property of values may speak of a world that grows while something runs: of the identities that
were drawn so far, or of the host objects that were made. An `Invariant` is such a property that holds
of data and of lists, maps and functions that are made of what it holds of. It then holds of whatever
evaluation and calls make (`Setting.keeps_evaluate`, `Closure.keeps_call`), as long as code of the host
keeps it (`Callback.Keeps`), as recipes do (`Recipe.keeps`).
-/

namespace ExprLang

/-- A property of values in a world, with what has to be known of identities, code and entries of maps
for it. -/
structure Invariant (World : Type) where
  Grows : World → World → Prop
  /-- The identities from one on are new to a world. -/
  Free : World → Nat → Prop
  Drawn : World → Nat → Prop
  Code : World → Expr → Prop
  Entries : World → List (Value × Value) → Prop
  Holds : World → Value → Prop
  refl : ∀ world, Grows world world
  trans : ∀ {world wider widest}, Grows world wider → Grows wider widest → Grows world widest
  free_of_le : ∀ {world next later}, Free world next → next ≤ later → Free world later
  draw : ∀ {world next}, Free world next →
    ∃ wider, Grows world wider ∧ Free wider (next + 1) ∧ Drawn wider next
  drawn_mono : ∀ {world wider id}, Grows world wider → Drawn world id → Drawn wider id
  code_mono : ∀ {world wider expr}, Grows world wider → Code world expr → Code wider expr
  entries_mono : ∀ {world wider entries}, Grows world wider → Entries world entries →
    Entries wider entries
  mono : ∀ {world wider value}, Grows world wider → Holds world value → Holds wider value
  operand : ∀ {world expr operand}, Code world expr → operand ∈ expr.operands → Code world operand
  entries_nil : ∀ {world}, Entries world []
  entries_append : ∀ {world entries key held}, Entries world entries → Holds world key →
    Holds world held → ¬ (Value.findEntry? key entries).isSome = true →
    Entries world (entries ++ [(key, held)])
  entries_value : ∀ {world entries}, Entries world entries → ∀ entry ∈ entries, Holds world entry.2
  datum : ∀ {world leaf}, Holds world (.datum leaf)
  list_iff : ∀ {world id element items}, Holds world (.list id element items) ↔
    Drawn world id ∧ ∀ item ∈ items, Holds world item
  map_iff : ∀ {world id key value entries}, Holds world (.map id key value entries) ↔
    Drawn world id ∧ Entries world entries
  function : ∀ {world node id params body frame registry}, Code world (.lambda node id params body) →
    Drawn world frame.id → (∀ slot ∈ frame.slots, Holds world slot.2) →
    Holds world (.function ⟨id, params, body, node.ty, frame, registry⟩)
  body : ∀ {world closure}, Holds world (.function closure) → Code world closure.body
  captured : ∀ {world closure}, Holds world (.function closure) →
    ∀ slot ∈ closure.frame.slots, Holds world slot.2
  /-- An object that is made under the next identity. -/
  object : ∀ {world next slots}, Free world next → (∀ slot ∈ slots, Holds world slot) →
    ∀ typeName, ∃ wider, Grows world wider ∧ Free wider (next + 1) ∧
      Holds wider (.object next typeName slots)
  slot : ∀ {world id typeName slots}, Holds world (.object id typeName slots) →
    ∀ slot ∈ slots, Holds world slot

variable {World : Type} {inv : Invariant World} {base world : World}

structure Invariant.Held (inv : Invariant World) (world : World) (frame : Frame Value) : Prop where
  drawn : inv.Drawn world frame.id
  slots : ∀ slot ∈ frame.slots, inv.Holds world slot.2

theorem Invariant.Held.mono {frame : Frame Value} {wider : World} (held : inv.Held world frame)
    (grown : inv.Grows world wider) : inv.Held wider frame where
  drawn := inv.drawn_mono grown held.drawn
  slots slot belongs := inv.mono grown (held.slots slot belongs)

/-! ## Computations -/

namespace Run

variable {α β : Type} {holds : World → α → Prop} {after : World → β → Prop}

/-- A computation that starts where a world has all identities that were drawn makes something with a
property, in a world that grew. -/
def Keeps (inv : Invariant World) (world : World) (holds : World → α → Prop) (run : Run α) : Prop :=
  ∀ next, inv.Free world next → ∀ result later, run next = .ok (result, later) →
    ∃ wider, inv.Grows world wider ∧ inv.Free wider later ∧ holds wider result

theorem keeps_pure {value : α} (held : holds world value) : Keeps inv world holds (pure value) := by
  intro next free result later ok
  obtain ⟨rfl, rfl⟩ := pure_ok.mp ok
  exact ⟨world, inv.refl world, free, held⟩

theorem keeps_faultAt {loc : Location} {fault : Fault} :
    Keeps inv world holds (liftM (faultAt loc fault : Except Diagnostic α)) := by
  intro next free result later ok
  exact absurd ok faultAt_ne_ok

theorem keeps_freshId : Keeps inv world inv.Drawn freshId := by
  intro next free result later ok
  obtain ⟨rfl, rfl⟩ := freshId_ok.mp ok
  exact inv.draw free

theorem Keeps.bind {run : Run α} {rest : α → Run β} (first : run.Keeps inv world holds)
    (further : ∀ middle, inv.Grows world middle → ∀ value, holds middle value →
      (rest value).Keeps inv middle after) : (run >>= rest).Keeps inv world after := by
  intro next free result later ok
  obtain ⟨value, middle, ran, ok⟩ := bind_ok.mp ok
  obtain ⟨wider, grown, widerFree, held⟩ := first next free value middle ran
  obtain ⟨widest, grownFurther, widestFree, made⟩ :=
    further wider grown value held middle widerFree result later ok
  exact ⟨widest, inv.trans grown grownFurther, widestFree, made⟩

end Run

/-! ## Code of the host -/

def Callback.Keeps (inv : Invariant World) (base : World) (callback : Callback) : Prop :=
  ∀ world, inv.Grows base world → ∀ target args next value later, inv.Free world next →
    inv.Holds world target → (∀ arg ∈ args, inv.Holds world arg) →
    callback target args next = .ok (value, later) →
    ∃ wider, inv.Grows world wider ∧ inv.Free wider later ∧ inv.Holds wider value

def Host.Keeps (inv : Invariant World) (base : World) (host : Host) : Prop :=
  ∀ callback ∈ host.callbacks, Callback.Keeps inv base callback

theorem Host.Keeps.callback {host : Host} (keeps : host.Keeps inv base) (key : Nat) :
    Callback.Keeps inv base (host.callback key) := by
  refine callback_of_forall (Callback.Keeps inv base) ?_ keeps key
  rintro world _ target args next value later _ _ _ ⟨⟩

/-- Code that only looks at its target and arguments answers what it finds, and draws nothing. -/
theorem Callback.lift_ok {outcome : Except String Value} {next later : Nat} {value : Value} :
    (liftM outcome : StateT Nat (Except String) Value) next = .ok (value, later) ↔
      outcome = .ok value ∧ next = later := by
  have lifted : (liftM outcome : StateT Nat (Except String) Value) next =
      outcome.map fun value => (value, next) := by
    cases outcome <;> rfl
  rw [lifted]
  cases outcome <;> simp [Except.map]

/-- Code that only looks at its target and arguments keeps what holds of its answers. -/
theorem Callback.keeps_lift (look : Value → List Value → Except String Value)
    (held : ∀ world, inv.Grows base world → ∀ target args value, inv.Holds world target →
      (∀ arg ∈ args, inv.Holds world arg) → look target args = .ok value → inv.Holds world value) :
    Callback.Keeps inv base fun target args => liftM (look target args) := by
  intro world grown target args next value later free targetHeld argsHeld made
  obtain ⟨found, rfl⟩ := Callback.lift_ok.mp made
  exact ⟨world, inv.refl world, free, held world grown target args value targetHeld argsHeld found⟩

namespace Recipe

theorem holds_of_slotOf {target value : Value} {position : Nat} (held : inv.Holds world target)
    (found : slotOf target position = .ok value) : inv.Holds world value := by
  cases target with
  | object id typeName parts =>
    simp only [slotOf, slots, bind, Except.bind] at found
    split at found
    next slot hit =>
      cases found
      exact inv.slot held _ (List.mem_of_getElem? hit)
    · cases found
  | datum | list | map | function => cases found

/-- Looking up the slot that an argument asks for only looks at the target and the arguments. -/
theorem callback_slotAt :
    Recipe.slotAt.callback = fun target args => liftM (slotNumber args >>= slotOf target) := by
  funext target args next
  simp only [callback]
  cases slotNumber args <;> rfl

/-- Recipes keep an invariant that holds of their constants. -/
theorem keeps (recipe : Recipe)
    (constants : ∀ value, recipe = .constant value → inv.Holds base value) :
    Callback.Keeps inv base recipe.callback := by
  cases recipe with
  | constant value =>
    refine Callback.keeps_lift (fun _ _ => .ok value) fun _ grown _ _ _ _ _ made => ?_
    cases made
    exact inv.mono grown (constants value rfl)
  | target =>
    refine Callback.keeps_lift (fun target _ => .ok target) fun _ _ _ _ _ targetHeld _ made => ?_
    cases made
    exact targetHeld
  | failure message => rintro world _ target args next value later _ _ _ ⟨⟩
  | argument position =>
    intro world _ target args next value later free _ argsHeld made
    simp only [Recipe.callback] at made
    cases found : args[position]? with
    | none =>
      rw [found] at made
      cases made
    | some arg =>
      rw [found] at made
      cases made
      exact ⟨world, inv.refl world, free, argsHeld _ (List.mem_of_getElem? found)⟩
  | slot position =>
    exact Callback.keeps_lift (fun target _ => slotOf target position)
      fun _ _ _ _ _ targetHeld _ => holds_of_slotOf targetHeld
  | slotAt =>
    rw [callback_slotAt]
    refine Callback.keeps_lift _ fun _ _ _ args _ targetHeld _ made => ?_
    cases number : slotNumber args with
    | error message =>
      rw [number] at made
      cases made
    | ok position =>
      rw [number] at made
      exact holds_of_slotOf targetHeld made
  | make typeName =>
    rintro world _ target args next value later free _ argsHeld ⟨⟩
    exact inv.object free argsHeld typeName

end Recipe

/-! ## Evaluation -/

namespace Setting

variable {setting : Setting} {frame : Frame Value} {loc : Location}

theorem keeps_locate {outcome : Except Fault Value}
    (held : ∀ value, outcome = .ok value → inv.Holds world value) :
    Run.Keeps inv world inv.Holds (liftM (locate loc outcome)) := by
  cases outcome with
  | error fault => exact Run.keeps_faultAt
  | ok value => exact Run.keeps_pure (held value rfl)

theorem keeps_callHost (host : setting.host.Keeps inv base) (grown : inv.Grows base world) {key : Nat}
    {target : Value} {args : List Value} (targetHeld : inv.Holds world target)
    (argsHeld : ∀ arg ∈ args, inv.Holds world arg) :
    Run.Keeps inv world inv.Holds (setting.callHost loc key target args) := by
  intro next free value later ok
  unfold callHost at ok
  split at ok
  next result made =>
    cases ok
    exact host.callback key world grown _ _ _ _ _ free targetHeld argsHeld made
  · cases ok

theorem keeps_index (host : setting.host.Keeps inv base) (grown : inv.Grows base world)
    {indexer : Indexer} {target : Value} {args : List Value} (targetHeld : inv.Holds world target)
    (argsHeld : ∀ arg ∈ args, inv.Holds world arg) :
    Run.Keeps inv world inv.Holds (setting.index loc indexer target args) := by
  unfold index
  split
  · exact Run.keeps_faultAt
  · split
    · split
      next item found =>
        obtain ⟨position, -, hit⟩ := Option.bind_eq_some_iff.mp found
        exact Run.keeps_pure ((inv.list_iff.mp targetHeld).2 item (List.mem_of_getElem? hit))
      · exact Run.keeps_faultAt
    · split
      next value found =>
        have values := inv.entries_value (inv.map_iff.mp targetHeld).2
        exact Run.keeps_pure (Value.holds_of_findEntry? values found)
      · exact Run.keeps_faultAt
    · split
      · exact Run.keeps_pure inv.datum
      · exact Run.keeps_faultAt
    · exact keeps_callHost host grown targetHeld argsHeld
    · exact Run.keeps_faultAt

mutual

/-- Evaluation keeps an invariant that holds of the values in the frame. -/
theorem keeps_evaluate (host : setting.host.Keeps inv base) (expr : Expr) {world : World}
    (grown : inv.Grows base world) (held : inv.Held world frame) (code : inv.Code world expr) :
    (setting.evaluate frame expr).Keeps inv world inv.Holds := by
  match expr with
  | .constant .. | .typeOf .. | .defaultOf .. => exact Run.keeps_pure inv.datum
  | .variable node binding =>
    unfold evaluate
    split
    next value found => exact Run.keeps_pure (held.slots _ (Frame.mem_slots_of_lookup found))
    · exact Run.keeps_faultAt
  | .unary _ _ operand =>
    have inner : inv.Code world operand := inv.operand code (by simp [Expr.operands])
    exact (keeps_evaluate host operand grown held inner).bind fun _ _ _ _ =>
      keeps_locate fun _ => UnaryOp.holds_of_apply fun _ => inv.datum
  | .convert _ _ operand =>
    have inner : inv.Code world operand := inv.operand code (by simp [Expr.operands])
    exact (keeps_evaluate host operand grown held inner).bind fun _ _ _ valueHeld =>
      keeps_locate fun _ => Setting.holds_of_convert (fun _ => inv.datum) valueHeld
  | .binary _ _ left right =>
    have inner : inv.Code world left := inv.operand code (by simp [Expr.operands])
    have second : inv.Code world right := inv.operand code (by simp [Expr.operands])
    refine (keeps_evaluate host left grown held inner).bind fun middle wider leftValue leftHeld => ?_
    split
    · exact Run.keeps_pure leftHeld
    · exact (keeps_evaluate host right (inv.trans grown wider) (held.mono wider)
        (inv.code_mono wider second)).bind fun _ further _ rightHeld => keeps_locate fun _ =>
          BinaryOp.holds_of_apply (fun _ => inv.datum) (inv.mono further leftHeld) rightHeld
  | .conditional _ condition yes no =>
    have inner : inv.Code world condition := inv.operand code (by simp [Expr.operands])
    have second : inv.Code world yes := inv.operand code (by simp [Expr.operands])
    have third : inv.Code world no := inv.operand code (by simp [Expr.operands])
    refine (keeps_evaluate host condition grown held inner).bind fun middle wider value _ => ?_
    split
    · exact keeps_evaluate host yes (inv.trans grown wider) (held.mono wider)
        (inv.code_mono wider second)
    · exact keeps_evaluate host no (inv.trans grown wider) (held.mono wider)
        (inv.code_mono wider third)
    · exact Run.keeps_faultAt
  | .construct _ _ args =>
    exact (keeps_evaluateAll host args grown held fun _ belongs => inv.operand code belongs).bind
      fun _ wider _ argsHeld => keeps_callHost host (inv.trans grown wider) inv.datum argsHeld
  | .lambda .. => exact Run.keeps_pure (inv.function code held.drawn held.slots)
  | .index _ _ target args =>
    have inner : inv.Code world target := inv.operand code List.mem_cons_self
    refine (keeps_evaluate host target grown held inner).bind
      fun middle wider targetValue targetHeld => ?_
    refine (keeps_evaluateAll host args (inv.trans grown wider) (held.mono wider) fun arg belongs =>
      inv.code_mono wider (inv.operand code (List.mem_cons_of_mem _ belongs))).bind
        fun _ further _ argsHeld => ?_
    exact keeps_index host (inv.trans grown (inv.trans wider further)) (inv.mono further targetHeld)
      argsHeld
  | .typeIs _ _ operand =>
    have inner : inv.Code world operand := inv.operand code (by simp [Expr.operands])
    exact (keeps_evaluate host operand grown held inner).bind fun _ _ _ _ => Run.keeps_pure inv.datum
  | .typeAs _ _ operand =>
    have inner : inv.Code world operand := inv.operand code (by simp [Expr.operands])
    refine (keeps_evaluate host operand grown held inner).bind fun _ _ value valueHeld =>
      Run.keeps_pure ?_
    split
    · exact valueHeld
    · exact inv.datum
  | .list _ _ items =>
    exact (keeps_evaluateAll host items grown held fun _ belongs => inv.operand code belongs).bind
      fun _ _ _ itemsHeld => Run.keeps_freshId.bind fun _ wider _ drawn => Run.keeps_pure <|
        inv.list_iff.mpr ⟨drawn, fun item belongs => inv.mono wider (itemsHeld item belongs)⟩
  | .map _ _ _ entries =>
    have inner : ∀ entry ∈ entries, inv.Code world entry.1 ∧ inv.Code world entry.2 := by
      refine fun entry belongs => ⟨inv.operand code ?_, inv.operand code ?_⟩
      · exact List.mem_append_left _ (List.mem_map_of_mem belongs)
      · exact List.mem_append_right _ (List.mem_map_of_mem belongs)
    exact (keeps_evaluateEntries host entries grown held inner inv.entries_nil).bind
      fun _ _ _ entriesHeld => Run.keeps_freshId.bind fun _ wider _ drawn => Run.keeps_pure <|
        inv.map_iff.mpr ⟨drawn, inv.entries_mono wider entriesHeld⟩
termination_by structural expr

theorem keeps_evaluateAll (host : setting.host.Keeps inv base) (exprs : List Expr) {world : World}
    (grown : inv.Grows base world) (held : inv.Held world frame)
    (code : ∀ expr ∈ exprs, inv.Code world expr) :
    (setting.evaluateAll frame exprs).Keeps inv world
      fun wider values => ∀ value ∈ values, inv.Holds wider value := by
  match exprs with
  | [] => exact Run.keeps_pure nofun
  | expr :: rest =>
    rw [List.forall_mem_cons] at code
    refine (keeps_evaluate host expr grown held code.1).bind fun middle wider value valueHeld => ?_
    refine (keeps_evaluateAll host rest (inv.trans grown wider) (held.mono wider) fun expr belongs =>
      inv.code_mono wider (code.2 expr belongs)).bind fun _ further values valuesHeld => ?_
    exact Run.keeps_pure (List.forall_mem_cons.mpr ⟨inv.mono further valueHeld, valuesHeld⟩)
termination_by structural exprs

theorem keeps_evaluateEntries (host : setting.host.Keeps inv base) (entries : List (Expr × Expr))
    {world : World} (grown : inv.Grows base world) (held : inv.Held world frame)
    (code : ∀ entry ∈ entries, inv.Code world entry.1 ∧ inv.Code world entry.2)
    {before : List (Value × Value)} (beforeHeld : inv.Entries world before) :
    (setting.evaluateEntries frame before entries).Keeps inv world inv.Entries := by
  match entries with
  | [] => exact Run.keeps_pure beforeHeld
  | (key, value) :: rest =>
    rw [List.forall_mem_cons] at code
    refine (keeps_evaluate host key grown held code.1.1).bind fun middle wider keyValue keyHeld => ?_
    refine (keeps_evaluate host value (inv.trans grown wider) (held.mono wider)
      (inv.code_mono wider code.1.2)).bind fun last further heldValue valueHeld => ?_
    have all := inv.trans wider further
    split
    · exact Run.keeps_faultAt
    next absent =>
      refine keeps_evaluateEntries host rest (inv.trans grown all) (held.mono all) ?_ ?_
      · exact fun entry belongs => (code.2 entry belongs).imp (inv.code_mono all) (inv.code_mono all)
      · exact inv.entries_append (inv.entries_mono all beforeHeld) (inv.mono further keyHeld)
          valueHeld absent
termination_by structural entries

end

end Setting

/-- A call keeps an invariant that holds of the function and of the arguments. -/
theorem Closure.keeps_call {host : Host} (keeps : host.Keeps inv base) (grown : inv.Grows base world)
    {closure : Closure Value} {args : List Value} (function : inv.Holds world (.function closure))
    (argsHeld : ∀ arg ∈ args, inv.Holds world arg) :
    (closure.call host args).Keeps inv world inv.Holds := by
  unfold call
  dsimp only
  split
  · exact Run.keeps_faultAt
  · split
    · exact Run.keeps_faultAt
    · refine Run.keeps_freshId.bind fun middle wider id drawn => ?_
      have held : inv.Held middle
          (closure.frame.extend id ((closure.params.map (·.id)).zip args)) := by
        refine ⟨drawn, fun slot belongs => inv.mono wider ?_⟩
        rcases List.mem_append.mp belongs with own | captured
        · exact argsHeld slot.2 (List.of_mem_zip own).2
        · exact inv.captured function slot captured
      exact Setting.keeps_evaluate keeps _ (inv.trans grown wider) held
        (inv.code_mono wider (inv.body function))

end ExprLang
