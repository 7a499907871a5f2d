import ExprLang.Proofs.Eval.Invariants
import ExprLang.Proofs.Lexical.Session

/-!
# What sessions keep

An invariant of values that code of the host keeps, and that holds of the globals of an engine, holds
of all that a host has after any moves: of the values of globals, of those in the frames of units, and
of the values that the host got (`Session.Keeps`, `Session.Keeps.after`).
-/

namespace ExprLang

variable {World : Type} {inv : Invariant World} {base world wider : World}

/-- What an invariant asks of code holds of what elaboration makes, in a world that grew by what
elaboration drew. -/
def Invariant.Elaborated (inv : Invariant World) : Prop :=
  ∀ elaborator scope depth form next expr later world, inv.Free world next →
    Elaborator.Elaborates elaborator scope depth form next expr later →
    ∃ wider, inv.Grows world wider ∧ inv.Free wider later ∧ inv.Code wider expr

structure Session.Keeps (inv : Invariant World) (base world : World)
    (session : Session Engine Compiled Value) : Prop where
  host : session.state.host.Keeps inv base
  grown : inv.Grows base world
  free : inv.Free world session.state.supply
  globals : inv.Held world session.state.globals
  units : ∀ compiled ∈ session.units,
    inv.Code world compiled.unit.root ∧ inv.Held world compiled.unit.frame
  values : ∀ value ∈ session.values, inv.Holds world value

namespace Engine

variable {engine after : Engine} {value : Value}

/-- An operation made a value that an invariant holds of, and nothing else happened but that more was
drawn. -/
def Made (inv : Invariant World) (world : World) (engine : Engine) (value : Value)
    (after : Engine) : Prop :=
  ∃ supply wider, after = { engine with supply } ∧ inv.Grows world wider ∧ inv.Free wider supply ∧
    inv.Holds wider value

theorem made_of_perform {run : Run Value} (free : inv.Free world engine.supply)
    (keeps : run.Keeps inv world inv.Holds) (done : engine.perform run = .ok (value, after)) :
    engine.Made inv world value after := by
  obtain ⟨supply, ran, rfl⟩ := perform_ok done
  obtain ⟨wider, grown, widerFree, held⟩ := keeps engine.supply free value supply ran
  exact ⟨supply, wider, rfl, grown, widerFree, held⟩

/-- An invariant that holds of the globals and of a value holds of the globals when the value is
defined. -/
theorem held_defining (free : inv.Free world engine.supply) (globals : inv.Held world engine.globals)
    (held : inv.Holds world value) (name : String) :
    (engine.defining name value).2.host = engine.host ∧
      ∃ wider, inv.Grows world wider ∧ inv.Free wider (engine.defining name value).2.supply ∧
        inv.Held wider (engine.defining name value).2.globals := by
  have later := inv.free_of_le free (Nat.le_succ _)
  unfold defining
  dsimp only
  split
  · obtain ⟨wider, grown, widerFree, drawn⟩ := inv.draw later
    refine ⟨rfl, wider, grown, widerFree, drawn, fun slot belongs => inv.mono grown ?_⟩
    rcases Frame.mem_setSlot belongs with rfl | earlier
    · exact held
    · exact globals.slots slot earlier
  · exact ⟨rfl, world, inv.refl world, later, globals⟩

end Engine

namespace Session.Keeps

variable {session : Session Engine Compiled Value}

/-- What a host has keeps an invariant when the world grows. -/
theorem grow (keeps : session.Keeps inv base world) (state : Engine) (grown : inv.Grows world wider)
    (free : inv.Free wider state.supply) (host : state.host = session.state.host)
    (globals : inv.Held wider state.globals) : Keeps inv base wider { session with state } where
  host := host ▸ keeps.host
  grown := inv.trans keeps.grown grown
  free := free
  globals := globals
  units compiled belongs := (keeps.units compiled belongs).imp (inv.code_mono grown) (·.mono grown)
  values value belongs := inv.mono grown (keeps.values value belongs)

theorem keep (keeps : session.Keeps inv base world)
    {outcome : Except Diagnostic (Value × Engine)}
    (made : ∀ value after, outcome = .ok (value, after) → session.state.Made inv world value after) :
    ∃ wider, (session.keep outcome).2.Keeps inv base wider := by
  cases outcome with
  | error report => exact ⟨world, keeps⟩
  | ok result =>
    obtain ⟨value, after⟩ := result
    obtain ⟨supply, wider, rfl, grown, free, held⟩ := made value after rfl
    have later := keeps.grow { session.state with supply } grown free rfl (keeps.globals.mono grown)
    refine ⟨wider, { later with values := fun other belongs => ?_ }⟩
    rcases List.mem_append.mp belongs with earlier | last
    · exact later.values other earlier
    · obtain rfl := List.mem_singleton.mp last
      exact held

theorem pick (keeps : session.Keeps inv base world) {numbers : List Nat} :
    ∀ value ∈ session.pick numbers, inv.Holds world value := by
  intro value belongs
  obtain ⟨number, -, found⟩ := List.mem_filterMap.mp belongs
  exact keeps.values value (List.mem_of_getElem? found)

/-- Every move keeps an invariant of all that a host has. -/
theorem act (elaborated : inv.Elaborated) (keeps : session.Keeps inv base world) (move : Move) :
    ∃ wider, (Engine.machine.act session move).2.Keeps inv base wider := by
  cases move with
  | configure registry heads options => exact ⟨world, { keeps with }⟩
  | declare name ty =>
    exact ⟨world, keeps.grow _ (inv.refl world) (inv.free_of_le keeps.free (Nat.le_succ _)) rfl
      keeps.globals⟩
  | datum leaf =>
    refine keeps.keep fun value after made => ?_
    cases made
    exact ⟨_, world, rfl, inv.refl world, keeps.free, inv.datum⟩
  | define name value =>
    unfold Machine.act
    dsimp only
    split
    · exact ⟨world, keeps⟩
    next held found =>
      have value := keeps.values held (List.mem_of_getElem? found)
      obtain ⟨host, wider, grown, free, globals⟩ :=
        Engine.held_defining keeps.free keeps.globals value name
      exact ⟨wider, keeps.grow _ grown free host globals⟩
  | compile form =>
    unfold Machine.act Engine.machine
    dsimp only
    rcases made : session.state.compilingForm form with ⟨outcome, after⟩
    have compiled := Engine.compileForm_of_compiling made
    cases outcome with
    | error report =>
      obtain ⟨supply, more, rfl⟩ := Engine.drawn_of_compiling made
      exact ⟨world, keeps.grow _ (inv.refl world) (inv.free_of_le keeps.free more) rfl
        keeps.globals⟩
    | ok unit =>
      obtain ⟨frame, -, supply, ran, rfl⟩ := Engine.compileForm_ok compiled
      obtain ⟨wider, grown, free, code⟩ :=
        elaborated _ _ _ _ _ _ _ _ keeps.free (Elaborator.elaborates_of_ok ran)
      have later := keeps.grow { session.state with supply } grown free rfl
        (keeps.globals.mono grown)
      refine ⟨wider, { later with units := fun compiled belongs => ?_ }⟩
      rcases List.mem_append.mp belongs with earlier | last
      · exact later.units compiled earlier
      · obtain rfl := List.mem_singleton.mp last
        exact ⟨code, frame ▸ later.globals⟩
  | code key target args =>
    unfold Machine.act
    dsimp only
    split
    · exact ⟨world, keeps⟩
    next held found =>
      refine keeps.keep fun value after made => ?_
      unfold Engine.machine Engine.runCode at made
      dsimp only at made
      split at made
      next result supply ran =>
        cases made
        have target := keeps.values held (List.mem_of_getElem? found)
        obtain ⟨wider, grown, free, value⟩ := keeps.host.callback key world keeps.grown
          _ _ _ _ _ keeps.free target keeps.pick ran
        exact ⟨supply, wider, rfl, grown, free, value⟩
      · cases made
  | run unit =>
    unfold Machine.act
    dsimp only
    split
    · exact ⟨world, keeps⟩
    next compiled found =>
      obtain ⟨code, frame⟩ := keeps.units compiled (List.mem_of_getElem? found)
      exact keeps.keep fun value after => Engine.made_of_perform keeps.free
        (Setting.keeps_evaluate keeps.host _ keeps.grown frame code)
  | call function args =>
    unfold Machine.act
    dsimp only
    split
    · exact ⟨world, keeps⟩
    next held found =>
      have callee := keeps.values held (List.mem_of_getElem? found)
      cases held with
      | function closure =>
        exact keeps.keep fun value after => Engine.made_of_perform keeps.free
          (Closure.keeps_call keeps.host keeps.grown callee keeps.pick)
      | datum | list | map | object => exact ⟨world, keeps⟩

/-- Whatever a host does, one move after the other, keeps an invariant of all that it has. -/
theorem after (elaborated : inv.Elaborated) (keeps : session.Keeps inv base world)
    (moves : List Move) : ∃ wider, (Engine.machine.after session moves).Keeps inv base wider := by
  induction moves generalizing session world with
  | nil => exact ⟨world, keeps⟩
  | cons move rest ih =>
    obtain ⟨wider, next⟩ := keeps.act elaborated move
    exact ih next

end Session.Keeps

end ExprLang
