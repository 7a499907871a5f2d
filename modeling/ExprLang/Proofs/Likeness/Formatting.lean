import Mathlib.Data.List.Permutation
import ExprLang.Proofs.Likeness.Engines
import ExprLang.Proofs.Likeness.Reading
import ExprLang.Proofs.Likeness.Recipes
import ExprLang.Proofs.Likeness.Reflexive
import ExprLang.Proofs.Phases

/-!
# Formatting is inert

Where the parts of a form were found decides nothing but the places of reports. Forms that are the
same compile alike and run alike, functions that come out of them can be called alike, and texts
whose pieces agree have outcomes that are alike (`Engine.formatting_inert`).
-/

namespace ExprLang

/-- Two runs that may differ in locations and identities only. -/
def Likeness.unlocated : Likeness where
  places _ _ := True
  names _ := True
  keys _ := True
  registries registry other := registry = other

instance : Likeness.unlocated.Whole where
  places _ := trivial
  names _ := trivial
  keys _ := trivial
  registries _ := rfl

/-! ## What does not depend on locations -/

theorem Registry.agree_unlocated (registry : Registry) : registry.Agree .unlocated registry :=
  registry.agree_self

namespace Form

mutual

/-- Forms that are the same are alike wherever they were found. -/
theorem alike_of_same {form other : Form} (same : form.same other = true) :
    form.Alike (fun _ _ => True) (fun _ => True) other := by
  match form, other with
  | .atom text loc, .atom otherText otherLoc =>
    obtain rfl : text = otherText := by simpa only [Form.same, beq_iff_eq] using same
    exact .atom trivial trivial
  | .combo bracket forms loc, .combo otherBracket others otherLoc =>
    simp only [Form.same, Bool.and_eq_true, beq_iff_eq] at same
    obtain ⟨rfl, parts⟩ := same
    exact .combo (forall₂_of_sameAll parts) trivial
termination_by structural form

theorem forall₂_of_sameAll {forms others : List Form} (same : sameAll forms others = true) :
    List.Forall₂ (Form.Alike (fun _ _ => True) fun _ => True) forms others := by
  match forms, others with
  | [], [] => exact .nil
  | form :: forms, other :: others =>
    simp only [sameAll, Bool.and_eq_true] at same
    exact .cons (alike_of_same same.1) (forall₂_of_sameAll same.2)
termination_by structural forms

end

end Form

namespace Engine

variable {engine first second : Engine}

/-- An engine agrees with itself whenever more was drawn. -/
theorem agree_of_drawn (reached : engine.Reached) (drawn : engine.Drawn first)
    (otherDrawn : engine.Drawn second) :
    first.Agree .unlocated engine.supply (fun _ => True) second := by
  have rooted := reached.rooted
  obtain ⟨supply, more, rfl⟩ := drawn
  obtain ⟨otherSupply, otherMore, rfl⟩ := otherDrawn
  exact
    { elaborators :=
        { registry := engine.registry.agree_unlocated
          resolve := fun _ _ => rfl
          resolved := fun _ _ _ _ => Ty.over_self _
          heads := fun _ _ => rfl
          maxDepth := rfl }
      bindings := fun _ _ => rfl
      known := fun name binding _ found =>
        ⟨rooted.id_lt (rooted.mem_of_lookup found), Ty.over_self _⟩
      drawn := ⟨more, otherMore⟩ }

/-- An engine is alike to itself whenever more was drawn. -/
theorem alike_of_drawn (reached : engine.Reached)
    (settled : engine.globals.Below engine.supply)
    (inert : engine.host.Inert .unlocated engine.supply) (drawn : engine.Drawn first)
    (otherDrawn : engine.Drawn second) :
    first.Alike .unlocated engine.supply (fun _ => True) second := by
  have agree := agree_of_drawn reached drawn otherDrawn
  have rooted := reached.rooted
  obtain ⟨supply, more, rfl⟩ := drawn
  obtain ⟨otherSupply, otherMore, rfl⟩ := otherDrawn
  exact
    { agree with
      kept := rfl
      values := fun id _ => settled.rel_lookup id
      rooted := rooted.drawn ⟨supply, more, rfl⟩
      otherRooted := rooted.drawn ⟨otherSupply, otherMore, rfl⟩
      frames := ⟨Nat.lt_of_lt_of_le settled.id more, Nat.lt_of_lt_of_le settled.id otherMore⟩
      host := fun key _ => inert.callback key }

/-! ## What shows formatting -/

end Engine

namespace Prober

/-- Code that calls a function without arguments and answers the line of the failure. -/
def probe : Callback := fun _ args next =>
  match args with
  | [.function closure] =>
    match closure.call {} [] next with
    | .error report =>
      let line := (report.location.map (·.line)).getD 0
      .ok (.datum (.int (BitVec.ofNat 32 line)), next)
    | .ok result => .ok result
  | _ => .error "a function is expected"

def engine : Engine :=
  (Engine.withOptions {}).register
    { name := "Probe", constructors := [([.func [.int] .int], probe)] }

def form (line : Nat) : Form :=
  let loc : Location := ⟨"probe", line, 1⟩
  let atom (text : String) : Form := .atom text loc
  let combo (children : List Form) : Form := .combo .paren children loc
  combo [atom "new", atom "Probe",
    combo [atom "=>", combo [combo [atom "int", atom "x"]], atom "x"]]

end Prober

namespace Engine

theorem lexemes_paren : lexemes {} ")".toList = [⟨.closer .paren, ⟨1, 1⟩, ⟨1, 2⟩⟩] := by
  cbv

theorem lexemes_square : lexemes {} "]".toList = [⟨.closer .square, ⟨1, 1⟩, ⟨1, 2⟩⟩] := by
  cbv

theorem closers_alike : List.Forall₂ (fun lexeme second => lexeme.piece.Alike true second.piece)
    (lexemes {} ")".toList) (lexemes {} "]".toList) := by
  rw [lexemes_paren, lexemes_square]
  exact .cons (.closers rfl _ _) .nil

/-- Formatting can be seen. The message about a closer without an opener shows the closer, also
where a lenient reader takes any closer; and code of a host that looks at places can answer them. -/
theorem formatting_seen :
    (List.Forall₂ (fun lexeme second => lexeme.piece.Alike true second.piece)
        (lexemes {} ")".toList) (lexemes {} "]".toList) ∧
      ∃ report other, (withOptions {}).compile ")" = .error report ∧
        (withOptions {}).compile "]" = .error other ∧ report.message ≠ other.message) ∧
    (Prober.form 1).same (Prober.form 2) = true ∧
      ∃ unit otherUnit later otherLater,
        Prober.engine.compileForm (Prober.form 1) = .ok (unit, later) ∧
        Prober.engine.compileForm (Prober.form 2) = .ok (otherUnit, otherLater) ∧
        later.invoke unit = .ok (.datum (.int 1), later) ∧
        otherLater.invoke otherUnit = .ok (.datum (.int 2), otherLater) := by
  have refused : (withOptions {}).compile ")" =
      .error ((Fault.closerWithoutOpener .paren).reportAt ⟨"<input>", 1, 1⟩) := by
    simp only [compile, read, Reader.readOnly, Reader.readForm, Input.ofText, lexemes_paren]
    rfl
  have otherRefused : (withOptions {}).compile "]" =
      .error ((Fault.closerWithoutOpener .square).reportAt ⟨"<input>", 1, 1⟩) := by
    simp only [compile, read, Reader.readOnly, Reader.readForm, Input.ofText, lexemes_square]
    rfl
  refine ⟨⟨closers_alike, _, _, refused, otherRefused, by decide⟩, rfl, ?_⟩
  · refine ⟨_, _, { Prober.engine with supply := 3 }, { Prober.engine with supply := 3 }, rfl, rfl,
      ?_, ?_⟩
    · rfl
    · rfl

/-- Two engines that an engine became by drawing compile what is formatted differently to what
corresponds: forms that are the same, and texts whose pieces agree, also if closers differ in kind
and the reader is lenient. They fail with reports that differ in their places only, except that the
message about a closer without an opener shows which one it is. -/
structure CompilesLikewise (engine first second : Engine)
    (related : CompiledUnit × Engine → CompiledUnit × Engine → Prop) : Prop where
  forms : ∀ form other : Form, form.same other = true →
    Likewise Likeness.unlocated.places related (first.compileForm form) (second.compileForm other)
  texts : ∀ (anyCloser : Bool) (source other : String),
    (anyCloser = true → engine.options.strict = false) →
    List.Forall₂ (fun lexeme second => lexeme.piece.Alike anyCloser second.piece)
      (lexemes {} source.toList) (lexemes {} other.toList) →
    Parallel (Diagnostic.Resembles anyCloser) related (first.compile source) (second.compile other)

/-- Texts whose pieces agree are read to forms that are alike, so what engines make of such forms is
what they make of the texts. -/
theorem compilesLikewise_of_forms {engine first second : Engine}
    {related : CompiledUnit × Engine → CompiledUnit × Engine → Prop}
    (drawn : engine.Drawn first) (otherDrawn : engine.Drawn second)
    (forms : ∀ form other : Form, form.Alike (fun _ _ => True) (fun _ => True) other →
      Likewise Likeness.unlocated.places related (first.compileForm form)
        (second.compileForm other)) : engine.CompilesLikewise first second related where
  forms form other same := forms form other (Form.alike_of_same same)
  texts anyCloser source other lenient agree := by
    obtain ⟨supply, -, rfl⟩ := drawn
    obtain ⟨otherSupply, -, rfl⟩ := otherDrawn
    have texts : Reader.TextsAgree (fun _ _ => True) (fun _ => True) anyCloser
        (engine.reader engine.options.sourceName).file source other :=
      agree.imp fun _ _ pieces => ⟨pieces, trivial, fun _ _ => trivial⟩
    rw [compile_eq, compile_eq]
    refine (Reader.readOnly_alike lenient texts).bind fun form otherForm alike => ?_
    exact (forms form otherForm alike).mono_fails fun _ _ held => held.resembles

/-- **Formatting is inert.** Whatever was drawn in the meantime, an engine of a session compiles
forms that are the same, and texts whose pieces agree, to roots that are alike up to locations and
new identities, or fails with reports that differ in their places only.

Runs show no more of the formatting than the code of the host does. Let that code answer alike when
it is given what is alike; as in every session, the values of the globals are made of what was drawn
(`Engine.settled_in_session`). Then runs of the units give values that are alike, or fail alike, and
functions that are alike do the same with arguments that are alike. -/
theorem formatting_inert {engine : Engine} (reached : engine.Reached) :
    (∀ first second, engine.Drawn first → engine.Drawn second →
      engine.CompilesLikewise first second
        (first.RootsAlike .unlocated (fun _ => True) second)) ∧
    (engine.globals.Below engine.supply → engine.host.Inert .unlocated engine.supply →
      (∀ first second, engine.Drawn first → engine.Drawn second →
        engine.CompilesLikewise first second
          (first.CompiledAlike .unlocated engine.supply (fun _ => True) second)) ∧
      ∀ (world : World) (caller otherCaller : Engine) (closure other : Closure Value)
        (args otherArgs : List Value), caller.host = engine.host →
        otherCaller.host = engine.host → World.below engine.supply ≤ world →
        world.Fits caller.supply otherCaller.supply →
        Value.Alike .unlocated world (.function closure) (.function other) →
        List.Forall₂ (Value.Alike .unlocated world) args otherArgs →
        RunAlike .unlocated world (caller.call closure args)
          (otherCaller.call other otherArgs)) := by
  refine ⟨fun first second drawn otherDrawn => ?_, fun settled inert => ⟨?_, ?_⟩⟩
  · have agree := agree_of_drawn reached drawn otherDrawn
    exact compilesLikewise_of_forms drawn otherDrawn fun form other => agree.compileForm
  · intro first second drawn otherDrawn
    have alike := alike_of_drawn reached settled inert drawn otherDrawn
    exact compilesLikewise_of_forms drawn otherDrawn fun form other => alike.compileForm
  · intro world caller otherCaller closure other args otherArgs host otherHost old fits functions
      parts
    have hosts (key : Nat) (_ : Likeness.unlocated.keys key) :
        Callback.Likewise .unlocated engine.supply (caller.host.callback key)
          (otherCaller.host.callback key) := by
      rw [host, otherHost]
      exact inert.callback key
    refine call_alike ?_ hosts old functions parts fits
    rintro registry _ rfl
    exact registry.agree_unlocated

end Engine

/-! ## A function with a global -/

namespace PointHost

def withOrigin : Engine :=
  (engine.defining "origin" (.object 0 "Point" [.datum (.int 0)])).2

def isOrigin (line : Nat) : Form :=
  let loc : Location := ⟨"point", line, 1⟩
  let atom (text : String) : Form := .atom text loc
  let combo (children : List Form) : Form := .combo .paren children loc
  combo [atom "=>", combo [combo [atom "Point", atom "p"]],
    combo [atom "==", atom "p", atom "origin"]]

theorem reached_withOrigin : withOrigin.Reached := by
  have defined : engine.defineGlobal "origin" (.object 0 "Point" [.datum (.int 0)]) =
      .ok (⟨1, "origin", .named "Point"⟩, withOrigin) := rfl
  exact trusted.reached.global defined

theorem below_withOrigin : withOrigin.globals.Below withOrigin.supply := by
  refine ⟨by decide, fun slot belongs => ?_⟩
  obtain rfl : slot = (1, .object 0 "Point" [.datum (.int 0)]) := List.mem_singleton.mp belongs
  exact .object (by decide) fun slot held => List.mem_singleton.mp held ▸ .datum

theorem inert_withOrigin : withOrigin.host.Inert .unlocated withOrigin.supply := by
  intro callback belongs
  obtain rfl : callback = makePoint := List.mem_singleton.mp belongs
  exact Recipe.likewise (.make "Point") trivial

end PointHost

namespace Engine

/-- Formatting is inert for a function that compares with a global, and for texts of one closer. -/
theorem formatting_inert_withOrigin :
    let later := { PointHost.withOrigin with supply := 9 }
    (∃ made otherMade, PointHost.withOrigin.compileForm (PointHost.isOrigin 1) = .ok made ∧
        later.compileForm (PointHost.isOrigin 2) = .ok otherMade ∧
        PointHost.withOrigin.CompiledAlike .unlocated 3 (fun _ => True) later made otherMade) ∧
      Parallel (Diagnostic.Resembles true)
        (PointHost.withOrigin.CompiledAlike .unlocated 3 (fun _ => True) later)
        (PointHost.withOrigin.compile ")") (later.compile "]") := by
  intro later
  obtain ⟨inert, -⟩ := (formatting_inert PointHost.reached_withOrigin).2 PointHost.below_withOrigin
    PointHost.inert_withOrigin
  obtain ⟨forms, texts⟩ := inert PointHost.withOrigin later (drawn_refl _) ⟨9, by decide, rfl⟩
  refine ⟨?_, texts true ")" "]" (fun _ => rfl) closers_alike⟩
  · have alike := forms (PointHost.isOrigin 1) (PointHost.isOrigin 2) rfl
    generalize made : PointHost.withOrigin.compileForm (PointHost.isOrigin 1) = outcome at alike
    generalize otherMade : later.compileForm (PointHost.isOrigin 2) = otherOutcome at alike
    cases alike with
    | ok held => exact ⟨_, _, rfl, rfl, held⟩
    | error => cases made

end Engine

end ExprLang
