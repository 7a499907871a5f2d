import ExprLang.Proofs.Form.RoundTrip
import ExprLang.Proofs.Form.Seams
import ExprLang.Proofs.Likeness.Formatting

/-!
# Texts, files and single forms

An engine reads a text that has to hold one form, and a file of any number of forms, with one
reader. The two ways of reading agree (`Reader.readOnly_of_readAll`). A file is run form by form in
one engine that only draws identities in between, so each form compiles as its text does in the
engine on its own. Code of the host can tell the one from the other (`Engine.files_seen`); where it
does not, each form gives what its text gives, and the first failure is that of the first form that
fails on its own (`Engine.files_run_as_texts`).
-/

namespace ExprLang

/-! ## One form and all forms -/

namespace Reader

variable {reader : Reader} {finish : Position} {stack : List OpenCombo} {pieces rest : List Lexeme}
  {form : Form} {forms : List Form} {behind : Input} {text : String}

/-- What is read with combos open is the outermost of them. -/
theorem loc_of_readWith {place : Location} (last : (stack.map (·.opened)).getLast? = some place)
    (read : reader.readWith finish stack pieces = (.ok form, behind)) : form.loc = place := by
  -- A form that is complete becomes a child of the combo around it, which stays where it was opened.
  induction pieces generalizing stack with
  | nil =>
    cases stack with
    | nil => cases last
    | cons combo below => cases read
  | cons lexeme rest ih =>
    obtain ⟨piece, start, stop⟩ := lexeme
    cases piece with
    | unterminated text => cases read
    | opener bracket =>
      simp only [readWith] at read
      split at read
      · cases read
      · refine ih ?_ read
        rw [List.map_cons, List.getLast?_cons, last]
        rfl
    | atom text =>
      cases stack with
      | nil => cases last
      | cons outer below =>
        refine ih ?_ read
        exact last
    | closer bracket =>
      cases stack with
      | nil => cases last
      | cons inner below =>
        simp only [readWith] at read
        split at read
        · cases read
        · cases below with
          | nil =>
            cases read
            cases last
            rfl
          | cons outer below =>
            rw [List.map_cons, List.map_cons, List.getLast?_cons_cons] at last
            refine ih ?_ read
            exact last

/-- A form starts at the first piece that is left. -/
theorem loc_of_readForm {lexeme : Lexeme}
    (read : reader.readWith finish [] (lexeme :: rest) = (.ok form, behind)) :
    form.loc = lexeme.start.inFile reader.file := by
  obtain ⟨piece, start, stop⟩ := lexeme
  cases piece with
  | unterminated text => cases read
  | opener bracket =>
    simp only [readWith] at read
    split at read
    · cases read
    · exact loc_of_readWith rfl read
  | atom text =>
    cases read
    rfl
  | closer bracket => cases read

/-- What a text that has to hold one form is read to, if it ends at a position and holds certain
forms. -/
def only (reader : Reader) (finish : Position) : List Form → Except Diagnostic Form
  | [] => .error (Fault.endOfInput.reportAt (finish.inFile reader.file))
  | [form] => .ok form
  | _ :: second :: _ => .error (Fault.secondForm.reportAt second.loc)

/-- Reading a text that has to hold one form agrees with reading all of its forms. -/
theorem readOnly_of_readAll (read : reader.readAll text = .ok forms) :
    reader.readOnly text = reader.only (Position.advance {} text.toList) forms := by
  unfold readAll at read
  by_cases ended : (Input.ofText text).atEnd = true
  · have none : (Input.ofText text).lexemes = [] := by simpa [Input.atEnd] using ended
    rw [readForms, dif_pos ended] at read
    cases read
    rw [readOnly, readForm, none]
    rfl
  rw [readForms_eq _ ended] at read
  rw [readOnly]
  generalize reader.readForm (.ofText text) = outcome at read ⊢
  obtain ⟨outcome, behind⟩ := outcome
  cases outcome with
  | error report => cases read
  | ok first =>
    dsimp only at read ⊢
    by_cases ended : behind.atEnd = true
    · have none : behind.lexemes = [] := by simpa [Input.atEnd] using ended
      rw [readForms, dif_pos ended] at read
      cases read
      rw [none]
      rfl
    · rw [readForms_eq _ ended, readForm] at read
      obtain ⟨pieces, position, finish⟩ := behind
      cases pieces with
      | nil => exact absurd rfl ended
      | cons next rest =>
        dsimp only at read ⊢
        cases second : reader.readWith finish [] (next :: rest) with
        | mk outcome after =>
          rw [second] at read
          cases outcome with
          | error report => cases read
          | ok form =>
            dsimp only at read
            cases others : reader.readForms after with
            | error report =>
              rw [others] at read
              cases read
            | ok more =>
              rw [others] at read
              cases read
              exact congrArg (Except.error <| Fault.secondForm.reportAt ·)
                (loc_of_readForm second).symm

/-- A text that holds one form holds nothing else. -/
theorem readAll_of_readOnly (read : reader.readOnly text = .ok form) :
    reader.readAll text = .ok [form] := by
  unfold readOnly at read
  cases first : reader.readForm (.ofText text) with
  | mk outcome behind =>
    rw [first] at read
    cases outcome with
    | error report => cases read
    | ok other =>
      obtain ⟨pieces, position, finish⟩ := behind
      cases pieces with
      | nil =>
        cases read
        exact readForms_of_readForm first (readForms_nil ..)
      | cons next rest => cases read

end Reader

/-! ## Running form by form -/

/-- What is drawn in a world in which all older identities correspond to themselves is drawn later. -/
theorem World.Fits.le_of_below {older next other : Nat} {world : World}
    (wide : World.below older ≤ world) (fits : world.Fits next other) : older ≤ next := by
  cases older with
  | zero => exact Nat.zero_le _
  | succ last => exact (fits.identities last last (wide.1 _ _ ⟨rfl, Nat.lt_succ_self last⟩)).1

namespace Engine

variable {engine current : Engine} {form : Form} {forms : List Form}

/-- A form can be written and read back by an engine. -/
def Rereads (engine : Engine) (form : Form) : Prop :=
  form.Readable ∧ form.nesting ≤ engine.options.maxDepth

/-- A value is what the text of a form gives, compiled and run in an engine on its own, up to places
and to identities that were not drawn before. -/
def GivesAlone (engine : Engine) (form : Form) (value : Value) : Prop :=
  ∃ alone later world, engine.run form.display = .ok (alone, later) ∧
    World.below engine.supply ≤ world ∧ value.Alike .unlocated world alone

theorem GivesAlone.runs {value : Value} (given : engine.GivesAlone form value) :
    ∃ alone later, engine.run form.display = .ok (alone, later) := by
  obtain ⟨alone, later, -, run, -⟩ := given
  exact ⟨alone, later, run⟩

/-- An engine compiles the text of a form as the form. -/
theorem compile_display (rereads : engine.Rereads form) :
    ∃ again, form.same again = true ∧
      engine.compile form.display = engine.compileForm again := by
  obtain ⟨again, same, read⟩ := @Reader.readForm_display
    (engine.reader engine.options.sourceName) form rereads.1 rereads.2
  refine ⟨again, same, ?_⟩
  have found : engine.read form.display = .ok again := by
    unfold Engine.read Reader.readOnly
    rw [read]
  rw [compile_eq, found]
  rfl

/-- An engine that has drawn identities compiles a form as the engine before compiles its text. -/
theorem compileForm_display (reached : engine.Reached) (drawn : engine.Drawn current)
    (rereads : engine.Rereads form) :
    Likewise Likeness.unlocated.places (current.RootsAlike .unlocated (fun _ => True) engine)
      (current.compileForm form) (engine.compile form.display) := by
  obtain ⟨again, same, text⟩ := compile_display rereads
  rw [text]
  exact (agree_of_drawn reached drawn (drawn_refl engine)).compileForm (Form.alike_of_same same)

/-- An engine that has drawn identities runs a form as the engine before runs its text. -/
theorem runForm_alike (reached : engine.Reached) (settled : engine.globals.Below engine.supply)
    (inert : engine.host.Inert .unlocated engine.supply) (drawn : engine.Drawn current)
    (rereads : engine.Rereads form) :
    RunAlike .unlocated (.below engine.supply) (current.runForm form) (engine.run form.display) := by
  obtain ⟨again, same, text⟩ := compile_display rereads
  rw [run, text]
  have alike := alike_of_drawn reached settled inert drawn (drawn_refl engine)
  refine (alike.compileForm (Form.alike_of_same same)).bind fun made otherMade compiled => ?_
  exact compiled.runs _ _ (drawn_refl _) (drawn_refl _)

/-- Running a form changes nothing but the supply of an engine. -/
theorem runForm_ok {value : Value} {later : Engine}
    (done : current.runForm form = .ok (value, later)) :
    ∃ supply, later = { current with supply } := by
  unfold runForm at done
  cases compiled : current.compileForm form with
  | error report =>
    rw [compiled] at done
    cases done
  | ok made =>
    rw [compiled] at done
    obtain ⟨-, -, supply, -, same⟩ := compileForm_ok compiled
    obtain ⟨last, -, rfl⟩ := perform_ok done
    exact ⟨last, by rw [same]⟩

/-- Running forms in order gives what each gives on its own, or fails as the first one does that
fails on its own. -/
theorem runForms_alone (reached : engine.Reached) (settled : engine.globals.Below engine.supply)
    (inert : engine.host.Inert .unlocated engine.supply) (drawn : engine.Drawn current)
    (reread : ∀ form ∈ forms, engine.Rereads form) :
    (∀ values later, current.runForms forms = .ok (values, later) →
      List.Forall₂ engine.GivesAlone forms values) ∧
    ∀ report, current.runForms forms = .error report →
      ∃ before form after other, forms = before ++ form :: after ∧
        (∀ earlier ∈ before, ∃ value, engine.GivesAlone earlier value) ∧
        engine.run form.display = .error other ∧ report.Alike (fun _ _ => True) other := by
  induction forms generalizing current with
  | nil =>
    refine ⟨fun values later done => ?_, fun report failed => nomatch failed⟩
    cases done
    exact .nil
  | cons form rest ih =>
    rw [List.forall_mem_cons] at reread
    have alike := runForm_alike reached settled inert drawn reread.1
    rw [runForms]
    cases first : current.runForm form with
    | error report =>
      rw [first] at alike
      refine ⟨(fun values later done => nomatch done), fun other failed => ?_⟩
      cases failed
      generalize alone : engine.run form.display = outcome at alike
      cases alike with
      | error held => exact ⟨[], form, rest, _, rfl, nofun, alone, held⟩
    | ok done =>
      obtain ⟨value, middle⟩ := done
      rw [first] at alike
      generalize alone : engine.run form.display = outcome at alike
      cases alike with
      | @ok _ result held =>
        obtain ⟨world, wide, fits, values⟩ := held
        have gives : engine.GivesAlone form value :=
          ⟨result.1, result.2, world, alone, wide, values⟩
        have onward : engine.Drawn middle := by
          obtain ⟨supply, rfl⟩ := runForm_ok first
          obtain ⟨_, -, rfl⟩ := drawn
          exact ⟨supply, fits.le_of_below wide, rfl⟩
        obtain ⟨succeed, fail⟩ := ih onward reread.2
        simp only [bind, Except.bind]
        cases others : middle.runForms rest with
        | error report =>
          refine ⟨(fun values later done => nomatch done), fun other failed => ?_⟩
          cases failed
          obtain ⟨before, part, after, lone, rfl, ran, failing⟩ := fail _ others
          exact ⟨form :: before, part, after, lone, rfl,
            List.forall_mem_cons.mpr ⟨⟨value, gives⟩, ran⟩, failing⟩
        | ok more =>
          refine ⟨fun values later done => ?_, fun other failed => nomatch failed⟩
          cases done
          exact .cons gives (succeed _ _ others)

/-- The forms of a file can be written and read back. -/
theorem rereads_of_formsOfFile {name : String} {content : FileContent}
    (found : engine.formsOfFile name content = .ok forms) :
    ∀ form ∈ forms, engine.Rereads form := by
  unfold formsOfFile at found
  cases decoded : content.text with
  | error failure =>
    rw [decoded] at found
    cases found
  | ok text =>
    simp only [decoded, bind, Except.bind] at found
    cases read : (engine.reader name).readAll text with
    | error report =>
      rw [read] at found
      cases found
    | ok all =>
      rw [read] at found
      cases found
      obtain ⟨readable, shallow⟩ := Reader.readable_of_readAll read
      exact Form.forall_mem_of_all readable shallow

/-- A file is run by running its forms. -/
theorem runFile_of_formsOfFile {name : String} {content : FileContent}
    (found : engine.formsOfFile name content = .ok forms) :
    engine.runFile name content = (engine.runForms forms).mapError .report := by
  rw [runFile, found]
  rfl

/-- **One form, many forms and files.** An engine reads a text as one form exactly if all forms of
the text are that form; a text of more forms is refused at the second one, and a text without forms
at its end. Each form of a file compiles, also after other forms were run, as its text does in the
engine on its own.

Let code of the host answer alike when it is given what is alike; as in every session, the values of
the globals are made of what was drawn (`Engine.settled_in_session`). Then a file is run to values
exactly if the text of each of its forms, compiled and run in the engine on its own, gives a value,
and these are then the values; otherwise the first form whose text fails on its own gives the
failure, at another place. -/
theorem files_run_as_texts (engine : Engine) :
    (∀ source,
      (∀ form, engine.read source = .ok form ↔
        (engine.reader engine.options.sourceName).readAll source = .ok [form]) ∧
      (∀ first second rest,
        (engine.reader engine.options.sourceName).readAll source = .ok (first :: second :: rest) →
        ∃ report, engine.read source = .error report ∧ report.code = .trailingContent ∧
          report.location = some second.loc) ∧
      ((engine.reader engine.options.sourceName).readAll source = .ok [] →
        ∃ report, engine.read source = .error report ∧ report.code = .unexpectedEndOfFile)) ∧
    (engine.Reached → ∀ name content forms, engine.formsOfFile name content = .ok forms →
      (∀ form ∈ forms, ∀ current, engine.Drawn current →
        Likewise Likeness.unlocated.places (current.RootsAlike .unlocated (fun _ => True) engine)
          (current.compileForm form) (engine.compile form.display)) ∧
      (engine.globals.Below engine.supply → engine.host.Inert .unlocated engine.supply →
        ((∃ values later, engine.runFile name content = .ok (values, later)) ↔
          ∀ form ∈ forms, ∃ value later, engine.run form.display = .ok (value, later)) ∧
        (∀ values later, engine.runFile name content = .ok (values, later) →
          List.Forall₂ engine.GivesAlone forms values) ∧
        ∀ failure, engine.runFile name content = .error failure →
          ∃ before form after report other, forms = before ++ form :: after ∧
            (∀ earlier ∈ before, ∃ value, engine.GivesAlone earlier value) ∧
            engine.run form.display = .error other ∧ failure = .report report ∧
            report.Alike (fun _ _ => True) other)) := by
  refine ⟨fun source => ⟨fun form => ⟨Reader.readAll_of_readOnly, Reader.readOnly_of_readAll⟩,
    fun first second rest read => ⟨_, Reader.readOnly_of_readAll read, rfl, rfl⟩,
    fun read => ⟨_, Reader.readOnly_of_readAll read, rfl⟩⟩, ?_⟩
  intro reached name content forms found
  have rereads := rereads_of_formsOfFile found
  refine ⟨fun form belongs current drawn =>
    compileForm_display reached drawn (rereads form belongs), fun settled inert => ?_⟩
  obtain ⟨succeed, fail⟩ := runForms_alone reached settled inert (drawn_refl engine) rereads
  rw [runFile_of_formsOfFile found]
  cases ran : engine.runForms forms with
  | error report =>
    obtain ⟨before, form, after, other, parts, earlier, alone, alike⟩ := fail report ran
    refine ⟨⟨nofun, fun all => ?_⟩, nofun, fun failure failed => ?_⟩
    · obtain ⟨value, later, done⟩ := all form (by simp [parts])
      rw [alone] at done
      cases done
    · cases failed
      exact ⟨before, form, after, report, other, parts, earlier, alone, rfl, alike⟩
  | ok done =>
    obtain ⟨values, last⟩ := done
    have gives := succeed values last ran
    refine ⟨⟨fun _ => ?_, fun _ => ⟨values, last, rfl⟩⟩, fun others later done => ?_, nofun⟩
    · have runs := (List.forall₂_and_left forms values).mp
        (gives.imp fun _ _ given => ⟨given.runs, given⟩)
      exact runs.1
    · cases done
      exact gives

end Engine

/-! ## A file of two forms -/

/-- A file that was written as a text holds the text. -/
theorem FileContent.text_toUTF8 (text : String) :
    FileContent.text (.ok text.toUTF8) = .ok text := by
  have decoded : String.fromUTF8? text.toUTF8 = some text := dif_pos text.isValidUTF8
  rw [FileContent.text, decoded]

namespace PointHost

def points : String :=
  "origin (== origin (new Point 1))"

def pointForms : List Form :=
  let loc (column : Nat) : Location := ⟨"points", 1, column⟩
  let made : Form := .combo .paren
    [.atom "new" (loc 20), .atom "Point" (loc 24), .atom "1" (loc 30)] (loc 19)
  [.atom "origin" (loc 1),
    .combo .paren [.atom "==" (loc 9), .atom "origin" (loc 12), made] (loc 8)]

theorem formsOfFile_points :
    withOrigin.formsOfFile "points" (.ok points.toUTF8) = .ok pointForms := by
  have read : Reader.readAll { file := "points" } points = .ok pointForms := by
    cbv
  rw [Engine.formsOfFile, FileContent.text_toUTF8]
  exact congrArg (Except.mapError Failure.report) read

end PointHost

namespace Engine

/-- A file with a global and a comparison gives what both give alone. -/
theorem files_run_as_texts_points :
    ∃ values later,
      PointHost.withOrigin.runFile "points" (.ok PointHost.points.toUTF8) = .ok (values, later) ∧
      List.Forall₂ PointHost.withOrigin.GivesAlone PointHost.pointForms values := by
  obtain ⟨-, runs⟩ := (files_run_as_texts PointHost.withOrigin).2 PointHost.reached_withOrigin
    _ _ _ PointHost.formsOfFile_points
  obtain ⟨-, values, -⟩ := runs PointHost.below_withOrigin PointHost.inert_withOrigin
  have ran : ∃ made later, PointHost.withOrigin.runFile "points" (.ok PointHost.points.toUTF8) =
      .ok (made, later) := by
    rw [runFile_of_formsOfFile PointHost.formsOfFile_points]
    exact ⟨_, _, rfl⟩
  obtain ⟨made, later, ran⟩ := ran
  exact ⟨made, later, ran, values made later ran⟩

end Engine

/-! ## What shows files -/

namespace Prober

/-- The text of a file with a probe in its second line. -/
def text : String :=
  "\n(new Probe (=> ((int x)) x))"

def located (file : String) (line : Nat) : Form :=
  let loc (column : Nat) : Location := ⟨file, line, column⟩
  let param : Form := .combo .paren [.atom "int" (loc 18), .atom "x" (loc 22)] (loc 17)
  .combo .paren [.atom "new" (loc 2), .atom "Probe" (loc 6),
    .combo .paren [.atom "=>" (loc 13), .combo .paren [param] (loc 16), .atom "x" (loc 26)]
      (loc 12)] (loc 1)

theorem readAll_text : Reader.readAll { file := "probe" } text = .ok [located "probe" 2] := by
  cbv

theorem readOnly_display :
    Reader.readOnly {} (located "probe" 2).display = .ok (located "<input>" 1) := by
  cbv

def constant : String :=
  "(=> () 1)"

def function (file : String) : Form :=
  let loc (column : Nat) : Location := ⟨file, 1, column⟩
  .combo .paren [.atom "=>" (loc 2), .combo .paren [] (loc 5), .atom "1" (loc 8)] (loc 1)

theorem readAll_constant : Reader.readAll { file := "probe" } constant = .ok [function "probe"] := by
  cbv

theorem readOnly_constant :
    Reader.readOnly {} (function "probe").display = .ok (function "<input>") := by
  cbv

end Prober

namespace Engine

theorem run_of_read {engine : Engine} {source : String} {form : Form}
    (read : engine.read source = .ok form) : engine.run source = engine.runForm form := by
  rw [run, compile_eq, read]
  rfl

/-- That a form stands in a file can be seen. Code of a host that looks at places can answer them, so
the file gives two and the text of its form gives one. And the function that a file makes is not the
function that the text of its form makes, whose code is another lambda. -/
theorem files_seen :
    (Prober.engine.formsOfFile "probe" (.ok Prober.text.toUTF8) = .ok [Prober.located "probe" 2] ∧
      ∃ later last, Prober.engine.runFile "probe" (.ok Prober.text.toUTF8) =
          .ok ([.datum (.int 2)], later) ∧
        Prober.engine.run (Prober.located "probe" 2).display = .ok (.datum (.int 1), last)) ∧
    Prober.engine.formsOfFile "probe" (.ok Prober.constant.toUTF8) =
        .ok [Prober.function "probe"] ∧
      ∃ value other later last, Prober.engine.runFile "probe" (.ok Prober.constant.toUTF8) =
          .ok ([value], later) ∧
        later.run (Prober.function "probe").display = .ok (other, last) ∧
        value.same other = false := by
  have probe : Prober.engine.formsOfFile "probe" (.ok Prober.text.toUTF8) =
      .ok [Prober.located "probe" 2] := by
    rw [formsOfFile, FileContent.text_toUTF8]
    exact congrArg (Except.mapError Failure.report) Prober.readAll_text
  have function : Prober.engine.formsOfFile "probe" (.ok Prober.constant.toUTF8) =
      .ok [Prober.function "probe"] := by
    rw [formsOfFile, FileContent.text_toUTF8]
    exact congrArg (Except.mapError Failure.report) Prober.readAll_constant
  rw [runFile_of_formsOfFile probe, runFile_of_formsOfFile function]
  have probed : Prober.engine.run (Prober.located "probe" 2).display =
      Prober.engine.runForm (Prober.located "<input>" 1) :=
    run_of_read Prober.readOnly_display
  have alone : { Prober.engine with supply := 2 }.run (Prober.function "probe").display =
      { Prober.engine with supply := 2 }.runForm (Prober.function "<input>") :=
    run_of_read Prober.readOnly_constant
  exact ⟨⟨probe, _, _, rfl, probed.trans rfl⟩, function, _, _,
    { Prober.engine with supply := 2 }, _, rfl, alone.trans rfl, rfl⟩

end Engine

end ExprLang
