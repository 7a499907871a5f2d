import ExprLang.Proofs.Form.Depth
import ExprLang.Proofs.Form.Strictness

/-!
# Places of forms and of reader reports

Where a reader finds things. Every node of a form that is read from a text is located at the start
of a piece of that text (`Reader.Gives.places`), and every report of reading at the start of a piece
or at the end of the text (`Reader.stops_of_readForm`).
-/

namespace ExprLang

/-- A report is located, at one of given places. -/
def Diagnostic.LiesIn (report : Diagnostic) (places : Location → Prop) : Prop :=
  ∃ loc, report.location = some loc ∧ places loc

/-- A location is the place of a node of a form. -/
def Form.HasPlace (form : Form) (loc : Location) : Prop :=
  ∃ level node, form.AtLevel level node ∧ node.loc = loc

/-- A location is that of a piece of a text in a source unit. -/
def PlaceOfPiece (file text : String) (loc : Location) : Prop :=
  ∃ lexeme ∈ lexemes {} text.toList, loc = lexeme.start.inFile file

/-- A location is that of a piece of a text in a source unit, or that of the end of the text. -/
def PlaceInText (file text : String) (loc : Location) : Prop :=
  PlaceOfPiece file text loc ∨ loc = (Position.advance {} text.toList).inFile file

namespace Form

theorem hasPlace_self (form : Form) : form.HasPlace form.loc :=
  ⟨0, form, .root, rfl⟩

theorem hasPlace_child {bracket : Bracket} {children : List Form} {loc place : Location}
    {child : Form} (belongs : child ∈ children) (has : child.HasPlace place) :
    HasPlace (.combo bracket children loc) place := by
  obtain ⟨level, node, deeper, same⟩ := has
  exact ⟨level + 1, node, .child belongs deeper, same⟩

theorem flatten_subset_flattenAll {form : Form} {forms : List Form} (belongs : form ∈ forms) :
    form.flatten ⊆ flattenAll forms := by
  induction forms with
  | nil => cases belongs
  | cons first rest ih =>
    rw [flattenAll_cons]
    rcases List.mem_cons.mp belongs with rfl | later
    · exact List.subset_append_left ..
    · exact List.subset_append_of_subset_right _ (ih later)

/-- Every node of a form is one of its marks. -/
theorem HasPlace.mem_flatten {form : Form} {loc : Location} (has : form.HasPlace loc) :
    ∃ piece, (piece, some loc) ∈ form.flatten := by
  obtain ⟨level, node, below, rfl⟩ := has
  induction below with
  | @root form => cases form <;> exact ⟨_, List.mem_cons_self⟩
  | child belongs _ ih =>
    obtain ⟨piece, marked⟩ := ih
    refine ⟨piece, List.mem_cons_of_mem _ (List.mem_append_left _ ?_)⟩
    exact flatten_subset_flattenAll belongs marked

end Form

/-- What is kept of a mark without the kind of a closer has the place of the mark. -/
@[simp] theorem Mark.plain_snd (mark : Mark) : mark.plain.2 = mark.2 := by
  obtain ⟨piece, place⟩ := mark
  cases piece <;> rfl

/-- A mark with a place has that of its piece. -/
theorem Lexeme.eq_of_mark {file : String} {lexeme : Lexeme} {loc : Location}
    (place : (lexeme.mark file).2 = some loc) : loc = lexeme.start.inFile file := by
  obtain ⟨piece, start, stop⟩ := lexeme
  cases piece with
  | closer bracket => cases place
  | opener bracket | atom text | unterminated text =>
    cases place
    rfl

/-- A place in trees that are written as some pieces is the place of one of these. -/
theorem Agree.exists_lexeme {strict : Bool} {file : String} {tree : List Mark}
    {pieces : List Lexeme} {piece : Piece} {loc : Location}
    (agree : Agree strict tree (pieces.map (·.mark file))) (marked : (piece, some loc) ∈ tree) :
    ∃ lexeme ∈ pieces, loc = lexeme.start.inFile file := by
  have plain : Mark.plain (piece, some loc) ∈ (pieces.map (·.mark file)).map Mark.plain := by
    rw [← agree.1]
    exact List.mem_map_of_mem marked
  obtain ⟨_, written, same⟩ := List.mem_map.mp plain
  obtain ⟨lexeme, belongs, rfl⟩ := List.mem_map.mp written
  have place := congrArg (·.2) same
  simp only [Mark.plain_snd] at place
  exact ⟨lexeme, belongs, Lexeme.eq_of_mark place⟩

namespace Reader

variable {reader : Reader} {text : String} {input behind : Input} {form : Form}
  {report : Diagnostic}

/-! ## Input of a text -/

theorem finish_readWith (finish : Position) (stack : List OpenCombo) (pieces : List Lexeme) :
    (reader.readWith finish stack pieces).2.finish = finish := by
  induction pieces generalizing stack with
  | nil => rfl
  | cons lexeme rest ih =>
    obtain ⟨piece, start, stop⟩ := lexeme
    cases piece <;> simp only [readWith] <;> (repeat' split) <;> first | rfl | exact ih _

/-- Whatever has been read of a text, its end stays where it is. -/
theorem finish_of_from (passed : Input.From text input) :
    input.finish = Position.advance {} text.toList := by
  induction passed with
  | start => rfl
  | @skip input _ ih =>
    unfold Input.skipBlanks
    split <;> exact ih
  | read _ reader ih => exact (finish_readWith ..).trans ih

/-! ## One form -/

/-- A form is one of those that a reader gives when it reads a text, wherever it starts. -/
def Gives (reader : Reader) (text : String) (form : Form) : Prop :=
  ∃ input behind, Input.From text input ∧ reader.readForm input = (.ok form, behind)

/-- Every node of a form lies where a piece of the text starts. -/
theorem Gives.places (gives : reader.Gives text form) {loc : Location} (has : form.HasPlace loc) :
    PlaceOfPiece reader.file text loc := by
  obtain ⟨input, behind, passed, read⟩ := gives
  have left : input.lexemes ≠ [] := by
    intro none
    rw [readForm, none] at read
    cases read
  have ends : Ends reader input.finish [] input.lexemes [] (reader.readForm input) :=
    Reading.nil.ends (.inr left)
  rw [read] at ends
  obtain ⟨-, used, split, reading⟩ := ends
  obtain ⟨piece, marked⟩ := has.mem_flatten
  have written := reading.written
  simp only [List.nil_append, flattenStack, List.append_nil, Form.flattenAll_cons,
    Form.flattenAll_nil] at written
  obtain ⟨lexeme, belongs, same⟩ := written.exists_lexeme marked
  refine ⟨lexeme, (suffix_of_from passed).mem ?_, same⟩
  rw [split]
  exact List.mem_append_left _ belongs

/-- A report of reading lies where a piece of the text starts, or at the end of the text. -/
theorem stops_of_readForm (passed : Input.From text input)
    (failed : reader.readForm input = (.error report, behind)) :
    report.LiesIn (PlaceInText reader.file text) := by
  have fails := failsAt_of_readWith failed
  generalize behind.lexemes = rest at fails
  cases fails with
  | piece read place located =>
    have belongs := (suffix_of_from passed).mem (place ▸ List.mem_append_right _ List.mem_cons_self)
    exact ⟨_, located, .inl ⟨_, belongs, rfl⟩⟩
  | atEnd located => exact ⟨_, located, .inr (by rw [finish_of_from passed])⟩

/-! ## Whole texts -/

/-- What is read of the pieces of a text that are left. -/
theorem stops_of_readForms (passed : Input.From text input)
    (failed : reader.readForms input = .error report) :
    report.LiesIn (PlaceInText reader.file text) := by
  fun_induction reader.readForms input with
  | case1 input ended => cases failed
  | case2 input left other behind read =>
    cases failed
    exact stops_of_readForm passed read
  | case3 input left form behind read shorter ih =>
    have further : Input.From text behind := by
      have after := Input.From.read passed reader
      rwa [read] at after
    cases outcome : reader.readForms behind with
    | error other =>
      rw [outcome] at failed
      cases failed
      exact ih further outcome
    | ok forms =>
      rw [outcome] at failed
      cases failed

theorem stops_of_readOnly (failed : reader.readOnly text = .error report) :
    report.LiesIn (PlaceInText reader.file text) := by
  unfold readOnly at failed
  split at failed
  next other behind read =>
    cases failed
    exact stops_of_readForm .start read
  next form behind read =>
    split at failed
    · cases failed
    next next rest left =>
      cases failed
      have further : Input.From text behind := by
        have first : Input.From text (.ofText text) := .start
        have after := first.read reader
        rwa [read] at after
      have belongs := (suffix_of_from further).mem (left ▸ List.mem_cons_self)
      exact ⟨_, rfl, .inl ⟨next, belongs, rfl⟩⟩

/-- The form that a text holds was read from the start of the text. -/
theorem gives_of_readOnly (read : reader.readOnly text = .ok form) : reader.Gives text form := by
  unfold readOnly at read
  split at read
  · cases read
  next other behind first =>
    split at read
    · cases read
      exact ⟨_, behind, .start, first⟩
    · cases read

/-- Each form of a text was read from what others had left. -/
theorem gives_of_readForms {forms : List Form} (passed : Input.From text input)
    (read : reader.readForms input = .ok forms) (belongs : form ∈ forms) :
    reader.Gives text form := by
  fun_induction reader.readForms input generalizing forms with
  | case1 input ended =>
    cases read
    cases belongs
  | case2 input left report behind failed => cases read
  | case3 input left first behind done shorter ih =>
    have further : Input.From text behind := by
      have after := Input.From.read passed reader
      rwa [done] at after
    cases outcome : reader.readForms behind with
    | error report =>
      rw [outcome] at read
      cases read
    | ok rest =>
      rw [outcome] at read
      cases read
      rcases List.mem_cons.mp belongs with rfl | later
      · exact ⟨input, behind, passed, done⟩
      · exact ih further outcome later

end Reader

end ExprLang
