import ExprLang.Proofs.Form.Positions

/-!
# A reader in use

A reader that is called again and again goes through its text once (`Reader.faithful_positions`).
Whatever is asked and whether it fails, a prefix of the text is consumed: the place of the reader is
the line and the column behind that prefix, what the reader does next depends on the rest of the
text only, and every node of the forms that it has given stands in the prefix where its location
says, behind all nodes before it. A call that reads consumes a character that is no blank if one is
left.

`Cursor` is the cut of the text, `Reader.Use.StandsAt` the invariant, and `Reader.exists_next` what
one call does to both.
-/

namespace ExprLang

variable {text taken left : List Char} {pieces used : List Lexeme} {lexeme : Lexeme} {file : String}

/-! ## Nodes -/

namespace Form

/-- The piece that a node starts with: its text if it is an atom, and else its opener. -/
def head : Form → Piece
  | .atom text _ => .atom text.toList
  | .combo bracket _ _ => .opener bracket

mutual

/-- The nodes of a tree in preorder. -/
def preorder : Form → List Form
  | .atom text loc => [.atom text loc]
  | .combo bracket children loc => .combo bracket children loc :: preorderAll children

def preorderAll : List Form → List Form
  | [] => []
  | form :: rest => preorder form ++ preorderAll rest

end

@[simp] theorem preorderAll_nil : preorderAll [] = [] := rfl

@[simp] theorem preorderAll_cons (form : Form) (rest : List Form) :
    preorderAll (form :: rest) = preorder form ++ preorderAll rest := rfl

@[simp] theorem preorderAll_append (first second : List Form) :
    preorderAll (first ++ second) = preorderAll first ++ preorderAll second := by
  induction first with
  | nil => rfl
  | cons form rest ih =>
    rw [List.cons_append, preorderAll_cons, preorderAll_cons, ih, List.append_assoc]

/-- A node is found in a text: the text of its first piece stands there, and the location of the
node is the place behind what comes before. -/
def FoundIn (file : String) (text : List Char) (node : Form) : Prop :=
  ∃ before behind, text = before ++ (node.head.text ++ behind) ∧
    node.loc = (Position.endOf before).inFile file ∧
    ∃ c more, node.head.text = c :: more ∧ isBlank c = false

end Form

/-- The piece of a mark that starts a node, with its place. Closers start none. -/
def Mark.opening : Mark → Option (Piece × Location)
  | (.closer _, _) => none
  | (piece, place) => place.map (piece, ·)

@[simp] theorem Mark.opening_plain (mark : Mark) : mark.plain.opening = mark.opening := by
  obtain ⟨piece, place⟩ := mark
  cases piece <;> rfl

namespace Form

mutual

/-- The marks of a tree that are no closers are the starts of its nodes. -/
theorem opening_flatten (form : Form) :
    form.flatten.filterMap Mark.opening = form.preorder.map fun node => (node.head, node.loc) := by
  match form with
  | .atom text loc => rfl
  | .combo bracket children loc =>
    have inner := opening_flattenAll children
    simp only [flatten, preorder, List.map_cons, ← inner]
    simp [Mark.opening, head, Form.loc]

theorem opening_flattenAll (forms : List Form) :
    (flattenAll forms).filterMap Mark.opening =
      (preorderAll forms).map fun node => (node.head, node.loc) := by
  match forms with
  | [] => rfl
  | form :: rest =>
    rw [flattenAll_cons, preorderAll_cons, List.filterMap_append, List.map_append,
      opening_flatten form, opening_flattenAll rest]

end

end Form

/-- What a piece of a text contributes to the nodes of a tree: the start of one unless it is a
closer. -/
theorem Lexeme.eq_of_opening {found : Piece × Location}
    (opens : (lexeme.mark file).opening = some found) :
    found = (lexeme.piece, lexeme.start.inFile file) := by
  obtain ⟨piece, start, stop⟩ := lexeme
  cases piece with
  | closer bracket => cases opens
  | _ => exact (Option.some.inj opens).symm

/-- The nodes of a tree that is written as some pieces start where the openers and atoms among the
pieces do. -/
theorem Agree.preorder {strict : Bool} {form : Form}
    (agree : Agree strict form.flatten (pieces.map (·.mark file))) :
    form.preorder.map (fun node => (node.head, node.loc)) =
      pieces.filterMap fun lexeme => (lexeme.mark file).opening := by
  have plain (marks : List Mark) :
      (marks.map Mark.plain).filterMap Mark.opening = marks.filterMap Mark.opening := by
    rw [List.filterMap_map]
    exact congrArg (marks.filterMap ·) (funext Mark.opening_plain)
  rw [← form.opening_flatten, ← plain, agree.1, plain, List.filterMap_map]
  rfl

/-! ## Cuts of a text -/

/-- A cut of a text into what is consumed and what is left. -/
structure Cursor where
  consumed : List Char
  left : List Char

namespace Cursor

variable {cursor next : Cursor}

def position (cursor : Cursor) : Position :=
  Position.advance {} cursor.consumed

/-- The input of a reader at a cut: the pieces of what is left, the place of the cut and the place
of the end. -/
def input (cursor : Cursor) : Input :=
  ⟨lexemes cursor.position cursor.left, cursor.position, cursor.position.advance cursor.left⟩

/-- The cut behind some of what is left. -/
def Takes (cursor : Cursor) (taken : List Char) (next : Cursor) : Prop :=
  next.consumed = cursor.consumed ++ taken ∧ cursor.left = taken ++ next.left

theorem Takes.position_eq (takes : cursor.Takes taken next) :
    next.position = cursor.position.advance taken := by
  rw [position, takes.1, Position.advance_append]
  rfl

/-- An input behind some of what is left is the input at the cut there. -/
theorem Takes.input_eq (takes : cursor.Takes taken next) {pieces : List Lexeme}
    (same : pieces = lexemes (cursor.position.advance taken) next.left) :
    (⟨pieces, cursor.position.advance taken, cursor.input.finish⟩ : Input) = next.input := by
  have finish : cursor.input.finish = next.position.advance next.left := by
    rw [takes.position_eq, ← Position.advance_append, ← takes.2]
    rfl
  rw [finish, same, ← takes.position_eq]
  rfl

theorem atEnd_input : cursor.input.atEnd = true ↔ ∀ c ∈ cursor.left, isBlank c = true := by
  rw [Input.atEnd, List.isEmpty_iff]
  exact lexemes_eq_nil_iff

/-- Asking whether input remains consumes the blanks in front of it. -/
theorem exists_skipBlanks (cursor : Cursor) :
    ∃ next, cursor.Takes (cursor.left.takeWhile isBlank) next ∧
      cursor.input.skipBlanks = next.input := by
  let next : Cursor :=
    ⟨cursor.consumed ++ cursor.left.takeWhile isBlank, cursor.left.dropWhile isBlank⟩
  have takes : cursor.Takes (cursor.left.takeWhile isBlank) next :=
    ⟨rfl, List.takeWhile_append_dropWhile.symm⟩
  have start : cursor.input.skipBlanks.position =
      cursor.position.advance (cursor.left.takeWhile isBlank) := by
    unfold Input.skipBlanks
    split
    next none =>
      have blank := lexemes_eq_nil_iff.mp none
      rw [List.takeWhile_eq_self_iff.mpr blank]
      rfl
    next first rest some =>
      rw [input, lexemes] at some
      dsimp only at some ⊢
      split at some
      · cases some
      · exact congrArg Lexeme.start (List.cons.inj some).1.symm
  have rest : cursor.input.skipBlanks = { cursor.input with
      position := cursor.input.skipBlanks.position } := by
    unfold Input.skipBlanks
    split <;> rfl
  refine ⟨next, takes, ?_⟩
  rw [rest, start]
  exact takes.input_eq (lexemes_dropWhile ..)

end Cursor

/-! ## Reading one form -/

namespace Reader

/-- Reading stops behind a piece that it takes, or at the end of the text. -/
theorem behind_readWith (reader : Reader) (finish : Position) (stack : List OpenCombo)
    (pieces : List Lexeme) :
    (reader.readWith finish stack pieces).2 = ⟨[], finish, finish⟩ ∨
      ∃ used last rest, pieces = used ++ last :: rest ∧
        (reader.readWith finish stack pieces).2 = ⟨rest, last.stop, finish⟩ := by
  induction pieces generalizing stack with
  | nil => exact .inl rfl
  | cons lexeme rest ih =>
    have further (combos : List OpenCombo) :
        (reader.readWith finish combos rest).2 = ⟨[], finish, finish⟩ ∨
          ∃ used last behind, lexeme :: rest = used ++ last :: behind ∧
            (reader.readWith finish combos rest).2 = ⟨behind, last.stop, finish⟩ := by
      refine (ih combos).imp_right ?_
      rintro ⟨used, last, behind, rfl, stops⟩
      exact ⟨lexeme :: used, last, behind, rfl, stops⟩
    obtain ⟨piece, start, stop⟩ := lexeme
    cases piece <;> simp only [readWith] <;> (repeat' split) <;>
      first
      | exact further _
      | exact .inr ⟨[], _, rest, rfl, rfl⟩

/-- Reading a form leaves a cut behind the text of the pieces that it takes. -/
theorem exists_readForm (reader : Reader) (cursor : Cursor) :
    ∃ next taken used, cursor.Takes taken next ∧
      (reader.readForm cursor.input).2 = next.input ∧
      Splits cursor.position taken used ∧ cursor.input.lexemes = used ++ next.input.lexemes ∧
      (cursor.input.lexemes ≠ [] → used ≠ []) := by
  have splits : Splits cursor.position cursor.left cursor.input.lexemes := splits_lexemes _ _
  rcases reader.behind_readWith cursor.input.finish [] cursor.input.lexemes with
    ended | ⟨used, last, rest, split, stops⟩
  · have takes : cursor.Takes cursor.left ⟨cursor.consumed ++ cursor.left, []⟩ :=
      ⟨rfl, (List.append_nil _).symm⟩
    have here := takes.input_eq (lexemes_nil _).symm
    refine ⟨_, _, _, takes, ended.trans here, splits, ?_, id⟩
    rw [← here, List.append_nil]
  · rw [split] at splits
    obtain ⟨taken, left, cut, splitsTaken, stop, same⟩ := splits.cut_behind
    have takes : cursor.Takes taken ⟨cursor.consumed ++ taken, left⟩ := ⟨rfl, cut⟩
    have here := takes.input_eq (same.trans (by rw [stop]))
    rw [← stop] at here
    refine ⟨_, _, _, takes, stops.trans here, splitsTaken, ?_, fun _ => by simp⟩
    rw [← here, split, List.append_assoc]
    rfl

/-- The nodes of a form that is read from a cut start where the pieces that were taken do. -/
theorem preorder_of_readForm {reader : Reader} {input behind : Input} {form : Form}
    (read : reader.readForm input = (.ok form, behind))
    (split : input.lexemes = used ++ behind.lexemes) :
    form.preorder.map (fun node => (node.head, node.loc)) =
      used.filterMap fun lexeme => (lexeme.mark reader.file).opening := by
  have nonempty : input.lexemes ≠ [] := by
    intro none
    rw [readForm, none] at read
    cases read
  have ends : Ends reader input.finish [] input.lexemes [] (reader.readForm input) :=
    Reading.nil.ends (.inr nonempty)
  rw [read] at ends
  obtain ⟨-, others, same, reading⟩ := ends
  obtain rfl : others = used := List.append_cancel_right (same.symm.trans split)
  have written := reading.written
  simp only [List.nil_append, flattenStack, List.append_nil, Form.flattenAll_cons,
    Form.flattenAll_nil] at written
  exact written.preorder

end Reader

/-! ## Calls -/

namespace Form

variable {node : Form}

theorem FoundIn.append (found : node.FoundIn file text) (more : List Char) :
    node.FoundIn file (text ++ more) := by
  obtain ⟨before, behind, rfl, place, first⟩ := found
  exact ⟨before, behind ++ more, by simp, place, first⟩

/-- A node of a text lies before the place behind the text. -/
theorem FoundIn.order_lt (found : node.FoundIn file text) :
    node.loc.order < (Position.advance {} text).order := by
  obtain ⟨before, behind, rfl, place, c, more, first, wide⟩ := found
  rw [place, Position.order_inFile, ← Position.advance_eq_endOf, Position.advance_append, first,
    List.cons_append]
  exact Position.order_lt_advance _ wide _

/-- What starts where a piece of a text behind a cut does is found in the text up to the end of that
text. -/
theorem foundIn_of_standsIn {cursor : Cursor} (stands : lexeme.StandsIn cursor.position taken)
    (starts : (node.head, node.loc) = (lexeme.piece, lexeme.start.inFile file)) :
    node.FoundIn file (cursor.consumed ++ taken) := by
  obtain ⟨before, behind, rfl, place, first⟩ := stands
  obtain ⟨sameHead, sameLoc⟩ := Prod.mk.inj starts
  refine ⟨cursor.consumed ++ before, behind, by simp [sameHead], ?_, by rwa [sameHead]⟩
  rw [sameLoc, place, ← Position.advance_eq_endOf, Position.advance_append]
  rfl

end Form

namespace Reader

inductive Call where
  | atEnd | readForm
  deriving DecidableEq

/-- A reader in use: the forms that it has given, in order, and the input that it has left. -/
structure Use where
  forms : List Form
  input : Input

variable {reader : Reader} {use : Use} {cursor next : Cursor}

/-- Answers a call. A call that fails gives no form, and the reader can be called again. -/
def answer (reader : Reader) (use : Use) : Call → Use
  | .atEnd => { use with input := use.input.skipBlanks }
  | .readForm =>
    match reader.readForm use.input with
    | (.ok form, behind) => ⟨use.forms ++ [form], behind⟩
    | (.error _, behind) => { use with input := behind }

/-- A reader that has answered calls on a text, one after the other. -/
def afterCalls (reader : Reader) (text : String) (calls : List Call) : Use :=
  calls.foldl reader.answer ⟨[], .ofText text⟩

/-- A reader in use stands at a cut of its text: it reads on from there, and it has found the nodes
of the forms that it has given in what is consumed, each behind the ones before it. -/
structure Use.StandsAt (reader : Reader) (use : Use) (cursor : Cursor) : Prop where
  input : use.input = cursor.input
  found : ∀ node ∈ Form.preorderAll use.forms, node.FoundIn reader.file cursor.consumed
  increasing : (Form.preorderAll use.forms).Pairwise fun node later =>
    node.loc.order < later.loc.order

/-- A call moves a reader from a cut to a later one, and one that reads takes a character that is no
blank if there is one. -/
def Moves (call : Call) (cursor next : Cursor) : Prop :=
  ∃ taken, cursor.Takes taken next ∧
    (call = .readForm → (∃ c ∈ cursor.left, isBlank c = false) → ∃ c ∈ taken, isBlank c = false)

theorem Use.StandsAt.behind (stands : use.StandsAt reader cursor)
    (takes : cursor.Takes taken next) :
    Use.StandsAt reader { use with input := next.input } next where
  input := rfl
  found := by
    intro node belongs
    rw [takes.1]
    exact (stands.found node belongs).append taken
  increasing := stands.increasing

/-- A form that is read from a cut adds nodes behind the cut. -/
theorem Use.StandsAt.push {form : Form} (stands : use.StandsAt reader cursor)
    (takes : cursor.Takes taken next) (splits : Splits cursor.position taken used)
    (written : form.preorder.map (fun node => (node.head, node.loc)) =
      used.filterMap fun lexeme => (lexeme.mark reader.file).opening) :
    Use.StandsAt reader ⟨use.forms ++ [form], next.input⟩ next := by
  have starts {node : Form} (belongs : node ∈ form.preorder) :
      ∃ lexeme ∈ used, (node.head, node.loc) = (lexeme.piece, lexeme.start.inFile reader.file) := by
    have listed := List.mem_map_of_mem (f := fun node : Form => (node.head, node.loc)) belongs
    rw [written] at listed
    obtain ⟨lexeme, taken, opens⟩ := List.mem_filterMap.mp listed
    exact ⟨lexeme, taken, Lexeme.eq_of_opening opens⟩
  have nodes : Form.preorderAll (use.forms ++ [form]) =
      Form.preorderAll use.forms ++ form.preorder := by simp
  refine ⟨rfl, ?_, ?_⟩
  · intro node belongs
    rw [takes.1]
    rcases List.mem_append.mp (nodes ▸ belongs) with earlier | inside
    · exact (stands.found node earlier).append taken
    · obtain ⟨lexeme, among, same⟩ := starts inside
      exact Form.foundIn_of_standsIn (splits.standsIn among) same
  · rw [nodes, List.pairwise_append]
    refine ⟨stands.increasing, ?_, ?_⟩
    · have places : (form.preorder.map fun node => (node.head, node.loc)).Pairwise
          fun found later => found.2.order < later.2.order := by
        rw [written]
        refine splits.increasing.filterMap _
          fun lexeme later before found opens other opensToo => ?_
        rw [Lexeme.eq_of_opening opens, Lexeme.eq_of_opening opensToo]
        exact before
      rw [List.pairwise_map] at places
      exact places
    · intro node earlier later inside
      obtain ⟨lexeme, among, same⟩ := starts inside
      rw [(Prod.mk.inj same).2]
      exact (stands.found node earlier).order_lt.trans_le (splits.standsIn among).order_ge

/-- **One call.** It moves the reader to a later cut, the same whatever forms were given before. -/
theorem exists_next (reader : Reader) (cursor : Cursor) (call : Call) :
    ∃ next, Moves call cursor next ∧ ∀ use : Use, use.StandsAt reader cursor →
      (reader.answer use call).StandsAt reader next := by
  cases call with
  | atEnd =>
    obtain ⟨next, takes, skips⟩ := cursor.exists_skipBlanks
    refine ⟨next, ⟨_, takes, nofun⟩, fun use stands => ?_⟩
    have moved := stands.behind takes
    rwa [← skips, ← stands.input] at moved
  | readForm =>
    obtain ⟨next, taken, used, takes, behind, splits, split, nonempty⟩ :=
      reader.exists_readForm cursor
    refine ⟨next, ⟨taken, takes, fun _ visible => ?_⟩, fun use stands => ?_⟩
    · -- A character that is no blank belongs to a piece, and reading takes the first one.
      obtain ⟨c, belongs, wide⟩ := visible
      have some : cursor.input.lexemes ≠ [] := by
        intro none
        rw [lexemes_eq_nil_iff.mp none c belongs] at wide
        cases wide
      obtain ⟨lexeme, among⟩ := List.exists_mem_of_ne_nil _ (nonempty some)
      obtain ⟨before, after, rfl, -, d, more, first, wide⟩ := splits.standsIn among
      exact ⟨d, by simp [first], wide⟩
    · rw [answer, stands.input]
      cases read : reader.readForm cursor.input with
      | mk outcome rest =>
        rw [read] at behind
        obtain rfl : rest = next.input := behind
        cases outcome with
        | ok form => exact stands.push takes splits (preorder_of_readForm read split)
        | error report => exact stands.behind takes

/-- A call that reads leaves one character less that is no blank, if one was left. -/
theorem Moves.countP_left {call : Call} (moves : Moves call cursor next) :
    next.left.countP (!isBlank ·) ≤
      cursor.left.countP (!isBlank ·) - if call = .readForm then 1 else 0 := by
  obtain ⟨taken, takes, visible⟩ := moves
  rw [takes.2, List.countP_append]
  split
  next reads =>
    by_cases some : ∃ c ∈ cursor.left, isBlank c = false
    · obtain ⟨c, belongs, wide⟩ := visible reads some
      have positive : 0 < taken.countP (!isBlank ·) :=
        List.countP_pos_iff.mpr ⟨c, belongs, by simp [wide]⟩
      omega
    · have none : next.left.countP (!isBlank ·) = 0 := by
        refine List.countP_eq_zero.mpr fun c belongs wide => some ⟨c, ?_, by simpa using wide⟩
        rw [takes.2]
        exact List.mem_append_right _ belongs
      omega
  next => omega

/-- **Positions are faithful and reading advances.** However a reader is called, the text is
consumed from its start on. Behind any calls the reader is at the input of the cut between what is
consumed and what is left, and the place that it shows is the one behind what is consumed. Every
node of the forms that were read is found in what is consumed where its location says, an atom with
its text, and from node to node, in preorder and from form to form, the locations increase. A
further call consumes more, and if it reads, fails or not, it consumes a character that is no blank
unless there is none left. So the end is reached behind as many calls that read as there are such
characters. -/
theorem faithful_positions (reader : Reader) (text : String) :
    ∃ cut : List Call → Cursor, cut [] = ⟨[], text.toList⟩ ∧ ∀ calls : List Call,
      let use := reader.afterCalls text calls
      let here := cut calls
      text.toList = here.consumed ++ here.left ∧
      use.input = here.input ∧
      use.input.position = Position.endOf here.consumed ∧
      (∀ node ∈ Form.preorderAll use.forms, node.FoundIn reader.file here.consumed) ∧
      (Form.preorderAll use.forms).Pairwise (fun node next => node.loc.order < next.loc.order) ∧
      (∀ call, Moves call here (cut (calls ++ [call]))) ∧
      (text.toList.countP (!isBlank ·) ≤ calls.count .readForm → use.input.atEnd = true) := by
  choose next moves stands using reader.exists_next
  let cut (calls : List Call) : Cursor := calls.foldl next ⟨[], text.toList⟩
  have further (calls : List Call) (call : Call) : cut (calls ++ [call]) = next (cut calls) call :=
    List.foldl_concat ..
  -- What one call keeps, every sequence of calls keeps.
  have invariant (calls : List Call) :
      (reader.afterCalls text calls).StandsAt reader (cut calls) ∧
        text.toList = (cut calls).consumed ++ (cut calls).left ∧
        (cut calls).left.countP (!isBlank ·) ≤
          text.toList.countP (!isBlank ·) - calls.count .readForm := by
    induction calls using List.reverseRecOn with
    | nil => exact ⟨⟨rfl, nofun, .nil⟩, rfl, Nat.le_refl _⟩
    | append_singleton calls call ih =>
      obtain ⟨here, whole, bounded⟩ := ih
      have moved := moves (cut calls) call
      have fewer := moved.countP_left
      obtain ⟨taken, takes, -⟩ := moved
      have answered : reader.afterCalls text (calls ++ [call]) =
          reader.answer (reader.afterCalls text calls) call := List.foldl_concat ..
      rw [further, answered]
      refine ⟨stands _ _ _ here, ?_, ?_⟩
      · rw [whole, takes.1, takes.2, List.append_assoc]
      · rw [List.count_append, List.count_singleton]
        simp only [beq_iff_eq]
        omega
  refine ⟨cut, rfl, fun calls => ?_⟩
  obtain ⟨here, whole, bounded⟩ := invariant calls
  dsimp only
  rw [here.input]
  refine ⟨whole, rfl, Position.advance_eq_endOf _, here.found, here.increasing,
    fun call => further calls call ▸ moves _ _, fun enough => ?_⟩
  refine Cursor.atEnd_input.mpr fun c belongs => ?_
  have none : (cut calls).left.countP (!isBlank ·) = 0 := by omega
  simpa using List.countP_eq_zero.mp none c belongs

/-- A closer without an opener fails, the next call reads the atom behind it, and then nothing is
left. -/
theorem faithful_positions_past_error :
    (Reader.afterCalls {} ")\n a" [.readForm, .readForm]).input.atEnd = true := by
  obtain ⟨cut, -, behind⟩ := faithful_positions {} ")\n a"
  obtain ⟨-, -, -, -, -, -, ends⟩ := behind [.readForm, .readForm]
  exact ends (by decide)

end Reader

end ExprLang
