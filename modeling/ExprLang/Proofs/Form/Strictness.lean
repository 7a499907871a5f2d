import ExprLang.Proofs.Form.RoundTrip

/-!
# Strict and lenient readers

What it changes that closers have to match their openers. A strict reader and a lenient one take the
same steps up to the first closer whose kind differs from that of the opener it pairs with; there
the strict reader stops and the lenient one reads on (`Reader.readWith_strict`). Nothing else tells
the two apart (`Reader.strict_adds_mismatches`).
-/

namespace ExprLang

/-- A closer pairs with an opener of another kind. -/
def Mismatch (before : List Lexeme) (lexeme : Lexeme) : Prop :=
  ∃ opened closed, lexeme.piece = .closer closed ∧ PairsWith before opened ∧ opened ≠ closed

/-- Every closer among the pieces is of the kind of the opener that it pairs with. -/
def Matched (pieces : List Lexeme) : Prop :=
  ∀ before lexeme after, pieces = before ++ lexeme :: after → ¬ Mismatch before lexeme

/-- A piece is the first closer among the pieces that pairs with an opener of another kind. -/
def FirstMismatch (pieces : List Lexeme) (lexeme : Lexeme) : Prop :=
  ∃ before after, pieces = before ++ lexeme :: after ∧ Matched before ∧ Mismatch before lexeme

theorem matched_nil : Matched [] := by
  intro before lexeme after place
  simp at place

theorem Matched.concat {pieces : List Lexeme} {lexeme : Lexeme} (matched : Matched pieces)
    (last : ¬ Mismatch pieces lexeme) : Matched (pieces ++ [lexeme]) := by
  intro before other after place
  rcases List.eq_nil_or_concat after with rfl | ⟨after, final, rfl⟩
  · obtain ⟨rfl, same⟩ := List.append_inj' place rfl
    cases same
    exact last
  · rw [List.concat_eq_append, ← List.cons_append, ← List.append_assoc] at place
    obtain ⟨earlier, -⟩ := List.append_inj' place rfl
    exact matched before other after earlier

/-- Pieces with a first mismatch are not matched. -/
theorem FirstMismatch.not_matched {pieces : List Lexeme} {lexeme : Lexeme}
    (first : FirstMismatch pieces lexeme) : ¬ Matched pieces := by
  obtain ⟨before, after, place, -, mismatch⟩ := first
  exact fun matched => matched before lexeme after place mismatch

namespace Reader

variable {reader : Reader} {finish : Position} {stack : List OpenCombo} {pieces : List Lexeme}
  {report : Diagnostic} {behind : Input}

abbrev strictly (reader : Reader) : Reader :=
  { reader with strict := true }

abbrev leniently (reader : Reader) : Reader :=
  { reader with strict := false }

/-! ## Where reading fails -/

/-- A failure is reported at the start of the piece that reading stopped behind, or at the end of
the input when no piece is left. -/
inductive FailsAt (file : String) (finish : Position) (pieces : List Lexeme) (report : Diagnostic) :
    List Lexeme → Prop where
  | piece (read : List Lexeme) {rest : List Lexeme} {failing : Lexeme}
      (place : pieces = read ++ failing :: rest)
      (located : report.location = some (failing.start.inFile file)) :
      FailsAt file finish pieces report rest
  | atEnd (located : report.location = some (finish.inFile file)) :
      FailsAt file finish pieces report []

theorem FailsAt.cons {file : String} {rest : List Lexeme} (lexeme : Lexeme)
    (fails : FailsAt file finish pieces report rest) :
    FailsAt file finish (lexeme :: pieces) report rest := by
  cases fails with
  | @piece read _ failing place located =>
    exact .piece (lexeme :: read) (by rw [place, List.cons_append]) located
  | atEnd located => exact .atEnd located

theorem failsAt_of_readWith
    (failed : reader.readWith finish stack pieces = (.error report, behind)) :
    FailsAt reader.file finish pieces report behind.lexemes := by
  induction pieces generalizing stack with
  | nil =>
    cases failed
    exact .atEnd rfl
  | cons lexeme rest ih =>
    obtain ⟨piece, start, stop⟩ := lexeme
    have here (fault : Fault) : FailsAt reader.file finish (⟨piece, start, stop⟩ :: rest)
        (fault.reportAt (start.inFile reader.file)) rest := .piece [] rfl rfl
    cases piece with
    | unterminated text =>
      cases failed
      exact here _
    | opener bracket =>
      simp only [readWith] at failed
      split at failed
      · cases failed
        exact here _
      · exact (ih failed).cons _
    | atom text =>
      cases stack with
      | nil => cases failed
      | cons outer below => exact (ih failed).cons _
    | closer bracket =>
      cases stack with
      | nil =>
        cases failed
        exact here _
      | cons inner below =>
        simp only [readWith] at failed
        split at failed
        · cases failed
          exact here _
        · cases below with
          | nil => cases failed
          | cons outer below => exact (ih failed).cons _

/-! ## In step up to the first mismatch -/

/-- The strict reader stops at a closer, which it reports. -/
def StopsAt (reader : Reader) (lexeme : Lexeme) (outcome : Except Diagnostic Form × Input) : Prop :=
  ∃ report behind, outcome = (.error report, behind) ∧ report.code = .mismatchedCloser ∧
    report.location = some (lexeme.start.inFile reader.file)

/-- How a strict reader compares with a lenient one behind pieces that both have consumed: they do
the same and find every closer matched, or the strict one stops at the first closer that is not, and
the lenient one completes a form there and reads on. -/
inductive InStep (reader : Reader) (finish : Position) (consumed : List Lexeme)
    (stack : List OpenCombo) (pieces : List Lexeme) : Prop where
  | same (equal : reader.strictly.readWith finish stack pieces =
        reader.leniently.readWith finish stack pieces)
      (matched : ∀ form behind used,
        reader.leniently.readWith finish stack pieces = (.ok form, behind) →
        pieces = used ++ behind.lexemes → Matched (consumed ++ used))
  | diverge (read : List Lexeme) {after : List Lexeme} {lexeme : Lexeme} (form : Form)
      (below : List OpenCombo) (place : pieces = read ++ lexeme :: after)
      (earlier : Matched (consumed ++ read))
      (mismatch : Mismatch (consumed ++ read) lexeme)
      (stops : StopsAt reader lexeme (reader.strictly.readWith finish stack pieces))
      (onward : reader.leniently.readWith finish stack pieces =
        reader.leniently.resume finish form ⟨after, lexeme.stop, finish⟩ below)

variable {consumed : List Lexeme} {lexeme : Lexeme} {next : List OpenCombo}

/-- Both readers fail alike. -/
theorem InStep.of_failure
    (strict : reader.strictly.readWith finish stack pieces = (.error report, behind))
    (lenient : reader.leniently.readWith finish stack pieces = (.error report, behind)) :
    InStep reader finish consumed stack pieces := by
  refine .same (strict.trans lenient.symm) fun form other used read => ?_
  rw [lenient] at read
  cases read

/-- Both readers complete a form behind a piece that is no mismatched closer. -/
theorem InStep.of_form {form : Form} (matched : Matched (consumed ++ [lexeme]))
    (strict : reader.strictly.readWith finish stack (lexeme :: pieces) =
      (.ok form, ⟨pieces, lexeme.stop, finish⟩))
    (lenient : reader.leniently.readWith finish stack (lexeme :: pieces) =
      (.ok form, ⟨pieces, lexeme.stop, finish⟩)) :
    InStep reader finish consumed stack (lexeme :: pieces) := by
  refine .same (strict.trans lenient.symm) fun other behind used read split => ?_
  rw [lenient] at read
  cases read
  rw [← List.singleton_append] at split
  rw [← List.append_cancel_right split]
  exact matched

/-- Both readers take a step. -/
theorem InStep.of_step (inStep : InStep reader finish (consumed ++ [lexeme]) next pieces)
    (strict : reader.strictly.readWith finish stack (lexeme :: pieces) =
      reader.strictly.readWith finish next pieces)
    (lenient : reader.leniently.readWith finish stack (lexeme :: pieces) =
      reader.leniently.readWith finish next pieces) :
    InStep reader finish consumed stack (lexeme :: pieces) := by
  cases inStep with
  | same equal matched =>
    refine .same (by rw [strict, lenient, equal]) fun form behind used read split => ?_
    rw [lenient] at read
    have suffix : (reader.leniently.readWith finish next pieces).2.lexemes <:+ pieces :=
      suffix_readWith finish next pieces
    rw [read] at suffix
    obtain ⟨more, rfl⟩ := suffix
    rw [← List.cons_append] at split
    rw [← List.append_cancel_right split, List.append_cons]
    exact matched form behind more read rfl
  | diverge read form below place earlier mismatch stops onward =>
    rw [List.append_assoc, List.singleton_append] at earlier mismatch
    refine .diverge (lexeme :: read) form below ?_ earlier mismatch ?_ (lenient.trans onward)
    · rw [place, List.cons_append]
    · rwa [strict]

/-- A strict reader does what a lenient one does up to the first mismatched closer. -/
theorem readWith_strict (openStack : OpenStack consumed (stack.map (·.bracket)))
    (matched : Matched consumed) (pieces : List Lexeme) :
    InStep reader finish consumed stack pieces := by
  -- Each step moves a piece to those consumed, which stay matched, or meets a mismatch.
  induction pieces generalizing consumed stack with
  | nil => exact .of_failure rfl rfl
  | cons lexeme rest ih =>
    obtain ⟨piece, start, stop⟩ := lexeme
    have onward (other : ∀ bracket, piece ≠ .closer bracket) :
        Matched (consumed ++ [⟨piece, start, stop⟩]) :=
      matched.concat fun ⟨_, closed, closes, _⟩ => other closed closes
    cases piece with
    | unterminated text => exact .of_failure rfl rfl
    | opener bracket =>
      by_cases deep : reader.maxDepth ≤ stack.length
      · have failure (strict : Bool) :
            ({ reader with strict } : Reader).readWith finish stack
                (⟨.opener bracket, start, stop⟩ :: rest) =
              (.error ((Fault.bracketsTooDeep reader.maxDepth).reportAt
                (start.inFile reader.file)), ⟨rest, stop, finish⟩) := by
          simp only [readWith, if_pos deep]
        exact .of_failure (failure true) (failure false)
      · have step (strict : Bool) :
            ({ reader with strict } : Reader).readWith finish stack
                (⟨.opener bracket, start, stop⟩ :: rest) =
              ({ reader with strict } : Reader).readWith finish
                (⟨bracket, start.inFile reader.file, []⟩ :: stack) rest := by
          have shallow : stack.length < ({ reader with strict } : Reader).maxDepth :=
            Nat.lt_of_not_le deep
          exact readWith_opener shallow start stop rest
        have other (closed : Bracket) : Piece.opener bracket ≠ .closer closed := by
          rintro ⟨⟩
        exact (ih (openStack.push rfl) (onward other)).of_step (step true) (step false)
    | atom text =>
      have flat : Balanced [⟨.atom text, start, stop⟩] := balanced_singleton rfl
      have other (closed : Bracket) : Piece.atom text ≠ .closer closed := by
        rintro ⟨⟩
      let leaf : Form := .atom (String.ofList text) (start.inFile reader.file)
      cases stack with
      | nil => exact .of_form (onward other) rfl rfl
      | cons outer below =>
        have further : InStep reader finish _ (outer.push leaf :: below) rest :=
          ih (openStack.append flat) (onward other)
        exact further.of_step rfl rfl
    | closer bracket =>
      cases stack with
      | nil => exact .of_failure rfl rfl
      | cons inner below =>
        by_cases same : inner.bracket = bracket
        · subst same
          have paired : Matched (consumed ++ [⟨.closer inner.bracket, start, stop⟩]) := by
            refine matched.concat ?_
            rintro ⟨opened, closed, closes, pairs, differ⟩
            cases closes
            exact differ (openStack.pairsWith_iff.mp pairs)
          have closes (strict : Bool) :
              ({ reader with strict } : Reader).readWith finish (inner :: below)
                  (⟨.closer inner.bracket, start, stop⟩ :: rest) =
                ({ reader with strict } : Reader).resume finish inner.close ⟨rest, stop, finish⟩
                  below :=
            readWith_closer inner below start stop rest
          cases below with
          | nil => exact .of_form paired (closes true) (closes false)
          | cons outer below =>
            have further : InStep reader finish _ (outer.push inner.close :: below) rest :=
              ih (openStack.pop rfl) paired
            exact further.of_step (closes true) (closes false)
        · have mismatch : Mismatch consumed ⟨.closer bracket, start, stop⟩ :=
            ⟨inner.bracket, bracket, rfl, openStack.pairsWith_iff.mpr rfl, same⟩
          refine .diverge [] inner.close below rfl (by simpa using matched)
            (by simpa using mismatch) ?_ ?_
          · have stopping : reader.strictly.readWith finish (inner :: below)
                (⟨.closer bracket, start, stop⟩ :: rest) =
              (.error ((Fault.closerOfOtherKind inner.bracket bracket inner.opened).reportAt
                (start.inFile reader.file)), ⟨rest, stop, finish⟩) := by
              simp only [readWith, bne_iff_ne.mpr same, Bool.and_self, if_true]
            exact ⟨_, _, stopping, rfl, rfl⟩
          · cases below <;> simp [readWith, resume]

/-! ## One form -/

/-- What is read on behind a completed form is what follows it. -/
theorem suffix_resume (form : Form) (stop : Position) (below : List OpenCombo) :
    (reader.resume finish form ⟨pieces, stop, finish⟩ below).2.lexemes <:+ pieces := by
  cases below with
  | nil => exact List.suffix_rfl
  | cons outer below => exact suffix_readWith ..

/-- **Strictness adds mismatched closers.** What a strict reader reads, the lenient reader with the
same options reads as the same form, locations included, and stops at the same place. What the
lenient reader reads, the strict one reads as the same form, or it stops at the first closer of the
form that is not of the kind of its opener. Where the lenient reader fails, the strict one fails
with the same report or stops at a mismatched closer that was read before. So a form is read
strictly exactly if it is read leniently and all its closers match their openers. -/
theorem strict_adds_mismatches (reader : Reader) (input : Input) :
    (∀ form behind, reader.strictly.readForm input = (.ok form, behind) →
      reader.leniently.readForm input = (.ok form, behind)) ∧
    (∀ form behind, reader.leniently.readForm input = (.ok form, behind) →
      reader.strictly.readForm input = (.ok form, behind) ∨
        ∃ used lexeme, input.lexemes = used ++ behind.lexemes ∧ FirstMismatch used lexeme ∧
          StopsAt reader lexeme (reader.strictly.readForm input)) ∧
    (∀ report behind, reader.leniently.readForm input = (.error report, behind) →
      (reader.strictly.readForm input).1 = .error report ∨
        ∃ read lexeme after, input.lexemes = read ++ lexeme :: after ∧ Matched read ∧
          Mismatch read lexeme ∧ StopsAt reader lexeme (reader.strictly.readForm input) ∧
          FailsAt reader.file input.finish after report behind.lexemes) ∧
    ((∃ form behind, reader.strictly.readForm input = (.ok form, behind)) ↔
      ∃ form behind used, reader.leniently.readForm input = (.ok form, behind) ∧
        input.lexemes = used ++ behind.lexemes ∧ Matched used) := by
  have inStep : InStep reader input.finish [] [] input.lexemes :=
    readWith_strict (.nil balanced_nil) matched_nil input.lexemes
  unfold readForm
  cases inStep with
  | same equal matched =>
    rw [equal]
    refine ⟨fun _ _ read => read, fun _ _ read => .inl read, fun _ _ failed => ?_, ?_, ?_⟩
    · exact .inl (by rw [failed])
    · rintro ⟨form, behind, read⟩
      have suffix : (reader.leniently.readWith input.finish [] input.lexemes).2.lexemes <:+
          input.lexemes := suffix_readWith input.finish [] input.lexemes
      rw [read] at suffix
      obtain ⟨used, split⟩ := suffix
      exact ⟨form, behind, used, read, split.symm, matched form behind used read split.symm⟩
    · rintro ⟨form, behind, used, read, -, -⟩
      exact ⟨form, behind, read⟩
  | @diverge read after lexeme form below place earlier mismatch stops onward =>
    rw [List.nil_append] at earlier mismatch
    have suffix : (reader.leniently.resume input.finish form ⟨after, lexeme.stop, input.finish⟩
        below).2.lexemes <:+ after := suffix_resume form lexeme.stop below
    rw [← onward] at suffix
    have never (form : Form) (behind : Input) :
        reader.strictly.readWith input.finish [] input.lexemes ≠ (.ok form, behind) := by
      obtain ⟨report, other, failed, -⟩ := stops
      rw [failed]
      nofun
    have first (behind : Input) (used : List Lexeme)
        (split : input.lexemes = used ++ behind.lexemes) (left : behind.lexemes <:+ after) :
        FirstMismatch used lexeme := by
      obtain ⟨more, rfl⟩ := left
      rw [place, ← List.cons_append, ← List.append_assoc] at split
      exact ⟨read, more, (List.append_cancel_right split).symm, earlier, mismatch⟩
    refine ⟨fun form behind read => absurd read (never form behind), ?_, ?_, ?_, ?_⟩
    · intro form behind done
      rw [done] at suffix
      obtain ⟨more, rfl⟩ := suffix
      have split : input.lexemes = (read ++ lexeme :: more) ++ behind.lexemes := by simp [place]
      exact .inr ⟨_, lexeme, split, first behind _ split (List.suffix_append ..), stops⟩
    · intro report behind failed
      refine .inr ⟨read, lexeme, after, place, earlier, mismatch, stops, ?_⟩
      rw [onward] at failed
      cases below with
      | nil => cases failed
      | cons outer below =>
        have stopped : reader.leniently.readWith input.finish (outer.push form :: below) after =
          (.error report, behind) := failed
        have fails : FailsAt reader.leniently.file input.finish after report behind.lexemes :=
          failsAt_of_readWith stopped
        exact fails
    · rintro ⟨form, behind, done⟩
      exact absurd done (never form behind)
    · rintro ⟨form, behind, used, done, split, matched⟩
      rw [done] at suffix
      exact absurd matched (first behind used split suffix).not_matched

end Reader

end ExprLang
