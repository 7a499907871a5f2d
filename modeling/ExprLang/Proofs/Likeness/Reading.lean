import ExprLang.Form.Reader
import ExprLang.Proofs.Likeness.Elaboration

/-!
# Reading texts whose pieces agree

Two texts whose pieces agree, whatever blanks stand between them, are read to forms that are alike,
or reading both fails with one code and one message (`Reader.readOnly_alike`). A lenient reader lets
closers differ in kind; only the message about a closer without an opener then shows which one
stands there.
-/

namespace ExprLang

variable {places : Location → Location → Prop} {atoms : String → Prop} {anyCloser : Bool}

/-- Two pieces agree: they are the same, or closers of any kinds where that does not matter. -/
inductive Piece.Alike (anyCloser : Bool) : Piece → Piece → Prop where
  | same (piece : Piece) : Alike anyCloser piece piece
  | closers (any : anyCloser = true) (bracket other : Bracket) :
      Alike anyCloser (.closer bracket) (.closer other)

/-- Two pieces agree and start at places that count as the same; atoms have a property. -/
structure Lexeme.Alike (places : Location → Location → Prop) (atoms : String → Prop)
    (anyCloser : Bool) (file : String) (lexeme other : Lexeme) : Prop where
  piece : lexeme.piece.Alike anyCloser other.piece
  place : places (lexeme.start.inFile file) (other.start.inFile file)
  meant : ∀ text, lexeme.piece = .atom text → atoms (String.ofList text)

structure OpenCombo.Alike (places : Location → Location → Prop) (atoms : String → Prop)
    (combo other : OpenCombo) : Prop where
  bracket : combo.bracket = other.bracket
  place : places combo.opened other.opened
  children : List.Forall₂ (Form.Alike places atoms) combo.children other.children

namespace OpenCombo.Alike

variable {combo other : OpenCombo} {form otherForm : Form}

theorem push (alike : combo.Alike places atoms other) (forms : form.Alike places atoms otherForm) :
    (combo.push form).Alike places atoms (other.push otherForm) :=
  ⟨alike.bracket, alike.place, .cons forms alike.children⟩

theorem close (alike : combo.Alike places atoms other) :
    combo.close.Alike places atoms other.close := by
  unfold OpenCombo.close
  rw [alike.bracket]
  exact .combo (List.rel_reverse alike.children) alike.place

end OpenCombo.Alike

/-- Two reports of one code, both with a place or both without. They have one message, unless that
shows which closer stands without an opener. The notes of a reader may name places, so nothing is
said about them. -/
structure Diagnostic.Resembles (anyCloser : Bool) (report other : Diagnostic) : Prop where
  code : report.code = other.code
  message : anyCloser = false ∨ report.code ≠ .unbalancedCloser → report.message = other.message
  located : report.location.isSome = other.location.isSome

theorem Diagnostic.Alike.resembles {report other : Diagnostic} (alike : report.Alike places other) :
    report.Resembles anyCloser other :=
  ⟨alike.code, fun _ => alike.message, isSome_eq_of_rel alike.location⟩

/-- Two faults of one code and one message are reported alike, wherever they are found. -/
theorem Fault.resembles {fault other : Fault} (code : fault.code = other.code)
    (message : anyCloser = false ∨ fault.code ≠ .unbalancedCloser → fault.message = other.message)
    (loc otherLoc : Location) :
    (fault.reportAt loc).Resembles anyCloser (other.reportAt otherLoc) :=
  ⟨code, message, rfl⟩

namespace Reader

variable {reader : Reader} {finish otherFinish : Position} {stack otherStack : List OpenCombo}
  {pieces others : List Lexeme}

/-- Two readings side by side: forms that are alike with pieces behind them that agree, or reports
that resemble each other. -/
abbrev ReadAlike (places : Location → Location → Prop) (atoms : String → Prop) (anyCloser : Bool)
    (file : String) (outcome other : Except Diagnostic Form × Input) : Prop :=
  Parallel (Diagnostic.Resembles anyCloser) (Form.Alike places atoms) outcome.1 other.1 ∧
    List.Forall₂ (Lexeme.Alike places atoms anyCloser file) outcome.2.lexemes other.2.lexemes

theorem readAlike_of_fault {fault other : Fault} {loc otherLoc : Location}
    {behind otherBehind : Input} {file : String} (code : fault.code = other.code)
    (message : anyCloser = false ∨ fault.code ≠ .unbalancedCloser → fault.message = other.message)
    (rest : List.Forall₂ (Lexeme.Alike places atoms anyCloser file) behind.lexemes
      otherBehind.lexemes) :
    ReadAlike places atoms anyCloser file (.error (fault.reportAt loc), behind)
      (.error (other.reportAt otherLoc), otherBehind) :=
  ⟨.error (Fault.resembles code message loc otherLoc), rest⟩

/-- Reading on with combos open that are alike ends alike. -/
theorem readWith_alike (lenient : anyCloser = true → reader.strict = false)
    (opened : List.Forall₂ (OpenCombo.Alike places atoms) stack otherStack)
    (agree : List.Forall₂ (Lexeme.Alike places atoms anyCloser reader.file) pieces others) :
    ReadAlike places atoms anyCloser reader.file (reader.readWith finish stack pieces)
      (reader.readWith otherFinish otherStack others) := by
  -- Each step takes one piece from each side and keeps the stacks alike.
  induction agree generalizing stack otherStack with
  | nil =>
    cases opened with
    | nil => exact readAlike_of_fault rfl (fun _ => rfl) .nil
    | @cons combo other _ _ combos _ =>
      obtain ⟨bracket, opened, children⟩ := combo
      obtain ⟨otherBracket, otherOpened, otherChildren⟩ := other
      obtain rfl : bracket = otherBracket := combos.bracket
      exact readAlike_of_fault rfl (fun _ => rfl) .nil
  | @cons lexeme other rest otherRest first agree ih =>
    obtain ⟨piece, start, stop⟩ := lexeme
    obtain ⟨otherPiece, otherStart, otherStop⟩ := other
    obtain ⟨pieces, place, meant⟩ := first
    dsimp only at pieces place meant
    cases pieces with
    | same =>
      cases piece with
      | unterminated text => exact readAlike_of_fault rfl (fun _ => rfl) agree
      | opener bracket =>
        simp only [readWith, ← opened.length_eq]
        split
        · exact readAlike_of_fault rfl (fun _ => rfl) agree
        · exact ih (.cons ⟨rfl, place, .nil⟩ opened)
      | atom text =>
        have leaf : Form.Alike places atoms (.atom (String.ofList text) (start.inFile reader.file))
            (.atom (String.ofList text) (otherStart.inFile reader.file)) :=
          .atom (meant text rfl) place
        cases opened with
        | nil => exact ⟨.ok leaf, agree⟩
        | cons outers belows => exact ih (.cons (outers.push leaf) belows)
      | closer bracket =>
        cases opened with
        | nil => exact readAlike_of_fault rfl (fun _ => rfl) agree
        | cons inners belows =>
          simp only [readWith, inners.bracket]
          split
          · exact readAlike_of_fault rfl (fun _ => rfl) agree
          · cases belows with
            | nil => exact ⟨.ok inners.close, agree⟩
            | cons outers belows => exact ih (.cons (outers.push inners.close) belows)
    | closers any bracket otherBracket =>
      cases opened with
      | nil =>
        refine readAlike_of_fault rfl ?_ agree
        rintro (strict | differ)
        · cases any.symm.trans strict
        · exact absurd rfl differ
      | cons inners belows =>
        simp only [readWith, lenient any, Bool.false_and, Bool.false_eq_true, if_false]
        cases belows with
        | nil => exact ⟨.ok inners.close, agree⟩
        | cons outers belows => exact ih (.cons (outers.push inners.close) belows)

/-- Two texts whose pieces agree. -/
abbrev TextsAgree (places : Location → Location → Prop) (atoms : String → Prop) (anyCloser : Bool)
    (file : String) (source other : String) : Prop :=
  List.Forall₂ (Lexeme.Alike places atoms anyCloser file) (lexemes {} source.toList)
    (lexemes {} other.toList)

/-- Texts whose pieces agree are read to forms that are alike, or reading them fails alike. -/
theorem readOnly_alike {source other : String} (lenient : anyCloser = true → reader.strict = false)
    (agree : TextsAgree places atoms anyCloser reader.file source other) :
    Parallel (Diagnostic.Resembles anyCloser) (Form.Alike places atoms) (reader.readOnly source)
      (reader.readOnly other) := by
  have ends : ReadAlike places atoms anyCloser reader.file (reader.readForm (.ofText source))
      (reader.readForm (.ofText other)) := readWith_alike lenient .nil agree
  unfold readOnly
  generalize reader.readForm (.ofText source) = outcome at ends ⊢
  generalize reader.readForm (.ofText other) = otherOutcome at ends ⊢
  obtain ⟨outcome, behind⟩ := outcome
  obtain ⟨otherOutcome, otherBehind⟩ := otherOutcome
  obtain ⟨forms, rest⟩ := ends
  dsimp only at forms
  cases forms with
  | error held => exact .error held
  | ok held =>
    obtain ⟨left, position, finish⟩ := behind
    obtain ⟨otherLeft, otherPosition, otherFinish⟩ := otherBehind
    cases rest with
    | nil => exact .ok held
    | cons => exact .error (Fault.resembles rfl (fun _ => rfl) _ _)

end Reader

end ExprLang
