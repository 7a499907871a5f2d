import ExprLang.Proofs.Form.Printing

/-!
# Depth of trees and of reading

How far below its root a tree reaches, and what the limit on nesting decides about reading. A reader
that does not stop at its limit gives the same under every higher limit
(`Reader.readWith_withLimit`).
-/

namespace ExprLang

/-- An outcome is the report that something nests too deep. -/
def TooDeep {α : Type} (outcome : Except Diagnostic α) : Prop :=
  ∃ report, outcome = .error report ∧ report.code = .tooDeeplyNested

/-- A form stands a number of levels below another. -/
inductive Form.AtLevel : Form → Nat → Form → Prop where
  | root {form : Form} : AtLevel form 0 form
  | child {bracket : Bracket} {children : List Form} {loc : Location} {child form : Form}
      {level : Nat} (belongs : child ∈ children) (deeper : AtLevel child level form) :
      AtLevel (.combo bracket children loc) (level + 1) form

namespace Form

theorem nesting_le_nestingAll {form : Form} {forms : List Form} (belongs : form ∈ forms) :
    form.nesting ≤ nestingAll forms := by
  induction forms with
  | nil => cases belongs
  | cons first rest ih =>
    rw [nestingAll]
    rcases List.mem_cons.mp belongs with rfl | later
    · exact Nat.le_max_left _ _
    · exact Nat.le_trans (ih later) (Nat.le_max_right _ _)

/-- No form stands more levels below a root than the brackets of the root nest. -/
theorem AtLevel.le_nesting {root form : Form} {level : Nat} (below : root.AtLevel level form) :
    level ≤ root.nesting := by
  induction below with
  | root => exact Nat.zero_le _
  | child belongs deeper ih =>
    rw [nesting]
    exact Nat.succ_le_succ (Nat.le_trans ih (nesting_le_nestingAll belongs))

end Form

namespace Reader

variable {reader : Reader} {limit : Nat}

abbrev withLimit (reader : Reader) (limit : Nat) : Reader :=
  { reader with maxDepth := limit }

/-- Reading on with combos open stops at the limit, or gives the same under a higher limit. -/
theorem readWith_withLimit (higher : reader.maxDepth ≤ limit) (finish : Position)
    (stack : List OpenCombo) (pieces : List Lexeme) :
    TooDeep (reader.readWith finish stack pieces).1 ∨
      (reader.withLimit limit).readWith finish stack pieces =
        reader.readWith finish stack pieces := by
  induction pieces generalizing stack with
  | nil => exact .inr rfl
  | cons lexeme rest ih =>
    obtain ⟨piece, start, stop⟩ := lexeme
    cases piece with
    | unterminated text => exact .inr rfl
    | opener bracket =>
      simp only [readWith]
      by_cases full : reader.maxDepth ≤ stack.length
      · rw [if_pos full]
        exact .inl ⟨_, rfl, rfl⟩
      · rw [if_neg full]
        by_cases deep : limit ≤ stack.length
        · exact absurd (Nat.le_trans higher deep) full
        · rw [if_neg deep]
          exact ih _
    | atom text =>
      cases stack with
      | nil => exact .inr rfl
      | cons outer below => exact ih _
    | closer bracket =>
      cases stack with
      | nil => exact .inr rfl
      | cons inner below =>
        simp only [readWith]
        split
        · exact .inr rfl
        · cases below with
          | nil => exact .inr rfl
          | cons outer below => exact ih _

theorem readForm_withLimit (higher : reader.maxDepth ≤ limit) (input : Input)
    (within : ¬ TooDeep (reader.readForm input).1) :
    (reader.withLimit limit).readForm input = reader.readForm input :=
  (readWith_withLimit higher input.finish [] input.lexemes).resolve_left within

/-- Reading all forms reads one and then the others. -/
theorem readForms_eq (reader : Reader) {input : Input} (left : ¬ input.atEnd = true) :
    reader.readForms input = match reader.readForm input with
      | (.error report, _) => .error report
      | (.ok form, behind) => (reader.readForms behind).map (form :: ·) := by
  rw [readForms, dif_neg left]
  split
  next report behind read => rw [read]
  next form behind read =>
    dsimp only
    rw [read]
    dsimp only
    cases reader.readForms behind <;> rfl

theorem readForms_withLimit (higher : reader.maxDepth ≤ limit) (input : Input) :
    TooDeep (reader.readForms input) ∨
      (reader.withLimit limit).readForms input = reader.readForms input := by
  fun_induction reader.readForms input with
  | case1 input ended => exact .inr (by rw [readForms, dif_pos ended])
  | case2 input left report behind read =>
    by_cases deep : TooDeep (reader.readForm input).1
    · rw [read] at deep
      obtain ⟨_, ⟨rfl⟩, code⟩ := deep
      exact .inl ⟨report, rfl, code⟩
    · right
      rw [readForms_eq _ left, readForm_withLimit higher input deep, read]
  | case3 input left form behind read shorter ih =>
    rcases ih with ⟨report, failed, code⟩ | same
    · exact .inl ⟨report, by rw [failed]; rfl, code⟩
    · right
      have within : ¬ TooDeep (reader.readForm input).1 := by
        rw [read]
        rintro ⟨report, ⟨⟩, -⟩
      rw [readForms_eq _ left, readForm_withLimit higher input within, read]
      dsimp only
      rw [same]
      cases reader.readForms behind <;> rfl

theorem readAll_withLimit (higher : reader.maxDepth ≤ limit) (text : String)
    (within : ¬ TooDeep (reader.readAll text)) :
    (reader.withLimit limit).readAll text = reader.readAll text :=
  (readForms_withLimit higher (.ofText text)).resolve_left within

theorem readOnly_withLimit (higher : reader.maxDepth ≤ limit) (text : String)
    (within : ¬ TooDeep (reader.readOnly text)) :
    (reader.withLimit limit).readOnly text = reader.readOnly text := by
  have first : ¬ TooDeep (reader.readForm (.ofText text)).1 := by
    rintro ⟨report, failed, code⟩
    refine within ⟨report, ?_, code⟩
    unfold readOnly
    split
    next other behind read =>
      rw [read] at failed
      exact failed
    next form behind read =>
      rw [read] at failed
      cases failed
  unfold readOnly
  rw [readForm_withLimit higher _ first]

end Reader

end ExprLang
