import Mathlib.Data.List.Induction
import ExprLang.Form.Reader

/-!
# How brackets nest

The grammar of a reader in terms of the pieces of a text alone. `balance` counts openers less
closers. A piece violates the grammar behind others if it is an unterminated string, an opener
that nests too deep, a closer without an opener or, for a strict reader, a closer of another kind
than the opener it pairs with; the opener that a closer pairs with is the one from which on the
brackets are balanced.

`OpenStack` follows the openers that are not closed yet. It is what an induction over the pieces
needs, and it decides the opener that the next closer pairs with (`OpenStack.pairsWith_iff`).
-/

namespace ExprLang

/-- What a piece adds to the number of open brackets. -/
def Piece.delta : Piece → Int
  | .opener _ => 1
  | .closer _ => -1
  | .atom _ | .unterminated _ => 0

def balance (pieces : List Lexeme) : Int :=
  (pieces.map (·.piece.delta)).foldr (· + ·) 0

@[simp] theorem balance_nil : balance [] = 0 := rfl

@[simp] theorem balance_cons (lexeme : Lexeme) (pieces : List Lexeme) :
    balance (lexeme :: pieces) = lexeme.piece.delta + balance pieces := rfl

@[simp] theorem balance_append (first second : List Lexeme) :
    balance (first ++ second) = balance first + balance second := by
  induction first with
  | nil => simp
  | cons lexeme rest ih =>
    rw [List.cons_append, balance_cons, balance_cons, ih]
    omega

def Balanced (pieces : List Lexeme) : Prop :=
  balance pieces = 0 ∧ ∀ before, before <+: pieces → 0 ≤ balance before

/-- A closer behind these pieces pairs with an opener of the given kind: between the two the
brackets are balanced. -/
def PairsWith (before : List Lexeme) (bracket : Bracket) : Prop :=
  ∃ outer opener inside, before = outer ++ opener :: inside ∧ opener.piece = .opener bracket ∧
    Balanced inside

/-- A piece violates the grammar of a reader behind the pieces before it. -/
inductive Violation (reader : Reader) (before : List Lexeme) : Piece → Diagnostic.Code → Prop where
  | unterminated {text : List Char} :
    Violation reader before (.unterminated text) .unterminatedString
  | tooDeep {bracket : Bracket} (exceeds : reader.maxDepth < balance before + 1) :
    Violation reader before (.opener bracket) .tooDeeplyNested
  | unopened {bracket : Bracket} (under : balance before - 1 < 0) :
    Violation reader before (.closer bracket) .unbalancedCloser
  | mismatched {bracket opened : Bracket} (strict : reader.strict = true)
      (pairs : PairsWith before opened) (differ : opened ≠ bracket) :
    Violation reader before (.closer bracket) .mismatchedCloser

def Clean (reader : Reader) (pieces : List Lexeme) : Prop :=
  ∀ before lexeme after code, pieces = before ++ lexeme :: after →
    ¬ Violation reader before lexeme.piece code

/-- The pieces are those of a text that a reader accepts: every string is terminated, the brackets
never close too early or nest too deep and are closed in the end, and a strict reader finds every
closer to be of the kind of its opener. -/
structure Accepted (reader : Reader) (pieces : List Lexeme) : Prop where
  terminated : ∀ lexeme ∈ pieces, ∀ text, lexeme.piece ≠ .unterminated text
  within : ∀ before, before <+: pieces → 0 ≤ balance before ∧ balance before ≤ reader.maxDepth
  closed : balance pieces = 0
  paired : reader.strict = true → ∀ before lexeme after bracket opened,
    pieces = before ++ lexeme :: after → lexeme.piece = .closer bracket → PairsWith before opened →
      opened = bracket

/-- The first violated condition of pieces that end at a position, in the order of the source: the
code and the location that a report of it has. -/
inductive FirstViolation (reader : Reader) (finish : Position) (pieces : List Lexeme) :
    Diagnostic.Code → Position → Prop where
  | piece {before after : List Lexeme} {lexeme : Lexeme} {code : Diagnostic.Code}
      (place : pieces = before ++ lexeme :: after) (clean : Clean reader before)
      (violation : Violation reader before lexeme.piece code) :
    FirstViolation reader finish pieces code lexeme.start
  | unclosed (clean : Clean reader pieces) (open_ : balance pieces ≠ 0) :
    FirstViolation reader finish pieces .unexpectedEndOfCombo finish

/-! ## Balanced pieces -/

section Balance

variable {pieces first second inside outer : List Lexeme} {lexeme opener closer : Lexeme}
  {bracket opened : Bracket}

theorem balanced_nil : Balanced [] := by
  refine ⟨rfl, fun before isPrefix => ?_⟩
  rw [List.prefix_nil.mp isPrefix]
  exact Int.le_refl 0

theorem Balanced.append (firstBalanced : Balanced first) (secondBalanced : Balanced second) :
    Balanced (first ++ second) := by
  refine ⟨by rw [balance_append, firstBalanced.1, secondBalanced.1]; rfl, fun before isPrefix => ?_⟩
  rcases List.prefix_or_prefix_of_prefix isPrefix (List.prefix_append first second) with
    early | ⟨rest, rfl⟩
  · exact firstBalanced.2 before early
  · have nonneg := secondBalanced.2 rest ((List.prefix_append_right_inj first).mp isPrefix)
    rw [balance_append, firstBalanced.1]
    omega

/-- A piece that is no bracket is balanced. -/
theorem balanced_singleton (flat : lexeme.piece.delta = 0) : Balanced [lexeme] := by
  refine ⟨by simp [flat], fun before isPrefix => ?_⟩
  rcases List.prefix_cons_iff.mp isPrefix with rfl | ⟨rest, rfl, empty⟩
  · simp
  · simp [List.prefix_nil.mp empty, flat]

/-- Brackets around balanced pieces are balanced. -/
theorem Balanced.enclose (balanced : Balanced inside) (opens : opener.piece = .opener opened)
    (closes : closer.piece = .closer bracket) : Balanced (opener :: (inside ++ [closer])) := by
  refine ⟨by simp [opens, closes, Piece.delta, balanced.1], fun before isPrefix => ?_⟩
  rcases List.prefix_cons_iff.mp isPrefix with rfl | ⟨rest, rfl, inner⟩
  · simp
  rcases List.prefix_concat_iff.mp inner with rfl | inner
  · simp [opens, closes, Piece.delta, balanced.1]
  · have nonneg := balanced.2 rest inner
    simp only [balance_cons, opens, Piece.delta]
    omega

/-- Behind an opener from which on the brackets are balanced, there is no other such opener. -/
theorem eq_nil_of_balanced (opens : lexeme.piece = .opener bracket) (innerBalanced : Balanced second)
    (outerBalanced : Balanced first) (same : opener :: first = outer ++ lexeme :: second) :
    outer = [] := by
  cases outer with
  | nil => rfl
  | cons head outer =>
    rw [List.cons_append, List.cons.injEq] at same
    obtain ⟨-, rfl⟩ := same
    have nonneg := outerBalanced.2 outer (List.prefix_append ..)
    have total := outerBalanced.1
    rw [balance_append, balance_cons, opens, innerBalanced.1] at total
    simp only [Piece.delta] at total
    omega

/-- The brackets are balanced from one opener on only. -/
theorem eq_of_balanced {outer' inside' : List Lexeme} {opener' : Lexeme}
    (opens : opener.piece = .opener bracket) (opens' : opener'.piece = .opener opened)
    (balanced : Balanced inside) (balanced' : Balanced inside')
    (same : outer ++ opener :: inside = outer' ++ opener' :: inside') :
    outer = outer' ∧ opener = opener' := by
  rcases List.append_eq_append_iff.mp same with ⟨middle, rfl, rest⟩ | ⟨middle, rfl, rest⟩
  · obtain rfl := eq_nil_of_balanced opens' balanced' balanced rest
    exact ⟨by simp, (List.cons.inj rest).1⟩
  · obtain rfl := eq_nil_of_balanced opens balanced balanced' rest
    exact ⟨by simp, (List.cons.inj rest).1.symm⟩

/-- A closer pairs with one kind of opener. -/
theorem PairsWith.unique (first : PairsWith pieces bracket) (second : PairsWith pieces opened) :
    bracket = opened := by
  obtain ⟨outer, opener, inside, rfl, opens, balanced⟩ := first
  obtain ⟨outer', opener', inside', same, opens', balanced'⟩ := second
  obtain ⟨-, rfl⟩ := eq_of_balanced opens opens' balanced balanced' same
  exact Piece.opener.inj (opens.symm.trans opens')

end Balance

/-! ## Openers that are not closed -/

/-- The openers among the pieces that are not closed, innermost first. -/
inductive OpenStack : List Lexeme → List Bracket → Prop where
  | nil {pieces : List Lexeme} (balanced : Balanced pieces) : OpenStack pieces []
  | cons {outer inside : List Lexeme} {opener : Lexeme} {bracket : Bracket} {stack : List Bracket}
      (below : OpenStack outer stack) (opens : opener.piece = .opener bracket)
      (balanced : Balanced inside) : OpenStack (outer ++ opener :: inside) (bracket :: stack)

namespace OpenStack

variable {pieces more : List Lexeme} {stack : List Bracket} {lexeme : Lexeme}
  {bracket top : Bracket}

theorem append (openStack : OpenStack pieces stack) (balanced : Balanced more) :
    OpenStack (pieces ++ more) stack := by
  cases openStack with
  | nil balancedPieces => exact .nil (balancedPieces.append balanced)
  | cons below opens balancedInside =>
    rw [List.append_assoc, List.cons_append]
    exact .cons below opens (balancedInside.append balanced)

theorem push (openStack : OpenStack pieces stack) (opens : lexeme.piece = .opener bracket) :
    OpenStack (pieces ++ [lexeme]) (bracket :: stack) :=
  .cons openStack opens balanced_nil

theorem pop (openStack : OpenStack pieces (top :: stack))
    (closes : lexeme.piece = .closer bracket) :
    OpenStack (pieces ++ [lexeme]) stack := by
  cases openStack with
  | cons below opens balanced =>
    rw [List.append_assoc, List.cons_append]
    exact below.append (balanced.enclose opens closes)

theorem balance_eq (openStack : OpenStack pieces stack) : balance pieces = stack.length := by
  induction openStack with
  | nil balanced => exact balanced.1
  | cons below opens balanced ih =>
    rw [balance_append, balance_cons, ih, opens, balanced.1, List.length_cons]
    simp [Piece.delta]

/-- One list of openers is not closed. -/
theorem unique {other : List Bracket} (openStack : OpenStack pieces stack)
    (again : OpenStack pieces other) : stack = other := by
  induction openStack generalizing other with
  | nil balanced =>
    have none := again.balance_eq
    rw [balanced.1] at none
    exact (List.length_eq_zero_iff.mp (by omega)).symm
  | @cons outer inside opener bracket stack below opens balanced ih =>
    have some := (OpenStack.cons below opens balanced).balance_eq
    generalize same : outer ++ opener :: inside = pieces at again some
    cases again with
    | nil others =>
      rw [others.1, List.length_cons] at some
      omega
    | cons below' opens' balanced' =>
      obtain ⟨rfl, rfl⟩ := eq_of_balanced opens opens' balanced balanced' same
      rw [ih below', Piece.opener.inj (opens.symm.trans opens')]

/-- The next closer pairs with the innermost opener that is not closed. -/
theorem pairsWith_iff (openStack : OpenStack pieces (top :: stack)) :
    PairsWith pieces bracket ↔ bracket = top := by
  have here : PairsWith pieces top := by
    cases openStack with
    | cons below opens balanced => exact ⟨_, _, _, rfl, opens, balanced⟩
  exact ⟨fun pairs => pairs.unique here, fun same => same ▸ here⟩

end OpenStack

/-! ## Pieces without violations -/

section Clean

variable {reader : Reader} {before pieces : List Lexeme} {lexeme : Lexeme}

theorem clean_nil : Clean reader [] := by
  intro before lexeme after code place
  simp at place

theorem clean_concat_iff : Clean reader (pieces ++ [lexeme]) ↔
    Clean reader pieces ∧ ∀ code, ¬ Violation reader pieces lexeme.piece code := by
  constructor
  · intro clean
    refine ⟨fun before other after code place => ?_, fun code => ?_⟩
    · exact clean before other (after ++ [lexeme]) code (by simp [place])
    · exact clean pieces lexeme [] code rfl
  · rintro ⟨clean, last⟩ before other after code place
    rcases List.eq_nil_or_concat after with rfl | ⟨after, final, rfl⟩
    · obtain ⟨rfl, same⟩ := List.append_inj' place rfl
      cases same
      exact last code
    · rw [List.concat_eq_append, ← List.cons_append, ← List.append_assoc] at place
      obtain ⟨earlier, -⟩ := List.append_inj' place rfl
      exact clean before other after code earlier

/-- Without violations the brackets neither close too early nor nest too deep. -/
theorem Clean.within (clean : Clean reader pieces) (isPrefix : before <+: pieces) :
    0 ≤ balance before ∧ balance before ≤ reader.maxDepth := by
  induction before using List.reverseRecOn with
  | nil => simp
  | append_singleton before lexeme ih =>
    obtain ⟨after, rfl⟩ := isPrefix
    obtain ⟨low, high⟩ := ih ⟨lexeme :: after, by simp⟩
    have unviolated (code : Diagnostic.Code) : ¬ Violation reader before lexeme.piece code :=
      clean before lexeme after code (by simp)
    rw [balance_append, balance_cons, balance_nil]
    cases kind : lexeme.piece with
    | opener bracket =>
      rw [kind] at unviolated
      have notDeep : ¬ reader.maxDepth < balance before + 1 :=
        fun exceeds => unviolated _ (.tooDeep exceeds)
      simp only [Piece.delta]
      omega
    | closer bracket =>
      rw [kind] at unviolated
      have opened : ¬ balance before - 1 < 0 := fun under => unviolated _ (.unopened under)
      simp only [Piece.delta]
      omega
    | atom text =>
      simp only [Piece.delta]
      omega
    | unterminated text =>
      simp only [Piece.delta]
      omega

/-- The accepted pieces are those that violate nothing and end with all brackets closed. -/
theorem accepted_iff : Accepted reader pieces ↔ Clean reader pieces ∧ balance pieces = 0 := by
  constructor
  · intro accepted
    refine ⟨fun before lexeme after code place violation => ?_, accepted.closed⟩
    have next : before ++ [lexeme] <+: pieces := ⟨after, by simp [place]⟩
    obtain ⟨low, high⟩ := accepted.within _ next
    rw [balance_append, balance_cons, balance_nil] at low high
    cases kind : lexeme.piece with
    | opener bracket =>
      rw [kind] at violation low high
      cases violation with
      | tooDeep exceeds =>
        simp only [Piece.delta] at high
        omega
    | closer bracket =>
      rw [kind] at violation low high
      cases violation with
      | unopened under =>
        simp only [Piece.delta] at low
        omega
      | mismatched strict pairs differ =>
        exact differ (accepted.paired strict before lexeme after bracket _ place kind pairs)
    | atom text =>
      rw [kind] at violation
      cases violation
    | unterminated text =>
      exact accepted.terminated lexeme (by simp [place]) text kind
  · rintro ⟨clean, closed⟩
    refine ⟨?_, fun before isPrefix => clean.within isPrefix, closed, ?_⟩
    · intro lexeme belongs text kind
      obtain ⟨before, after, place⟩ := List.append_of_mem belongs
      have violation : Violation reader before lexeme.piece .unterminatedString := by
        rw [kind]
        exact .unterminated
      exact clean before lexeme after _ place violation
    · intro strict before lexeme after bracket opened place kind pairs
      by_contra differ
      have violation : Violation reader before lexeme.piece .mismatchedCloser := by
        rw [kind]
        exact .mismatched strict pairs differ
      exact clean before lexeme after _ place violation

end Clean

/-! ## The first violation -/

section First

variable {reader : Reader} {finish place other : Position} {before pieces : List Lexeme}
  {piece : Piece} {code code' : Diagnostic.Code} {bracket : Bracket}

/-- A bracket is open where a closer pairs with an opener. -/
theorem PairsWith.balance_pos (clean : Clean reader before) (pairs : PairsWith before bracket) :
    0 < balance before := by
  obtain ⟨outer, opener, inside, rfl, opens, balanced⟩ := pairs
  have nonneg := (clean.within (List.prefix_append outer (opener :: inside))).1
  rw [balance_append, balance_cons, opens, balanced.1]
  simp only [Piece.delta]
  omega

/-- A piece violates at most one condition behind pieces that violate none. -/
theorem Violation.unique (clean : Clean reader before) (first : Violation reader before piece code)
    (second : Violation reader before piece code') : code = code' := by
  cases first with
  | unterminated =>
    cases second
    rfl
  | tooDeep exceeds =>
    cases second
    rfl
  | unopened under =>
    cases second with
    | unopened _ => rfl
    | mismatched _ pairs _ =>
      have opened := pairs.balance_pos clean
      omega
  | mismatched _ pairs _ =>
    cases second with
    | unopened under =>
      have opened := pairs.balance_pos clean
      omega
    | mismatched _ _ _ => rfl

/-- There is one first violation. -/
theorem FirstViolation.unique (first : FirstViolation reader finish pieces code place)
    (second : FirstViolation reader finish pieces code' other) : code = code' ∧ place = other := by
  cases first with
  | @piece before after lexeme code here clean violation =>
    cases second with
    | @piece before' after' lexeme' code' there clean' violation' =>
      rcases List.append_eq_append_iff.mp (here.symm.trans there) with
        ⟨middle, rfl, rest⟩ | ⟨middle, rfl, rest⟩
      · cases middle with
        | nil =>
          cases rest
          rw [List.append_nil] at violation'
          exact ⟨violation.unique clean violation', rfl⟩
        | cons head middle =>
          obtain ⟨rfl, -⟩ := List.cons.inj rest
          exact absurd violation (clean' before lexeme middle code rfl)
      · cases middle with
        | nil =>
          cases rest
          rw [List.append_nil] at violation
          exact ⟨violation.unique clean' violation', rfl⟩
        | cons head middle =>
          obtain ⟨rfl, -⟩ := List.cons.inj rest
          exact absurd violation' (clean before' lexeme' middle code' rfl)
    | unclosed clean' open_ => exact absurd violation (clean' before lexeme after code here)
  | unclosed clean open_ =>
    cases second with
    | @piece before' after' lexeme' code' there clean' violation' =>
      exact absurd violation' (clean before' lexeme' after' code' there)
    | unclosed _ _ => exact ⟨rfl, rfl⟩

/-- Pieces with a violation are not accepted. -/
theorem FirstViolation.not_accepted (first : FirstViolation reader finish pieces code place) :
    ¬ Accepted reader pieces := by
  rw [accepted_iff]
  rintro ⟨clean, closed⟩
  cases first with
  | @piece before after lexeme code here _ violation =>
    exact clean before lexeme after code here violation
  | unclosed _ open_ => exact open_ closed

end First

end ExprLang
