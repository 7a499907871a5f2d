import Mathlib.Logic.Relator
import Mathlib.Order.Basic

/-!
# Worlds of two runs

Two runs of the same text draw different identities when their supplies differ. A world says which
identities of the one run correspond to which of the other, one to one. Worlds only grow: what a run
draws is new, so the pair of identities that two runs draw at the same time can always be added
(`World.draw`, `World.enter`).
-/

namespace ExprLang

/-! ## Pairings -/

/-- A one-to-one correspondence between some members of a type and some members of it. -/
structure Pairing (α : Type) where
  pairs : α → α → Prop
  unique : Relator.BiUnique pairs

namespace Pairing

variable {α : Type}

instance : CoeFun (Pairing α) fun _ => α → α → Prop :=
  ⟨pairs⟩

/-- Members with a property correspond to themselves. -/
def identity (holds : α → Prop) : Pairing α where
  pairs a b := a = b ∧ holds a
  unique := by
    constructor
    · rintro a b c ⟨rfl, -⟩ ⟨rfl, -⟩
      rfl
    · rintro a b c ⟨rfl, -⟩ ⟨rfl, -⟩
      rfl

/-- What is drawn one by one from two supplies corresponds in the order of drawing. -/
def drawn (start other : Nat) : Pairing Nat where
  pairs a b := ∃ count, a = start + count ∧ b = other + count
  unique := by
    constructor
    · rintro a b c ⟨first, rfl, rfl⟩ ⟨second, rfl, same⟩
      omega
    · rintro a b c ⟨first, rfl, rfl⟩ ⟨second, same, rfl⟩
      omega

def single (first second : α) : Pairing α where
  pairs a b := a = first ∧ b = second
  unique := by
    constructor
    · rintro a b c ⟨rfl, -⟩ ⟨rfl, -⟩
      rfl
    · rintro a b c ⟨-, rfl⟩ ⟨-, rfl⟩
      rfl

/-- The members of a pairing, with a mark for each side. -/
def mark {β : Type} (pairing : Pairing α) (left right : β) : Pairing (α × β) where
  pairs a b := pairing a.1 b.1 ∧ a.2 = left ∧ b.2 = right
  unique := by
    constructor
    · rintro a b c ⟨first, aMark, -⟩ ⟨second, bMark, -⟩
      exact Prod.ext (pairing.unique.1 first second) (aMark.trans bMark.symm)
    · rintro a b c ⟨first, -, bMark⟩ ⟨second, -, cMark⟩
      exact Prod.ext (pairing.unique.2 first second) (bMark.trans cMark.symm)

/-- Two pairings that speak of different members on each side. -/
structure Apart (pairing other : Pairing α) : Prop where
  left : ∀ a b c, pairing a b → ¬ other a c
  right : ∀ a b c, pairing a c → ¬ other b c

/-- The pairs of two pairings that speak of different members. -/
def union (pairing other : Pairing α) (apart : pairing.Apart other) : Pairing α where
  pairs a b := pairing a b ∨ other a b
  unique := by
    constructor
    · rintro a b c (first | first) (second | second)
      · exact pairing.unique.1 first second
      · exact absurd second (apart.right _ _ _ first)
      · exact absurd first (apart.right _ _ _ second)
      · exact other.unique.1 first second
    · rintro a b c (first | first) (second | second)
      · exact pairing.unique.2 first second
      · exact absurd second (apart.left _ _ _ first)
      · exact absurd first (apart.left _ _ _ second)
      · exact other.unique.2 first second

/-- Pairs that agree on one side agree on the other. -/
theorem eq_iff {pairing : Pairing α} {a b c d : α} (first : pairing a c) (second : pairing b d) :
    a = b ↔ c = d := by
  constructor
  · rintro rfl
    exact pairing.unique.2 first second
  · rintro rfl
    exact pairing.unique.1 first second

end Pairing

/-! ## Worlds -/

/-- Which identities of two runs correspond: those of lists, maps and objects, and those of
functions, which are the identity of a lambda with that of a frame. -/
structure World where
  identities : Pairing Nat
  functions : Pairing (Nat × Nat)

namespace World

/-- Worlds are ordered by what corresponds in them. -/
instance : Preorder World where
  le world wider := (∀ a b, world.identities a b → wider.identities a b) ∧
    ∀ a b, world.functions a b → wider.functions a b
  le_refl _ := ⟨fun _ _ pair => pair, fun _ _ pair => pair⟩
  le_trans _ _ _ first second :=
    ⟨fun a b pair => second.1 a b (first.1 a b pair),
      fun a b pair => second.2 a b (first.2 a b pair)⟩

/-- All that a world speaks of was drawn from two supplies. -/
structure Fits (world : World) (next other : Nat) : Prop where
  identities : ∀ a b, world.identities a b → a < next ∧ b < other
  functions : ∀ a b, world.functions a b → a.2 < next ∧ b.2 < other

/-- What was drawn before two runs part corresponds to itself. -/
def below (older : Nat) : World where
  identities := .identity (· < older)
  functions := .identity fun key => key.1 < older ∧ key.2 < older

/-- What was drawn before two runs part corresponds to itself, and the functions that further
lambdas make in given frames correspond as the lambdas do. -/
def starting (older : Nat) (lambdas : Pairing Nat)
    (newer : ∀ a b, lambdas a b → older ≤ a ∧ older ≤ b) (frame other : Nat) : World where
  identities := (below older).identities
  functions := (below older).functions.union (lambdas.mark frame other) {
    left := by
      rintro a b c ⟨-, bound, -⟩ ⟨pair, -⟩
      exact absurd bound (Nat.not_lt.mpr (newer _ _ pair).1)
    right := by
      rintro a b c ⟨rfl, bound, -⟩ ⟨pair, -⟩
      exact absurd bound (Nat.not_lt.mpr (newer _ _ pair).2) }

variable {world wider : World} {next other later otherLater : Nat}

theorem below_le_starting {older frame : Nat} {lambdas : Pairing Nat}
    (newer : ∀ a b, lambdas a b → older ≤ a ∧ older ≤ b) :
    below older ≤ starting older lambdas newer frame other :=
  ⟨fun _ _ pair => pair, fun _ _ pair => .inl pair⟩

theorem fits_starting {older frame otherFrame : Nat} {lambdas : Pairing Nat}
    (newer : ∀ a b, lambdas a b → older ≤ a ∧ older ≤ b) (enough : older ≤ next)
    (otherEnough : older ≤ other) (frameBound : frame < next) (otherBound : otherFrame < other) :
    (starting older lambdas newer frame otherFrame).Fits next other where
  identities := by
    rintro a b ⟨rfl, bound⟩
    omega
  functions := by
    rintro a b (⟨rfl, bound⟩ | ⟨-, rfl, rfl⟩)
    · omega
    · exact ⟨frameBound, otherBound⟩

theorem Fits.mono (fits : world.Fits next other) (less : next ≤ later)
    (otherLess : other ≤ otherLater) : world.Fits later otherLater where
  identities a b pair := by
    have bounds := fits.identities a b pair
    omega
  functions a b pair := by
    have bounds := fits.functions a b pair
    omega

/-- Two lists, maps or objects that are made at the same time correspond from then on. -/
theorem Fits.draw (fits : world.Fits next other) :
    ∃ wider, world ≤ wider ∧ wider.Fits (next + 1) (other + 1) ∧ wider.identities next other := by
  have apart : world.identities.Apart (.single next other) := by
    constructor
    · rintro a b c pair ⟨rfl, rfl⟩
      exact absurd (fits.identities _ _ pair).1 (Nat.lt_irrefl _)
    · rintro a b c pair ⟨rfl, rfl⟩
      exact absurd (fits.identities _ _ pair).2 (Nat.lt_irrefl _)
  refine ⟨{ world with identities := world.identities.union _ apart }, ?_, ?_, .inr ⟨rfl, rfl⟩⟩
  · exact ⟨fun _ _ pair => .inl pair, fun _ _ pair => pair⟩
  · have further := fits.mono (Nat.le_succ next) (Nat.le_succ other)
    refine ⟨?_, further.functions⟩
    rintro a b (pair | ⟨rfl, rfl⟩)
    · exact further.identities a b pair
    · omega

/-- The functions that lambdas make in the frames of two calls correspond as the lambdas do. -/
theorem Fits.enter (fits : world.Fits next other) (lambdas : Pairing Nat) :
    ∃ wider, world ≤ wider ∧ wider.Fits (next + 1) (other + 1) ∧
      ∀ a b, lambdas a b → wider.functions (a, next) (b, other) := by
  have apart : world.functions.Apart (lambdas.mark next other) := by
    constructor
    · rintro a b c pair ⟨-, rfl, -⟩
      exact absurd (fits.functions _ _ pair).1 (Nat.lt_irrefl _)
    · rintro a b c pair ⟨-, -, rfl⟩
      exact absurd (fits.functions _ _ pair).2 (Nat.lt_irrefl _)
  refine ⟨{ world with functions := world.functions.union _ apart }, ?_, ?_, ?_⟩
  · exact ⟨fun _ _ pair => pair, fun _ _ pair => .inl pair⟩
  · have further := fits.mono (Nat.le_succ next) (Nat.le_succ other)
    refine ⟨further.identities, ?_⟩
    rintro a b (pair | ⟨-, rfl, rfl⟩)
    · exact further.functions a b pair
    · omega
  · exact fun a b pair => .inr ⟨pair, rfl, rfl⟩

end World

end ExprLang
