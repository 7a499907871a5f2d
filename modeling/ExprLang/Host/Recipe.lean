import ExprLang.Host

/-!
# Recipes

Callbacks as data: the ways of making a value that a declaration can name instead of giving code.
-/

namespace ExprLang

/-- A way of making a value from a target and arguments. -/
inductive Recipe where
  /-- The same value every time. -/
  | constant (value : Value)
  | failure (message : String)
  | argument (position : Nat)
  | slot (position : Nat)
  /-- The slot whose number is the first argument. -/
  | slotAt
  | target
  /-- A new object of a type, whose slots are the arguments. -/
  | make (typeName : String)

namespace Recipe

/-- The slots of a target that is an object. -/
def slots : Value → Except String (List Value)
  | .object _ _ slots => .ok slots
  | _ => .error "target holds no slots"

def slotOf (target : Value) (position : Nat) : Except String Value := do
  let slots ← slots target
  match slots[position]? with
  | some value => .ok value
  | none => .error s!"no slot {position}"

/-- The slot number that the arguments of an indexer ask for. -/
def slotNumber : List Value → Except String Nat
  | .datum (.int word) :: _ =>
    if 0 ≤ word.toInt then .ok word.toNat else .error "slot number expected"
  | _ => .error "slot number expected"

def callback : Recipe → Callback
  | .constant value => fun _ _ => return value
  | .failure message => fun _ _ => throw message
  | .argument position => fun _ args =>
    match args[position]? with
    | some value => return value
    | none => throw s!"no argument {position}"
  | .slot position => fun target _ => slotOf target position
  | .slotAt => fun target args => do
    let position ← slotNumber args
    slotOf target position
  | .target => fun target _ => return target
  | .make typeName => fun _ args => modifyGet fun next => (.object next typeName args, next + 1)

end Recipe

end ExprLang
