import ExprLang.Value.Basic

/-!
# Host callbacks

The constructors and indexers of host types run code of the host. An expression refers to such code
by a key, and a host resolves the keys. Callbacks can draw identities for the objects they make.
-/

namespace ExprLang

/-- Code of a host: from a target, which is null for a constructor, and arguments to a value or the
message of a failure. -/
abbrev Callback := Value → List Value → StateT Nat (Except String) Value

structure Host where
  callbacks : List Callback := []

namespace Host

instance : Inhabited Host := ⟨{}⟩

def add (host : Host) (callback : Callback) : Nat × Host :=
  (host.callbacks.length, ⟨host.callbacks ++ [callback]⟩)

/-- The callback of a key. A key that was never given out has one that fails. -/
def callback (host : Host) (key : Nat) : Callback :=
  host.callbacks.getD key fun _ _ => throw "unknown callback"

/-- What holds of all callbacks, and of the one that fails, holds of the callback of any key. -/
theorem callback_of_forall {host : Host} (holds : Callback → Prop)
    (unknown : holds fun _ _ => throw "unknown callback")
    (all : ∀ callback ∈ host.callbacks, holds callback) (key : Nat) :
    holds (host.callback key) := by
  rw [callback, List.getD_eq_getElem?_getD]
  cases found : host.callbacks[key]? with
  | none => exact unknown
  | some callback => exact all callback (List.mem_of_getElem? found)

end Host

end ExprLang
