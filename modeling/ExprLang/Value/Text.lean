import ExprLang.Value.Basic

/-!
# Text of values

Two text forms of a value: plain, with strings and characters bare, and quoted, with quotes around
them. Nothing is escaped in either.
-/

namespace ExprLang.Value

mutual

/-- The text of a value; `leaf` writes the data in it. -/
def render (leaf : Datum → String) : Value → String
  | .datum d => leaf d
  | .list _ _ items => "[" ++ renderItems leaf items ++ "]"
  | .map _ _ _ entries => "\x7b" ++ renderEntries leaf entries ++ "\x7d"
  | .function closure => s!"<lambda {closure.ty.render}>"
  | .object _ typeName _ => s!"<{typeName}>"

def renderItems (leaf : Datum → String) : List Value → String
  | [] => ""
  | [item] => render leaf item
  | item :: rest => render leaf item ++ ", " ++ renderItems leaf rest

def renderEntries (leaf : Datum → String) : List (Value × Value) → String
  | [] => ""
  | [(key, value)] => render leaf key ++ ": " ++ render leaf value
  | (key, value) :: rest =>
    render leaf key ++ ": " ++ render leaf value ++ ", " ++ renderEntries leaf rest

end

def text (value : Value) : String :=
  value.render Datum.text

def quoted (value : Value) : String :=
  value.render Datum.quoted

end ExprLang.Value
