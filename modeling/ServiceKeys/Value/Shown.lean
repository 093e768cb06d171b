import ServiceKeys.Value.Basic
import ServiceKeys.Text.Quoted
import ServiceKeys.Text.Numeral
import ServiceKeys.Decimal.Shortest

/-!
# Values as messages show them

Texts stand between quotes, lists between brackets and tables between braces; the constants are
`None`, `True` and `False`.  A text that is a setting of its own is used as it is.
-/

namespace ServiceKeys.Value

/-- Doubles are written positionally from `0.0001` up to `10 ^ 16`. -/
def floatStyle : Decimal.FloatStyle := ⟨-4, 16⟩

mutual

/-- A value as a message shows it. -/
def shown : Value → String
  | .null => "None"
  | .bool b => if b then "True" else "False"
  | .int i => String.ofList (Text.integerDigits i)
  | .float x => floatStyle.write x
  | .text s => Text.quoted s
  | .list items => "[" ++ ", ".intercalate (shownItems items) ++ "]"
  | .table entries => "\x7b" ++ ", ".intercalate (shownEntries entries) ++ "\x7d"

/-- The items of a list as a message shows them. -/
def shownItems : List Value → List String
  | [] => []
  | v :: vs => shown v :: shownItems vs

/-- The entries of a table as a message shows them. -/
def shownEntries : List (String × Value) → List String
  | [] => []
  | (k, v) :: rest => (Text.quoted k ++ ": " ++ shown v) :: shownEntries rest

end

/-- A value used as a text: a text is itself, any other value is shown. -/
def asText : Value → String
  | .text s => s
  | v => shown v

end ServiceKeys.Value
