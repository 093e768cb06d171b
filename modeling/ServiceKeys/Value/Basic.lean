import ServiceKeys.Decimal.Binary

/-!
# Values of a configuration

A configuration document holds values of a few kinds, and a setting may hold a value of the wrong
kind, so the kinds themselves are data.  Tables keep their entries in the order in which they were
written.
-/

namespace ServiceKeys

/-- A value of a configuration document. -/
inductive Value where
  | null
  | bool (b : Bool)
  | int (i : Int)
  | float (x : Float)
  | text (s : String)
  | list (items : List Value)
  | table (entries : List (String × Value))
  deriving Repr, Inhabited

namespace Value

/-- The entry of a table under a key. -/
def find? (entries : List (String × Value)) (key : String) : Option Value := entries.lookup key

/-- The word that messages use for a value's kind. -/
def kindName : Value → String
  | .null => "NoneType"
  | .bool _ => "bool"
  | .int _ => "int"
  | .float _ => "float"
  | .text _ => "str"
  | .list _ => "list"
  | .table _ => "dict"

/-- Whether a value counts as yes. -/
def isTruthy : Value → Bool
  | .null => false
  | .bool b => b
  | .int i => i != 0
  | .float x => x != 0.0
  | .text s => s != ""
  | .list items => !items.isEmpty
  | .table entries => !entries.isEmpty

/-- The integer of a value that is one in effect. -/
def asInteger? : Value → Option Int
  | .bool b => some (if b then 1 else 0)
  | .int i => some i
  | _ => none

/-- Whether two values are the same as members of a set.  Numbers are compared by value, across
kinds, and the truth values count as one and zero.  Lists and tables are never members. -/
def sameMember : Value → Value → Bool
  | .null, .null => true
  | .text s, .text t => s == t
  | .float x, .float y => x == y
  | .float x, v => v.asInteger?.any (Decimal.parts x).isInteger
  | v, .float y => v.asInteger?.any (Decimal.parts y).isInteger
  | v, w => v.asInteger?.isSome && v.asInteger? == w.asInteger?

/-- Whether a value may be a member of a set. -/
def isMember : Value → Bool
  | .list _ => false
  | .table _ => false
  | _ => true

end Value

end ServiceKeys
