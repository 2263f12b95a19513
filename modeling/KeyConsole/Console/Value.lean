import KeyConsole.Console.ValueType
import KeyConsole.Decimal.FloatText
import KeyConsole.Decimal.IntText
import KeyConsole.Text.Quoted

/-!
# Console.Value: what flows through a pipeline

A value is void, a scalar or a list.  Its type is computed from it: a list has the common type of its
items as element type, `any` if they differ or there are none.
-/

namespace KeyConsole.Console

/-- A value. -/
inductive Value where
  | void
  | int (n : Int64)
  | float (x : Float)
  | bool (b : Bool)
  | string (s : String)
  | list (items : List Value)
  deriving Inhabited

namespace Value

mutual

/-- The type of a value. -/
def type : Value → ValueType
  | void => .void
  | int _ => .int
  | float _ => .float
  | bool _ => .bool
  | string _ => .string
  | list [] => .list .any
  | list (v :: rest) => .list (if allOf v.type rest then v.type else .any)

/-- Whether all values of a list have a type. -/
def allOf (t : ValueType) : List Value → Bool
  | [] => true
  | v :: rest => if v.type = t then allOf t rest else false

end

theorem allOf_eq_true {t : ValueType} {items : List Value} :
    allOf t items = true ↔ ∀ v ∈ items, v.type = t := by
  induction items with
  | nil => simp [allOf]
  | cons v rest ih => by_cases h : v.type = t <;> simp [allOf, h, ih]

/-- Whether the value is the void one. -/
def isVoid : Value → Bool
  | void => true
  | _ => false

/-- The integer of an integer value. -/
def int? : Value → Option Int64
  | int n => some n
  | _ => none

/-- The number of a float value. -/
def float? : Value → Option Float
  | float x => some x
  | _ => none

/-- The truth value of a Boolean value. -/
def bool? : Value → Option Bool
  | bool b => some b
  | _ => none

/-- The text of a string value. -/
def string? : Value → Option String
  | string s => some s
  | _ => none

/-- The items of a list value. -/
def list? : Value → Option (List Value)
  | list items => some items
  | _ => none

mutual

/-- A value as text; `inside` says that it stands inside a list, where texts are quoted. -/
def write (inside : Bool) : Value → String
  | void => ""
  | int n => Decimal.intText n.toInt
  | float x => Decimal.floatText x
  | bool b => if b then "true" else "false"
  | string s => if inside then Text.quoted s else s
  | list items => writeItems "[" items ++ "]"

/-- A text followed by the items of a list, separated by commas. -/
def writeItems (text : String) : List Value → String
  | [] => text
  | [v] => text ++ write true v
  | v :: w :: rest => writeItems (text ++ write true v ++ ", ") (w :: rest)

end

/-- A value as text.  Texts inside a list are quoted; a text by itself is not. -/
def toText (v : Value) : String := v.write false

end Value

end KeyConsole.Console
