/-!
# Console.ValueType: the static types of values

The types are `void`, four scalar types, lists of a type, and `any`, which takes every value but the
void one.  They have names, which are read in any letter case, and an order for listings.
-/

namespace KeyConsole.Console

/-- The static type of a value. -/
inductive ValueType where
  | void
  | int
  | float
  | bool
  | string
  | list (element : ValueType)
  | any
  deriving DecidableEq, Repr, Inhabited

namespace ValueType

/-- The element type of a list type. -/
def element? : ValueType → Option ValueType
  | list t => some t
  | _ => none

/-- Whether a value of type `a` may stand where `b` is expected. -/
def assignable : ValueType → ValueType → Bool
  | void, b => b = void
  | list _, any => true
  | list a, list b => assignable a b
  | list _, _ => false
  | a, b => b = any || a = b

/-- The name of a type. -/
def name : ValueType → String
  | void => "void"
  | int => "int"
  | float => "float"
  | bool => "bool"
  | string => "string"
  | list t => "list<" ++ t.name ++ ">"
  | any => "any"

instance : ToString ValueType := ⟨name⟩

/-- The names of the types that are no lists. -/
def plainNames : List String := ["any", "bool", "float", "int", "string", "void"]

/-- The text between `list<` and a closing `>`. -/
def betweenListMarks? (cs : List Char) : Option (List Char) :=
  match cs with
  | 'l' :: 'i' :: 's' :: 't' :: '<' :: rest =>
    if rest.getLast? = some '>' then some rest.dropLast else none
  | _ => none

/-- A type by its name in small letters; a list of void is none.  The first argument bounds the nesting. -/
def ofSmallLetters? : Nat → List Char → Option ValueType
  | 0, _ => none
  | depth + 1, cs =>
    if cs = "void".toList then some void
    else if cs = "int".toList || cs = "i64".toList then some int
    else if cs = "float".toList || cs = "f64".toList then some float
    else if cs = "bool".toList then some bool
    else if cs = "string".toList || cs = "str".toList then some string
    else if cs = "any".toList then some any
    else
      match (betweenListMarks? cs).bind (ofSmallLetters? depth) with
      | none => none
      | some void => none
      | some t => some (list t)

/-- A type by its name in any ASCII letter case. -/
def ofName? (name : String) : Option ValueType :=
  let cs := name.toList.map Char.toLower
  ofSmallLetters? (cs.length + 1) cs

/-- The message for a text that names no type. -/
def unknownNameMessage (name : String) : String := "unknown type '" ++ name ++ "'"

/-- The place of a type's kind in listings. -/
def rank : ValueType → Nat
  | void => 0
  | int => 1
  | float => 2
  | bool => 3
  | string => 4
  | list _ => 5
  | any => 6

/-- The order of listings: by kind, lists by their elements. -/
def order : ValueType → ValueType → Ordering
  | list a, list b => order a b
  | a, b => compare a.rank b.rank

/-- Whether `a` may stand before `b` in a listing. -/
def le (a b : ValueType) : Bool := (order a b).isLE

end ValueType

end KeyConsole.Console
