import ChangeWatch.Value.Basic
import ChangeWatch.Number.Layout

/-!
The text that a value shows when it is joined to a string, used as a key or interpolated.
-/
namespace ChangeWatch.Value

def displayFloat (x : Float) : String :=
  if x.isNaN then "NaN"
  else if x.isInf then (if 0.0 < x then "Infinity" else "-Infinity")
  else Layout.plain.render x

mutual
def display : Value → String
  | null => "null"
  | bool b => if b then "true" else "false"
  | int n => toString n.toInt
  | float x => displayFloat x
  | str s => s
  | list _ items => ",".intercalate (displayItems items)
  | map _ entries => "\x7b" ++ ", ".intercalate (displayEntries entries) ++ "\x7d"
  | object ref => "[object " ++ ref.typeName ++ "]"
  | function _ => "function"

def displayItems : List Value → List String
  | [] => []
  | item :: items => display item :: displayItems items

def displayEntries : List (String × Value) → List String
  | [] => []
  | (name, value) :: entries => (name ++ ": " ++ display value) :: displayEntries entries
end

end ChangeWatch.Value
