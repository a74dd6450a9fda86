import Mathlib.Algebra.Order.Field.Rat
import Mathlib.Data.List.Basic

/-! JSON values and the accesses that throw. A failed access is `none`, as is a text that
the parser refuses; the parser itself is a parameter of whoever reads a text. -/
namespace QuantForge.Library

inductive Json where
  | null
  | bool (value : Bool)
  | number (value : ℚ)
  | string (value : List Char)
  | array (items : List Json)
  | object (members : List (List Char × Json))

namespace Json

/-- `j.at(key)` -/
def atKey (key : List Char) : Json → Option Json
  | .object members => members.lookup key
  | _ => none

/-- `j.at(index)` -/
def atIndex (index : Nat) : Json → Option Json
  | .array items => items[index]?
  | _ => none

/-- `j.get<std::string>()` -/
def getString : Json → Option (List Char)
  | .string value => some value
  | _ => none

def strings (values : List (List Char)) : Json := .array (values.map .string)

@[simp] theorem atIndex_strings (values : List (List Char)) (index : Nat) :
    ((strings values).atIndex index).bind getString = values[index]? := by
  change ((values.map Json.string)[index]?).bind getString = _
  rw [List.getElem?_map]
  cases values[index]? <;> rfl

end Json

end QuantForge.Library
