import CachedViews.Registry.TypeDecl

/-!
Ready-made calculations for calculated properties. `first` below is the value at the
first dependency path.
-/
namespace CachedViews

inductive Calculation where
  /-- The first value. -/
  | first
  /-- An object of all values by path. -/
  | inputs
  /-- The entity's own properties. -/
  | own
  /-- How many values are not null. -/
  | count
  /-- The entity's name and the first value in brackets. -/
  | title
  deriving DecidableEq

namespace Calculation

def textOrMark (value : Option Json) : String := (value >>= Json.text?).getD "?"

def isNull : Json → Bool
  | .null => true
  | _ => false

def compute (calculation : Calculation) (dependsOn : List String) (own : Properties)
    (inputs : CalculatedInputs) : Json :=
  let first := inputs.get? (dependsOn.headD "")
  match calculation with
  | .first => first.getD .null
  | .inputs => .ofProperties inputs
  | .own => .ofProperties own
  | .count => .ofNat (inputs.values.filter fun value => !isNull value).length
  | .title => .string (textOrMark (own.get? "name") ++ " (" ++ textOrMark first ++ ")")

def field (calculation : Calculation) (name : String) (dependsOn : List String) : CalculatedField :=
  ⟨name, dependsOn, calculation.compute dependsOn⟩

end Calculation

end CachedViews
