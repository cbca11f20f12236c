import ShaderLang.Table
/-!
# Variations

Parameters that a shader is compiled for several values of, and the list of all their
combinations.

## Main definitions

* `VariationParam` — a parameter, boolean or with a list of values
* `Variation` — one combination
* `Variation.expand` — all combinations
* `Variation.defines` — the defines under which a combination is compiled
-/

namespace ShaderLang

/-- A value that a parameter can have, with the name that tools show. -/
structure VariationValue where
  name : String
  value : Int
  deriving DecidableEq, Inhabited

/-- A parameter. One without values is boolean. -/
structure VariationParam where
  identifier : String
  /-- The name that tools show. -/
  name : String
  /-- Tools do not show the parameter. -/
  internal : Bool
  values : List VariationValue
  deriving DecidableEq, Inhabited

/-- One combination: the parameters that are set, by name. A boolean parameter is set to one or
not at all. -/
abbrev Variation := Table Int

namespace Variation

/-- The choices of the parameter that is looked at first. -/
def first (p : VariationParam) : List Variation :=
  if p.values.isEmpty then [.empty, Table.empty.insert p.identifier 1]
  else p.values.map fun v => Table.empty.insert p.identifier v.value

/-- Combines a list with the choices of a further parameter. The list comes first with one choice
set, the others behind it. -/
def multiply (vs : List Variation) (p : VariationParam) : List Variation :=
  match p.values with
  | [] => vs.map (·.insert p.identifier 1) ++ vs
  | choice :: others =>
    vs.map (·.insert p.identifier choice.value) ++
      vs.flatMap fun v => others.map fun other => v.insert p.identifier other.value

/-- All combinations, from the last parameter to the first. -/
def expand (params : List VariationParam) : List Variation :=
  match params.reverse with
  | [] => [.empty]
  | p :: ps => ps.foldl multiply (first p)

/-- The defines of a combination, over others. -/
def defines (v : Variation) (base : Table String) : Table String :=
  v.entries.foldl (fun t e => t.insert e.1 (toString e.2)) base

end Variation
end ShaderLang
