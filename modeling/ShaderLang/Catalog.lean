import ShaderLang.Document
import ShaderLang.Render.State
import ShaderLang.Variation
/-!
# Catalogs

What a description declares: its options, its shaders and mixins, and its sub-shaders. Mixins may
be used before they are declared. A shader inherits from the mixins it names, from those they name,
and so on, each once.

## Main definitions

* `Declaration` — a shader or a mixin
* `Catalog.ofDocument` — the declarations of a description
* `Declaration.findMixin?` — the mixin that a name means
* `Declaration.inherit` — what a shader gathers from the mixins it inherits from, in order
* `Declaration.populate` — the shaders with all the parameters they inherit
-/

namespace ShaderLang

/-- How a shader takes part in the rendering queue. -/
structure ShaderOptions where
  separable : Bool
  sort : QueueSortType
  priority : Int
  transparent : Bool
  forward : Bool
  deriving DecidableEq

def ShaderOptions.standard : ShaderOptions := ⟨false, .none, 0, false, false⟩

instance : Inhabited ShaderOptions := ⟨.standard⟩

/-- A setting of the options. -/
def ShaderOptions.set (o : ShaderOptions) (s : Setting Tree) : ShaderOptions :=
  match s.kind, s.value with
  | .separable, v => { o with separable := v.bool?.getD false }
  | .sort, .leaf (.cullAndQueue m) => { o with sort := .ofCullAndQueue m }
  | .priority, v => { o with priority := v.int?.getD 0 }
  | .transparent, v => { o with transparent := v.bool?.getD false }
  | .forward, v => { o with forward := v.bool?.getD false }
  | _, _ => o

/-- A shader or a mixin. -/
structure Declaration where
  body : Tree
  name : String
  /-- The mixins it names, in order. -/
  includes : List String
  isMixin : Bool
  language : String
  tags : List String
  variations : List VariationParam
  deriving Inhabited

/-- A sub-shader: its extension point and the number of its captured text. -/
structure SubShaderSlot where
  name : String
  block : Int
  deriving DecidableEq, Inhabited

/-- What a description declares. -/
structure Catalog where
  options : ShaderOptions
  declarations : List Declaration
  subShaders : List SubShaderSlot
  deriving Inhabited

/-! ## Reading a tree -/

/-- The nested blocks of one kind of setting, as written. -/
def Tree.nested (t : Tree) (kind : SettingKind) : List Tree :=
  (t.declared.filter (·.kind = kind)).filterMap fun s => s.value.node?

/-- The attributes of a block. -/
def Tree.attributes (t : Tree) : List (Setting Tree) :=
  (t.nested .attributes).flatMap Tree.declared

/-- The last name that the attributes of a block give. -/
def Tree.shownName? (t : Tree) : Option String :=
  ((t.attributes.filter (·.kind = .attrName)).getLast?).bind fun s => s.value.str?

/-- The attributes of a block ask to show it. -/
def Tree.isShown (t : Tree) : Bool := t.attributes.any (·.kind = .attrShow)

/-- A value of a parameter. -/
def VariationValue.ofTree (t : Tree) : VariationValue :=
  ⟨t.shownName?.getD "", ((t.find? .variationValue).bind Value.int?).getD 0⟩

/-- A parameter; it must have a name. -/
def VariationParam.ofTree? (t : Tree) : Option VariationParam :=
  (t.identifier?.filter (!·.isEmpty)).map fun identifier =>
    ⟨identifier, t.shownName?.getD "", !t.isShown,
      (t.nested .variationOption).map VariationValue.ofTree⟩

/-- A shader or a mixin. -/
def Declaration.ofTree (t : Tree) : Declaration where
  body := t
  name := t.identifier?.getD ""
  includes := (t.declared.filter (·.kind = .included)).filterMap fun s => s.value.str?
  isMixin := t.kind = .mixin
  language := "hlsl"
  tags := (t.nested .tags).flatMap fun tags =>
    (tags.declared.filter (·.kind = .tagValue)).filterMap fun s => s.value.str?
  variations := (t.nested .variations).flatMap fun variations =>
    (variations.declared.filterMap fun s => s.value.node?).filterMap VariationParam.ofTree?

/-- A sub-shader. -/
def SubShaderSlot.ofTree (t : Tree) : SubShaderSlot :=
  ⟨t.identifier?.getD "", ((t.find? .index).bind Value.int?).getD 0⟩

namespace Catalog

/-- The shaders and mixins of a root, as written. -/
def bodies (root : Tree) : List Tree :=
  (root.declared.filter fun s => s.kind = .shader || s.kind = .mixin).filterMap
    fun s => s.value.node?

/-- The declarations of a description. -/
def ofDocument (d : Document) : Catalog where
  options := (d.root.nested .options).foldl
    (fun o block => block.declared.foldl ShaderOptions.set o) .standard
  declarations := (bodies d.root).map Declaration.ofTree
  subShaders := (d.root.nested .subShader).map SubShaderSlot.ofTree

end Catalog

/-! ## Inheritance -/

/-- The language that goes with every other. -/
def anyLanguage : String := "Any"

namespace Declaration

/-- A declaration is a mixin of the name, for the language or for any. -/
def provides (d : Declaration) (name language : String) : Bool :=
  d.isMixin && d.name == name && (d.language == language || d.language == anyLanguage)

/-- The position of the last mixin that provides a name for a language. -/
def findMixin? (ds : List Declaration) (name language : String) : Option Nat :=
  let n := ds.length
  (ds.reverse.findIdx? (·.provides name language)).map fun i => n - 1 - i

/-- What a walk over mixins has met, and what it has gathered from those it has finished. -/
structure Walk (σ : Type) where
  visited : List Nat
  gathered : σ

/-- The most names of mixins that stand in one declaration. -/
def mostIncludes (ds : List Declaration) : Nat :=
  ds.foldr (fun d most => max d.includes.length most) 0

theorem length_includes_le (ds : List Declaration) (i : Nat) :
    (ds[i]?.getD default).includes.length ≤ mostIncludes ds := by
  induction ds generalizing i with
  | nil => exact Nat.le_refl 0
  | cons d ds ih =>
    cases i with
    | zero => exact Nat.le_max_left ..
    | succ i => exact Nat.le_trans (ih i) (Nat.le_max_right ..)

section

variable {σ : Type}

/-- Walks over the mixins that the names mean: each not yet met is met, then all it names itself,
and then it is finished, and what it holds is gathered. The names are looked up for `language`. A
walk that goes deeper than there are declarations would meet one twice, so `depth` never runs
out. -/
def walk (ds : List Declaration) (gather : σ → Declaration → σ) (depth : Nat) (language : String)
    (names : List String) (w : Walk σ) : Except String (Walk σ) :=
  match names with
  | [] => .ok w
  | name :: names =>
    match findMixin? ds name language with
    | none => .error name
    | some i =>
      if i ∈ w.visited then walk ds gather depth language names w
      else
        match depth with
        | 0 => .ok w
        | depth + 1 =>
          let mixin := ds[i]?.getD default
          match
            walk ds gather depth mixin.language mixin.includes ⟨i :: w.visited, w.gathered⟩
          with
          | .error missing => .error missing
          | .ok w' =>
            walk ds gather (depth + 1) language names ⟨w'.visited, gather w'.gathered mixin⟩
termination_by depth * (mostIncludes ds + 1) + names.length
decreasing_by
  · exact Nat.lt_succ_self _
  · have hle := length_includes_le ds i
    rw [Nat.succ_mul, List.length_cons]
    omega
  · exact Nat.lt_succ_self _

/-- What is gathered from the mixins that a declaration inherits from, each behind those it
inherits from itself. The error is the first name that no mixin provides. -/
def inherit (ds : List Declaration) (gather : σ → Declaration → σ) (start : σ) (d : Declaration) :
    Except String σ :=
  (walk ds gather ds.length d.language d.includes ⟨[], start⟩).map (·.gathered)

end

/-- A declaration with the parameters of the mixins it inherits from behind its own. -/
def inheritVariations (ds : List Declaration) (d : Declaration) : Except String Declaration :=
  (inherit ds (fun out mixin => out ++ mixin.variations) [] d).map fun out =>
    { d with variations := d.variations ++ out }

/-- All declarations, the shaders among them with the parameters they inherit. -/
def populate (ds : List Declaration) : Except String (List Declaration) :=
  ds.mapM fun d => if d.isMixin then .ok d else inheritVariations ds d

end Declaration
end ShaderLang
