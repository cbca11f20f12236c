import Mathlib.Data.List.Basic
import ShaderLang.Tree.Node
/-!
# Trees held by arenas

An arena holds a tree at a number if following the numbers from there, and reading the settings of
every block as they are declared, gives that tree. At one number it holds at most one tree. A tree
that has been laid out is held.

## Main definitions

* `Arena.Holds` — the tree at a number of an arena
* `Arena.Extends` — an arena with further blocks

## Main results

* `Arena.Holds.unique` — there is at most one tree at a number
* `Arena.holds_ofTree` — the arena of a tree holds it
-/

namespace ShaderLang
namespace Arena

mutual

/-- The tree at a number of an arena, read in the order of declaration. -/
inductive Holds (a : Arena) : Nat → Tree → Prop
  | node {id : Nat} {e : Entry Nat} {t : Tree} (h : a.get? id = some e) (hkind : e.kind = t.kind)
      (hs : HoldsAll a e.declared t.declared) : Holds a id t

/-- The settings with numbers of blocks stand for those with the blocks themselves. -/
inductive HoldsAll (a : Arena) : List (Setting Nat) → List (Setting Tree) → Prop
  | nil : HoldsAll a [] []
  | leaf {kind : SettingKind} {l : Leaf} {ss : List (Setting Nat)} {us : List (Setting Tree)}
      (hs : HoldsAll a ss us) : HoldsAll a (⟨kind, .leaf l⟩ :: ss) (⟨kind, .leaf l⟩ :: us)
  | node {kind : SettingKind} {id : Nat} {t : Tree} {ss : List (Setting Nat)}
      {us : List (Setting Tree)} (h : Holds a id t) (hs : HoldsAll a ss us) :
      HoldsAll a (⟨kind, .node id⟩ :: ss) (⟨kind, .node t⟩ :: us)

end

mutual

/-- An arena holds at most one tree at a number. -/
theorem Holds.unique {a : Arena} {id : Nat} {t u : Tree} : a.Holds id t → a.Holds id u → t = u
  | .node ht hkt hst, .node hu hku hsu => by
    have hdeclared : ∀ us, a.HoldsAll _ us → t.declared = us := fun _ h => hst.unique h
    obtain rfl := Option.some.inj (ht.symm.trans hu)
    have hreverse := hdeclared _ hsu
    obtain ⟨⟨kind, ss⟩⟩ := t
    obtain ⟨⟨kind', us⟩⟩ := u
    obtain rfl : kind = kind' := hkt.symm.trans hku
    obtain rfl : ss = us := List.reverse_injective hreverse
    rfl

theorem HoldsAll.unique {a : Arena} {ss : List (Setting Nat)} {us vs : List (Setting Tree)} :
    a.HoldsAll ss us → a.HoldsAll ss vs → us = vs
  | .nil, .nil => rfl
  | .leaf hu, .leaf hv => congrArg _ (hu.unique hv)
  | .node ht hu, .node ht' hv => by rw [ht.unique ht', hu.unique hv]

end

/-- An arena with further blocks behind those of another. -/
def Extends (a b : Arena) : Prop := ∀ id e, a.get? id = some e → b.get? id = some e

theorem Extends.refl (a : Arena) : a.Extends a := fun _ _ h => h

theorem Extends.trans {a b c : Arena} (hab : a.Extends b) (hbc : b.Extends c) : a.Extends c :=
  fun id e h => hbc id e (hab id e h)

theorem extends_alloc (a : Arena) (e : Entry Nat) : a.Extends (a.alloc e).2 := by
  intro id d h
  obtain ⟨hlt, -⟩ := Array.getElem?_eq_some_iff.1 h
  have hne : id ≠ a.nodes.size := Nat.ne_of_lt hlt
  simpa [get?, alloc, Array.getElem?_push, hne] using h

theorem get?_alloc (a : Arena) (e : Entry Nat) : (a.alloc e).2.get? a.size = some e := by
  simp [get?, alloc, size]

mutual

theorem extends_layOut : ∀ (t : Tree) (a : Arena), a.Extends (layOut t a).2
  | .node ⟨_, settings⟩, a => by
    rw [layOut]
    exact (extends_layOutAll settings a).trans (extends_alloc _ _)

theorem extends_layOutAll :
    ∀ (ss : List (Setting Tree)) (a : Arena), a.Extends (layOutAll ss a).2
  | [], a => .refl a
  | ⟨_, .leaf _⟩ :: ss, a => by
    rw [layOutAll]
    exact extends_layOutAll ss a
  | ⟨_, .node t⟩ :: ss, a => by
    rw [layOutAll]
    exact (extends_layOutAll ss a).trans (extends_layOut t _)

end

mutual

theorem Holds.mono {a b : Arena} (hab : a.Extends b) {id : Nat} {t : Tree} :
    a.Holds id t → b.Holds id t
  | .node h hkind hs => .node (hab _ _ h) hkind (hs.mono hab)

theorem HoldsAll.mono {a b : Arena} (hab : a.Extends b) {ss : List (Setting Nat)}
    {us : List (Setting Tree)} : a.HoldsAll ss us → b.HoldsAll ss us
  | .nil => .nil
  | .leaf hs => .leaf (hs.mono hab)
  | .node h hs => .node (h.mono hab) (hs.mono hab)

end

theorem HoldsAll.append {a : Arena} {ss ss' : List (Setting Nat)} {us us' : List (Setting Tree)}
    (hs : a.HoldsAll ss us) (hs' : a.HoldsAll ss' us') : a.HoldsAll (ss ++ ss') (us ++ us') := by
  match hs with
  | .nil => exact hs'
  | .leaf hs => exact .leaf (hs.append hs')
  | .node h hs => exact .node h (hs.append hs')

theorem HoldsAll.reverse {a : Arena} {ss : List (Setting Nat)} {us : List (Setting Tree)}
    (hs : a.HoldsAll ss us) : a.HoldsAll ss.reverse us.reverse := by
  match hs with
  | .nil => exact .nil
  | .leaf hs =>
    rw [List.reverse_cons, List.reverse_cons]
    exact hs.reverse.append (.leaf .nil)
  | .node h hs =>
    rw [List.reverse_cons, List.reverse_cons]
    exact hs.reverse.append (.node h .nil)

mutual

/-- A tree that is laid out is held at the number of its root. -/
theorem holds_layOut : ∀ (t : Tree) (a : Arena), (layOut t a).2.Holds (layOut t a).1 t
  | .node ⟨kind, settings⟩, a => by
    have hsettings := (holdsAll_layOutAll settings a).mono
      (extends_alloc _ ⟨kind, (layOutAll settings a).1⟩)
    rw [layOut]
    exact .node (get?_alloc ..) rfl hsettings.reverse

theorem holdsAll_layOutAll :
    ∀ (ss : List (Setting Tree)) (a : Arena), (layOutAll ss a).2.HoldsAll (layOutAll ss a).1 ss
  | [], a => .nil
  | ⟨_, .leaf _⟩ :: ss, a => by
    rw [layOutAll]
    exact .leaf (holdsAll_layOutAll ss a)
  | ⟨_, .node t⟩ :: ss, a => by
    rw [layOutAll]
    exact .node (holds_layOut t _) ((holdsAll_layOutAll ss a).mono (extends_layOut t _))

end

theorem holds_ofTree (t : Tree) : (ofTree t).2.Holds (ofTree t).1 t := holds_layOut t empty

theorem size_ofTree (t : Tree) : (ofTree t).2.size = t.size := by
  rw [ofTree, size_layOut]
  exact Nat.zero_add _

end Arena
end ShaderLang
