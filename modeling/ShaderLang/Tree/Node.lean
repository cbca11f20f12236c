import ShaderLang.Tree.Value
/-!
# Trees and arenas

The blocks of a source as a tree, and the same blocks in a row. In an arena a block refers to its
children by number. A tree is laid out with every block behind its children, and the children in
the order in which they are written.

## Main definitions

* `Tree` — a block that holds its children
* `Arena` — blocks in a row
* `Arena.layOut` — the row of a tree
* `Tree.size` — the number of blocks of a tree

## Main results

* `Arena.size_layOut`, `Arena.fst_layOut` — a tree adds its size, and its root comes last
-/

namespace ShaderLang

/-- A block that holds its children. -/
inductive Tree
  | node (entry : Entry Tree)

namespace Tree

/-- The kind and the settings of a block. -/
def entry : Tree → Entry Tree
  | node e => e

def kind (t : Tree) : NodeKind := t.entry.kind

def declared (t : Tree) : List (Setting Tree) := t.entry.declared

def find? (t : Tree) (kind : SettingKind) : Option (Value Tree) := t.entry.find? kind

def identifier? (t : Tree) : Option String := t.entry.identifier?

instance : Inhabited Tree := ⟨node ⟨.root, []⟩⟩

end Tree

mutual

/-- The number of blocks of a tree. -/
def Tree.size : Tree → Nat
  | .node ⟨_, settings⟩ => Tree.sizes settings + 1

/-- The number of blocks under settings. -/
def Tree.sizes : List (Setting Tree) → Nat
  | [] => 0
  | ⟨_, .leaf _⟩ :: ss => Tree.sizes ss
  | ⟨_, .node t⟩ :: ss => Tree.sizes ss + t.size

end

/-- Blocks in a row. -/
structure Arena where
  nodes : Array (Entry Nat)
  deriving Inhabited

namespace Arena

/-- The arena without blocks. -/
def empty : Arena := ⟨#[]⟩

def size (a : Arena) : Nat := a.nodes.size

/-- Adds a block; its number is that of the blocks before it. -/
def alloc (a : Arena) (e : Entry Nat) : Nat × Arena := (a.size, ⟨a.nodes.push e⟩)

/-- The block of a number. -/
def get? (a : Arena) (id : Nat) : Option (Entry Nat) := a.nodes[id]?

/-- Adds a setting to a block; it counts as the first one written. -/
def addSetting (a : Arena) (id : Nat) (s : Setting Nat) : Arena :=
  ⟨a.nodes.modify id fun e => { e with settings := e.settings ++ [s] }⟩

/-- The children of a block with the kinds of their settings, as stored. -/
def children (a : Arena) (id : Nat) : List (SettingKind × Entry Nat) :=
  ((a.get? id).map Entry.children).getD [] |>.filterMap fun c => (a.get? c.2).map (c.1, ·)

mutual

/-- Lays out a tree behind the blocks that are there, and gives the number of its root. -/
def layOut : Tree → Arena → Nat × Arena
  | .node ⟨kind, settings⟩, a =>
    (layOutAll settings a).2.alloc ⟨kind, (layOutAll settings a).1⟩

/-- Lays out the blocks under settings; what is stored last was written first. -/
def layOutAll : List (Setting Tree) → Arena → List (Setting Nat) × Arena
  | [], a => ([], a)
  | ⟨kind, .leaf l⟩ :: ss, a =>
    let rest := layOutAll ss a
    (⟨kind, .leaf l⟩ :: rest.1, rest.2)
  | ⟨kind, .node t⟩ :: ss, a =>
    let rest := layOutAll ss a
    let child := layOut t rest.2
    (⟨kind, .node child.1⟩ :: rest.1, child.2)

end

/-- The arena of a tree and the number of its root. -/
def ofTree (t : Tree) : Nat × Arena := layOut t empty

@[simp] theorem size_alloc (a : Arena) (e : Entry Nat) : (a.alloc e).2.size = a.size + 1 := by
  simp [alloc, size]

@[simp] theorem fst_alloc (a : Arena) (e : Entry Nat) : (a.alloc e).1 = a.size := rfl

mutual

/-- A tree adds as many blocks as it has. -/
theorem size_layOut : ∀ (t : Tree) (a : Arena), (layOut t a).2.size = a.size + t.size
  | .node ⟨kind, settings⟩, a => by
    simp only [layOut, size_alloc, size_layOutAll settings a, Tree.size]
    omega

theorem size_layOutAll :
    ∀ (ss : List (Setting Tree)) (a : Arena), (layOutAll ss a).2.size = a.size + Tree.sizes ss
  | [], a => by simp [layOutAll, Tree.sizes]
  | ⟨_, .leaf _⟩ :: ss, a => by simp [layOutAll, Tree.sizes, size_layOutAll ss a]
  | ⟨_, .node t⟩ :: ss, a => by
    simp only [layOutAll, Tree.sizes, size_layOut t, size_layOutAll ss a]
    omega

end

/-- The root of a tree comes last. -/
theorem fst_layOut (t : Tree) (a : Arena) : (layOut t a).1 + 1 = a.size + t.size := by
  obtain ⟨⟨kind, settings⟩⟩ := t
  simp only [layOut, fst_alloc, size_layOutAll settings a, Tree.size]
  omega

end Arena
end ShaderLang
