import ShaderLang.Table
import ShaderLang.Tree.Grammar
/-!
# Documents

A shader description that has been read: its tree, the blocks captured in it and the files that
were included.

## Main definitions

* `Document` — a description
* `Document.read` — reads a source under defines
-/

namespace ShaderLang

/-- A shader description. -/
structure Document where
  root : Tree
  blocks : List CodeBlock
  /-- The files entered, each once. -/
  includes : List String

/-- The defines of a table, in the order of their names. -/
def Defines.ofTable (t : Table String) : Defines :=
  t.entries.foldl (fun ds e => ds.define e.1 (some e.2)) []

namespace Document

/-- The captured text of a block. -/
def code? (d : Document) (kind : BlockKind) (index : Int) : Option String :=
  (d.blocks.find? fun b => b.kind == kind && (b.index : Int) == index).map (·.text)

/-- Reads a source under defines. -/
def read (source : String) (defines : Table String) (includes : Includes) :
    Except Fault Document :=
  match (Scan.fresh (.ofTable defines)).process includes source [] with
  | .error failure => .error failure.fault
  | .ok (_, s) =>
    (Tree.ofTokens s.tokens).map fun root => ⟨root, s.journal.blocks, s.journal.files⟩

end Document
end ShaderLang
