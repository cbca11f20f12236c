import Mathlib.Algebra.Group.Nat.Defs
import Mathlib.Data.Int.Order.Basic
import Mathlib.Data.List.Forall2
import Mathlib.Data.List.Monad
import ShaderLang.Document
import ShaderLang.Proofs.Grammar.Heading
/-!
# Captured texts of documents

The blocks for captured texts of a document are those that are read from headings. They carry the
numbers of their texts among those of their kind, and each number finds the text that stands behind
its own heading.

## Main definitions

* `Arena.captured`, `Arena.capturedAs` — the blocks for captured texts, and for those of one kind
* `Document.Owns` — the text of a block
* `Document.TextsOwned` — the captured texts of a document belong to its blocks

## Main results

* `Document.read_eq_ok_iff` — what a document is read from
* `Document.owns_of_logged` — the blocks for captured texts are those of the texts, in their order
* `Document.textsOwned_of_read` — in a document that is read, captured texts belong to its blocks
-/

namespace ShaderLang

open Scan (Leads Logged Point Taken)

namespace Arena

/-- The blocks for captured texts, in the order in which they were added. -/
def captured (a : Arena) : List (Entry Nat) :=
  a.nodes.toList.filter (·.kind.captured?.isSome)

/-- The blocks for captured texts of a kind, in the order in which they were added. -/
def capturedAs (a : Arena) (kind : BlockKind) : List (Entry Nat) :=
  a.nodes.toList.filter (·.kind.captured? = some kind)

theorem capturedAs_eq_filter (a : Arena) (kind : BlockKind) :
    a.capturedAs kind = a.captured.filter (·.kind.captured? = some kind) := by
  rw [capturedAs, captured, List.filter_filter]
  refine List.filter_congr fun e _ => ?_
  cases e.kind.captured? <;> simp

end Arena

namespace Document

/-- A document is read from the tokens and the blocks of a source. -/
theorem read_eq_ok_iff {source : String} {defines : Table String} {includes : Includes}
    {d : Document} :
    Document.read source defines includes = .ok d ↔
      ∃ frames s root, (Scan.fresh (.ofTable defines)).process includes source [] =
          .ok (frames, s) ∧
        Tree.ofTokens s.tokens = .ok root ∧ d = ⟨root, s.journal.blocks, s.journal.files⟩ := by
  rw [Document.read]
  cases hprocess : (Scan.fresh (.ofTable defines)).process includes source [] with
  | error failure => simp
  | ok r =>
    obtain ⟨frames, s⟩ := r
    simp only [Outcome.map_eq_ok_iff]
    constructor
    · rintro ⟨root, hroot, rfl⟩
      exact ⟨frames, s, root, rfl, hroot, rfl⟩
    · rintro ⟨frames', s', root, heq, hroot, rfl⟩
      cases heq
      exact ⟨root, hroot, rfl⟩

/-- The blocks of a document in a row. -/
def arena (d : Document) : Arena := (Arena.ofTree d.root).2

/-- The tokens in front of a captured text end with the heading of its block. -/
inductive HeadedBy : BlockKind → Entry Nat → List PlacedToken → Prop
  | code {e : Entry Nat} {before : List PlacedToken} {t : PlacedToken}
      (ht : t.token = .keyword .code) : HeadedBy .code e (before ++ [t])
  | subShader {e : Entry Nat} {before : List PlacedToken} {t u : PlacedToken} {name : String}
      (ht : t.token = .keyword .subShader) (hu : u.token = .identifier name)
      (hname : e.find? .identifier = some (.leaf (.str name))) :
      HeadedBy .subShader e (before ++ [t, u])

/-- The text of a block of a document that is read from a row of tokens. -/
structure Owns (d : Document) (includes : Includes) (start : Point) (ts : List PlacedToken)
    (e : Entry Nat) (c : Taken) : Prop where
  kind : e.kind.captured? = some c.kind
  /-- The text is captured while the source is read. -/
  leads : Leads includes start c.point
  captures : c.point.Captures c.kind c.body
  /-- The heading of the block stands in front of the text. -/
  heading : HeadedBy c.kind e c.point.scan.tokens
  /-- The token of the text stands behind the heading. -/
  placed : c.point.scan.tokens ++ [c.token] <+: ts
  /-- The block carries the number of the text. -/
  index : e.find? .index = some (.leaf (.int c.index))
  /-- The number finds the text. -/
  text : d.code? c.kind c.index = some c.block.text

variable {includes : Includes} {start last : Point} {cs : List Taken} {d : Document}

/-- A text is found by its kind and its number. -/
theorem code?_of_logged (h : Logged includes start cs last)
    (hd : d.blocks = last.scan.journal.blocks) {c : Taken} (hc : c ∈ cs) :
    d.code? c.kind c.index = some c.block.text := by
  rw [code?, hd, h.blocks, List.find?_map]
  cases hfind : cs.find? _ with
  | none =>
    have hnone := List.find?_eq_none.1 hfind c hc
    simp [Taken.block] at hnone
  | some c' =>
    have hmatch := List.find?_some hfind
    simp only [Taken.block, Function.comp_apply, Bool.and_eq_true, beq_iff_eq, Int.natCast_inj]
      at hmatch
    rw [h.eq_of_index (List.mem_of_find?_eq_some hfind) hc hmatch.1 hmatch.2]
    rfl

theorem isSome_code?_iff (h : Logged includes start cs last)
    (hd : d.blocks = last.scan.journal.blocks) {kind : BlockKind} {i : Int} :
    (d.code? kind i).isSome ↔ ∃ c ∈ cs, c.kind = kind ∧ (c.index : Int) = i := by
  rw [code?, hd, h.blocks, Option.isSome_map, List.find?_isSome]
  simp [Taken.block]

theorem forall₂_filter_of_filterMap {α β γ : Type} {R : γ → β → Prop} {f : α → Option β}
    {l : List α} {cs : List γ} (h : List.Forall₂ R cs (l.filterMap f)) :
    List.Forall₂ (fun a c => ∃ b, f a = some b ∧ R c b) (l.filter fun a => (f a).isSome) cs := by
  induction l generalizing cs with
  | nil =>
    cases h
    exact .nil
  | cons a l ih =>
    cases hfa : f a with
    | none =>
      rw [List.filterMap_cons_none hfa] at h
      rw [List.filter_cons_of_neg (by simp [hfa])]
      exact ih h
    | some b =>
      rw [List.filterMap_cons_some hfa] at h
      rw [List.filter_cons_of_pos (by simp [hfa])]
      cases h with
      | cons hb hs => exact .cons ⟨b, hfa, hb⟩ (ih hs)

theorem signed32_of_lt {n : Nat} (h : n < 2 ^ 31) : Number.signed32 n = n := by
  rw [Number.signed32, Word.limit_four, Int.bmod_def]
  split <;> omega

theorem heading?_eq_some_iff {e : Entry Nat} {g : Heading} :
    e.heading? = some g ↔ e.kind.captured? = some g.kind ∧ e.leaf? .identifier = g.name? ∧
      e.leaf? .index = g.index? := by
  obtain ⟨kind, name?, index?⟩ := g
  cases hkind : e.kind.captured? <;> simp [Entry.heading?, hkind]

/-- A heading in front of a text is that of its block. -/
theorem headedBy_of_heading {e : Entry Nat} {c : Taken} {g : Heading}
    (hkind : c.point.scan.blockKind? = some c.kind) (he : e.heading? = some g)
    (hg : Heading.Of (c.point.scan.recent.map PlacedToken.token, c.index) g) :
    e.kind.captured? = some c.kind ∧ HeadedBy c.kind e c.point.scan.tokens ∧
      e.find? .index = some (.leaf (.int (Number.signed32 c.index))) := by
  obtain ⟨hcaptured, hname, hindex⟩ := heading?_eq_some_iff.1 he
  generalize hrecent : c.point.scan.recent.map PlacedToken.token = recent at hg
  rw [Scan.blockKind?, List.map_take, hrecent] at hkind
  rw [Scan.tokens]
  -- A heading tells the tokens in front of the text, the last one first.
  cases hg with
  | code =>
    obtain ⟨t, before, hscan, ht, -⟩ := List.map_eq_cons_iff.1 hrecent
    obtain hkind : BlockKind.code = c.kind := Option.some.inj hkind
    rw [← hkind, hscan, List.reverse_cons]
    exact ⟨hcaptured, .code ht, Entry.find?_of_leaf? hindex⟩
  | subShader =>
    obtain ⟨u, others, hscan, hu, hothers⟩ := List.map_eq_cons_iff.1 hrecent
    obtain ⟨t, before, rfl, ht, -⟩ := List.map_eq_cons_iff.1 hothers
    obtain hkind : BlockKind.subShader = c.kind := Option.some.inj hkind
    rw [← hkind, hscan, List.reverse_cons, List.reverse_cons, List.append_assoc]
    exact ⟨hcaptured, .subShader ht hu (Entry.find?_of_leaf? hname), Entry.find?_of_leaf? hindex⟩

/-- The blocks for captured texts are those of the texts, in the same order. -/
theorem owns_of_logged {root : Tree} (h : Logged includes start cs last)
    (hroot : Tree.ofTokens last.scan.tokens = .ok root)
    (hd : d.blocks = last.scan.journal.blocks) (hfew : d.blocks.length < 2 ^ 31) :
    List.Forall₂ (d.Owns includes start last.scan.tokens) (Arena.ofTree root).2.captured cs := by
  have hheadings := Tree.headings_of_ofTokens hroot
  rw [h.tokens, List.forall₂_map_left_iff, ← Arena.headings_ofTree] at hheadings
  have hblocks := forall₂_filter_of_filterMap
    ((List.forall₂_and_left (p := (· ∈ cs)) _ _).2 ⟨fun c hc => hc, hheadings⟩)
  simp only [Entry.heading?, Option.isSome_map] at hblocks
  refine hblocks.imp fun e c howned => ?_
  obtain ⟨g, he, hc, hg⟩ := howned
  obtain ⟨hleads, hcaptures⟩ := h.captures c hc
  obtain ⟨hkind, hheaded, hindex⟩ := headedBy_of_heading hcaptures.kind he hg
  -- The number of a text fits into the signed number that is kept of it.
  have hlt : c.index < 2 ^ 31 := by
    rw [hd, h.blocks, List.length_map] at hfew
    exact (h.index_lt hc).trans hfew
  rw [signed32_of_lt hlt] at hindex
  exact ⟨hkind, hleads, hcaptures, hheaded, h.placed c hc, hindex, code?_of_logged h hd hc⟩

/-- Blocks carry the numbers of their texts, kind by kind. -/
theorem find?_index_capturedAs {ts : List PlacedToken} {a : Arena}
    (howns : List.Forall₂ (d.Owns includes start ts) a.captured cs) (kind : BlockKind) :
    (a.capturedAs kind).map (·.find? .index) =
      (cs.filter (·.kind = kind)).map fun c => some (.leaf (.int c.index)) := by
  have hkinds : List.Forall₂ (d.Owns includes start ts) (a.capturedAs kind)
      (cs.filter (·.kind = kind)) := by
    rw [a.capturedAs_eq_filter]
    exact List.rel_filter (fun e c howned => by simp [howned.kind]) howns
  rw [← List.forall₂_eq_eq_eq, List.forall₂_map_left_iff, List.forall₂_map_right_iff]
  exact hkinds.imp fun e c howned => howned.index

end Document

/-- The captured texts of a document belong to the blocks that are read from their headings. -/
structure Document.TextsOwned (d : Document) (source : String) (defines : Table String)
    (includes : Includes) : Prop where
  /-- The blocks for texts of a kind carry the numbers from zero on, in their order. -/
  numbered : ∀ kind, (d.arena.capturedAs kind).map (·.find? .index) =
    (List.range (d.arena.capturedAs kind).length).map fun n : Nat => some (.leaf (.int n))
  /-- There are texts under these numbers and no others. -/
  found : ∀ kind i, (d.code? kind i).isSome ↔
    ∃ e ∈ d.arena.capturedAs kind, e.find? .index = some (.leaf (.int i))
  /-- The blocks own the texts in their order, and each text is that of one token. -/
  owned : ∃ frames t cs, (Scan.fresh (.ofTable defines)).process includes source [] =
      .ok (frames, t) ∧
    Arena.ofTokens t.tokens = .ok (Arena.ofTree d.root) ∧
    cs.map (·.point.scan.tokens.length) = t.tokens.findIdxs (·.token.kind = .rawBlock) ∧
    List.Forall₂ (d.Owns includes (Point.start (.ofTable defines) source) t.tokens)
      d.arena.captured cs

/-- Blocks for captured texts and captured texts are in bijection: where the texts are few enough
for their numbers to be kept in 32 bits, the blocks of each kind are numbered from zero on, a text
is found under these numbers only, and it is the one behind the heading of the block. -/
theorem Document.textsOwned_of_read {source : String} {defines : Table String}
    {includes : Includes} {d : Document} (h : Document.read source defines includes = .ok d)
    (hfew : d.blocks.length < 2 ^ 31) : d.TextsOwned source defines includes := by
  obtain ⟨frames, t, root, hprocess, hroot, rfl⟩ := read_eq_ok_iff.1 h
  obtain ⟨cs, last, hlogged, rfl⟩ := Scan.exists_logged hprocess
  have howns := owns_of_logged hlogged hroot (d := ⟨root, _, _⟩) rfl hfew
  have hindex := find?_index_capturedAs howns
  refine ⟨fun kind => ?_, fun kind i => ?_, frames, last.scan, cs, hprocess, ?_,
    hlogged.positions, howns⟩
  · have hlength := congrArg List.length (hindex kind)
    rw [List.length_map, List.length_map] at hlength
    rw [arena, hindex, hlength, ← hlogged.numbered, List.map_map]
    rfl
  · rw [isSome_code?_iff hlogged rfl, ← List.mem_map, arena, hindex]
    simp [and_assoc]
  · rw [Arena.ofTokens, hroot]
    rfl

/-- A text of code and one of a sub-shader have the same number. -/
theorem Document.textsOwned_of_both :
    ∃ d, Document.read "shader A \x7b code \x7b x \x7d \x7d subshader P \x7b y \x7d" .empty
        (fun _ => none) = .ok d ∧
      d.blocks = [⟨.code, 0, " x "⟩, ⟨.subShader, 0, " y "⟩] ∧
      d.TextsOwned "shader A \x7b code \x7b x \x7d \x7d subshader P \x7b y \x7d" .empty
        fun _ => none := by
  have hread : ((Document.read "shader A \x7b code \x7b x \x7d \x7d subshader P \x7b y \x7d"
      .empty fun _ => none).toOption.map (·.blocks)) =
      some [⟨.code, 0, " x "⟩, ⟨.subShader, 0, " y "⟩] := by decide +kernel
  obtain ⟨d, hd, hblocks⟩ := Option.map_eq_some_iff.1 hread
  have h := Outcome.toOption_eq_some_iff.1 hd
  exact ⟨d, h, hblocks, Document.textsOwned_of_read h (by rw [hblocks]; decide)⟩

end ShaderLang
