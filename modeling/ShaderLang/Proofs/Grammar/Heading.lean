import ShaderLang.Proofs.Grammar.Arena
import ShaderLang.Proofs.Grammar.Reading
import ShaderLang.Proofs.Source.Captured
/-!
# Headings of captured blocks

A captured block is one token with a number. It stands behind a heading, which is the keyword `code`
or the keyword and the name of a sub-shader, and the number goes into the block that is read from
it. The blocks for captured texts stand in a row of tokens and in the arena in the same order.

## Main definitions

* `Heading` — what a block for a captured text says of it
* `Heading.Of` — the heading in front of a captured block
* `Form.headed` — a form takes captured blocks behind `code` only

## Main results

* `Form.heads_of_derives` — the blocks for captured texts that a form describes are those of its row
* `Tree.headings_of_ofTokens` — the same for whole descriptions
* `Arena.headings_ofTree` — and they are laid out in this order
-/

namespace ShaderLang

/-! ## Headings of blocks -/

/-- The kind of captured text that a block is for. -/
def NodeKind.captured? : NodeKind → Option BlockKind
  | code => some .code
  | subShader => some .subShader
  | _ => none

/-- The value, if it is no block. -/
def Value.leaf? {ν : Type} : Value ν → Option Leaf
  | leaf l => some l
  | node _ => none

namespace Entry

variable {ν : Type}

/-- The first stored value of a kind, if it is no block. -/
def leaf? (e : Entry ν) (kind : SettingKind) : Option Leaf := (e.find? kind).bind Value.leaf?

theorem find?_of_leaf? {e : Entry ν} {kind : SettingKind} {l : Leaf} (h : e.leaf? kind = some l) :
    e.find? kind = some (.leaf l) := by
  obtain ⟨v, hv, hl⟩ := Option.bind_eq_some_iff.1 h
  cases v with
  | leaf l' =>
    cases hl
    exact hv
  | node n => cases hl

/-- Plain values are found alike where blocks are represented in another way. -/
theorem leaf?_congr {μ : Type} {e : Entry ν} {d : Entry μ}
    (h : e.settings.map (fun s => (s.kind, s.value.leaf?)) =
      d.settings.map fun s => (s.kind, s.value.leaf?)) (kind : SettingKind) :
    e.leaf? kind = d.leaf? kind := by
  have hfind : ∀ {ξ : Type} (c : Entry ξ), c.leaf? kind =
      ((c.settings.map fun s => (s.kind, s.value.leaf?)).find? (·.1 = kind)).bind (·.2) := by
    intro ξ c
    rw [leaf?, find?, List.find?_map, Option.bind_map, Option.bind_map]
    rfl
  rw [hfind e, hfind d, h]

end Entry

/-- What a block for a captured text says of it. -/
structure Heading where
  kind : BlockKind
  name? : Option Leaf
  index? : Option Leaf

/-- What a block says of a captured text, if it is for one. -/
def Entry.heading? {ν : Type} (e : Entry ν) : Option Heading :=
  e.kind.captured?.map fun kind => ⟨kind, e.leaf? .identifier, e.leaf? .index⟩

/-- The heading that stands in front of a captured block. -/
inductive Heading.Of : List Token × Nat → Heading → Prop
  | code {recent : List Token} {i : Nat} :
      Of (.keyword .code :: recent, i) ⟨.code, none, some (.int (Number.signed32 i))⟩
  | subShader {recent : List Token} {name : String} {i : Nat} :
      Of (.identifier name :: .keyword .subShader :: recent, i)
        ⟨.subShader, some (.str name), some (.int (Number.signed32 i))⟩

mutual

/-- The headings in a tree, in the order in which its blocks are laid out. -/
def Tree.headings : Tree → List Heading
  | .node ⟨kind, settings⟩ =>
    Tree.headingsAll settings ++ (Entry.heading? ⟨kind, settings⟩).toList

/-- The headings under settings; what is stored last comes first. -/
def Tree.headingsAll : List (Setting Tree) → List Heading
  | [] => []
  | ⟨_, .leaf _⟩ :: ss => Tree.headingsAll ss
  | ⟨_, .node t⟩ :: ss => Tree.headingsAll ss ++ t.headings

end

theorem Tree.headingsAll_append (ss us : List (Setting Tree)) :
    headingsAll (ss ++ us) = headingsAll us ++ headingsAll ss := by
  induction ss with
  | nil => simp [headingsAll]
  | cons s ss ih =>
    obtain ⟨kind, l | t⟩ := s
    · exact ih
    · simp only [List.cons_append, headingsAll, ih, List.append_assoc]

namespace Arena

/-- The headings in an arena, in the order of its blocks. -/
def headings (a : Arena) : List Heading := a.nodes.toList.filterMap Entry.heading?

theorem headings_alloc (a : Arena) (e : Entry Nat) :
    (a.alloc e).2.headings = a.headings ++ e.heading?.toList := by
  cases h : e.heading? <;> simp [headings, alloc, List.filterMap_append, h]

/-- Laying out blocks leaves the plain values as they are. -/
theorem leaves_layOutAll (ss : List (Setting Tree)) (a : Arena) :
    (layOutAll ss a).1.map (fun s => (s.kind, s.value.leaf?)) =
      ss.map fun s => (s.kind, s.value.leaf?) := by
  induction ss with
  | nil => rfl
  | cons s ss ih =>
    obtain ⟨kind, l | t⟩ := s <;> simp only [layOutAll, List.map_cons, ih] <;> rfl

theorem heading?_layOutAll (kind : NodeKind) (ss : List (Setting Tree)) (a : Arena) :
    Entry.heading? ⟨kind, (layOutAll ss a).1⟩ = Entry.heading? ⟨kind, ss⟩ := by
  have hleaf := fun k => Entry.leaf?_congr (e := ⟨kind, (layOutAll ss a).1⟩) (d := ⟨kind, ss⟩)
    (leaves_layOutAll ss a) k
  rw [Entry.heading?, Entry.heading?, hleaf, hleaf]

mutual

/-- A tree adds its headings. -/
theorem headings_layOut : ∀ (t : Tree) (a : Arena),
    (layOut t a).2.headings = a.headings ++ t.headings
  | .node ⟨kind, settings⟩, a => by
    rw [layOut, headings_alloc, headings_layOutAll settings a, heading?_layOutAll, Tree.headings,
      List.append_assoc]

theorem headings_layOutAll : ∀ (ss : List (Setting Tree)) (a : Arena),
    (layOutAll ss a).2.headings = a.headings ++ Tree.headingsAll ss
  | [], a => (List.append_nil _).symm
  | ⟨_, .leaf _⟩ :: ss, a => headings_layOutAll ss a
  | ⟨_, .node t⟩ :: ss, a => by
    simp only [layOutAll, headings_layOut t, headings_layOutAll ss a, Tree.headingsAll,
      List.append_assoc]

end

theorem headings_ofTree (t : Tree) : (ofTree t).2.headings = t.headings := headings_layOut t empty

end Arena

/-! ## Headings that are read -/

/-- The captured blocks of a row of tokens are those of the settings that it writes, whatever stands
before the row. -/
structure Heads (ts : List Token) (p : Parts) : Prop where
  header : Tree.headingsAll p.header = []
  body : ∀ recent, List.Forall₂ Heading.Of (Token.captures recent ts)
    (Tree.headingsAll p.body.reverse)

namespace Heads

/-- A row without captured blocks writes plain values. -/
theorem of_plain {ts : List Token} {p : Parts} (hts : ∀ t ∈ ts, t.kind ≠ .rawBlock)
    (hheader : Tree.headingsAll p.header = []) (hbody : Tree.headingsAll p.body.reverse = []) :
    Heads ts p := by
  have hcaptures : ∀ recent, Token.captures recent ts = [] := by
    induction ts with
    | nil => exact fun recent => rfl
    | cons t ts ih =>
      obtain ⟨ht, hts⟩ := List.forall_mem_cons.1 hts
      exact fun recent => (Token.captures_cons_of_ne ht ts).trans (ih hts _)
  refine ⟨hheader, fun recent => ?_⟩
  rw [hcaptures, hbody]
  exact .nil

theorem append {ts us : List Token} {p q : Parts} (hp : Heads ts p) (hq : Heads us q) :
    Heads (ts ++ us) (p ++ q) where
  header := by rw [Parts.header_append, Tree.headingsAll_append, hp.header, hq.header]; rfl
  body := by
    intro recent
    rw [Parts.body_append, List.reverse_append, Tree.headingsAll_append, Token.captures_append]
    exact List.rel_append (hp.body recent) (hq.body _)

/-- A mark or a keyword writes nothing. -/
theorem of_ne {t : Token} (ht : t.kind ≠ .rawBlock) : Heads [t] .none :=
  of_plain (List.forall_mem_singleton.2 ht) rfl rfl

/-- A block that is not for a captured text has the headings of its settings. -/
theorem headings_tree {ts : List Token} {p : Parts} (h : Heads ts p) {block : NodeKind}
    (hblock : block.captured? = none) :
    (p.tree block).headings = Tree.headingsAll p.body.reverse := by
  have hheading : Entry.heading? (⟨block, p.header ++ p.body.reverse⟩ : Entry Tree) = none := by
    rw [Entry.heading?, hblock]
    rfl
  rw [Parts.tree, Entry.ofParts, Tree.headings, Tree.headingsAll_append, h.header, hheading]
  simp

theorem nested {ts : List Token} {p : Parts} (h : Heads ts p) {block : NodeKind}
    (hblock : block.captured? = none) (kind : SettingKind) :
    Heads ts (.one kind (.node (p.tree block))) where
  header := rfl
  body := by
    intro recent
    simp only [Parts.body_one, List.reverse_singleton, Tree.headingsAll, List.nil_append,
      h.headings_tree hblock]
    exact h.body recent

end Heads

namespace Form

/-- A form takes captured blocks only behind the keyword `code`, and then into a block for them. -/
def headed : Form → Bool
  | eat kind => kind ≠ .rawBlock
  | header _ l => l ≠ .block
  | take _ l => l ≠ .block
  | seq first second =>
    (first = eat (.keyword .code) && second = Grammar.code) || (first.headed && second.headed)
  | nested _ block inside => block.captured?.isNone && inside.headed
  | ifNext _ yes no => yes.headed && no.headed
  | body statement => statement.headed
  | commas _ item => item.headed
  | _ => true

theorem kind_ne_of_means {l : Literal} {t : Token} {leaf : Leaf} (hl : l ≠ .block)
    (h : l.Means t leaf) : t.kind ≠ .rawBlock := by
  cases h with
  | block => exact absurd rfl hl
  | _ => simp [Token.kind]

theorem heads_of_statements {S : List Token → Parts → Prop} (hS : ∀ {ts p}, S ts p → Heads ts p)
    {ts : List Token} {p : Parts} (h : Statements S ts p) : Heads ts p := by
  induction h with
  | close => exact .of_ne (by decide)
  | semicolon _ ih => exact (Heads.of_ne (by decide)).append ih
  | statement h _ ih => exact (hS h).append ih

theorem heads_of_items {S : List Token → Parts → Prop} {close : Punct}
    (hS : ∀ {ts p}, S ts p → Heads ts p) {ts : List Token} {p : Parts} (h : Items S close ts p) :
    Heads ts p := by
  induction h with
  | @last ts p h =>
    rw [← Parts.append_none p]
    exact (hS h).append (.of_ne (by simp [Token.kind]))
  | @more ts us p q h _ ih =>
    rw [← Parts.none_append q]
    exact (hS h).append ((Heads.of_ne (t := .punct .comma) (by decide)).append ih)

/-- The keyword `code` with the block behind it. -/
theorem heads_code {ts : List Token} {p : Parts}
    (h : (seq (eat (.keyword .code)) Grammar.code).Derives ts p) : Heads ts p := by
  obtain ⟨us, vs, q, r, ⟨t, ht, rfl, rfl⟩, ⟨_, ⟨u, leaf, hmeans, rfl, rfl⟩, rfl⟩, rfl, rfl⟩ := h
  cases hmeans with
  | block i =>
    cases t with
    | keyword k =>
      cases ht
      exact ⟨rfl, fun recent => .cons .code .nil⟩
    | _ => cases ht

/-- The captured blocks in a row that a form describes are those of the settings that it writes. -/
theorem heads_of_derives {f : Form} (hf : f.headed = true) {ts : List Token} {p : Parts}
    (h : f.Derives ts p) : Heads ts p := by
  induction f generalizing ts p with
  | empty =>
    obtain ⟨rfl, rfl⟩ := h
    exact .of_plain nofun rfl rfl
  | fail => exact h.elim
  | eat kind =>
    obtain ⟨t, rfl, rfl, rfl⟩ := h
    exact .of_ne (by simpa [headed] using hf)
  | header kind l =>
    obtain ⟨t, leaf, hmeans, rfl, rfl⟩ := h
    have hne := kind_ne_of_means (by simpa [headed] using hf) hmeans
    exact .of_plain (List.forall_mem_singleton.2 hne) rfl rfl
  | take kind l =>
    obtain ⟨t, leaf, hmeans, rfl, rfl⟩ := h
    have hne := kind_ne_of_means (by simpa [headed] using hf) hmeans
    exact .of_plain (List.forall_mem_singleton.2 hne) rfl rfl
  | flag kind =>
    obtain ⟨rfl, rfl⟩ := h
    exact .of_plain nofun rfl rfl
  | seq a b iha ihb =>
    simp only [headed, Bool.or_eq_true, Bool.and_eq_true, decide_eq_true_eq] at hf
    -- Only behind the keyword does a form take in a block.
    rcases hf with ⟨rfl, rfl⟩ | ⟨ha, hb⟩
    · exact heads_code h
    · obtain ⟨us, vs, q, r, hq, hr, rfl, rfl⟩ := h
      exact (iha ha hq).append (ihb hb hr)
  | nested kind block inside ih =>
    simp only [headed, Bool.and_eq_true, Option.isNone_iff_eq_none] at hf
    obtain ⟨q, hq, rfl⟩ := h
    exact (ih hf.2 hq).nested hf.1 kind
  | ifNext kind yes no ihyes ihno =>
    simp only [headed, Bool.and_eq_true] at hf
    simp only [Derives] at h
    split at h
    · exact ihyes hf.1 h
    · exact ihno hf.2 h
  | body statement ih => exact heads_of_statements (ih hf) h
  | commas close item ih => exact heads_of_items (ih hf) h

end Form

namespace Grammar

/-- A keyword at the top with the block behind it. -/
theorem heads_top {k : Keyword} {f : Form} (h : top? k = some f) {ts : List Token} {p : Parts}
    (hf : f.Derives ts p) : Heads (.keyword k :: ts) p := by
  have hshader : ∀ {kind block}, NodeKind.captured? block = none →
      (Form.nested kind block shader).headed = true := by
    intro kind block hblock
    have hinside : shader.headed = true := by decide
    simp [Form.headed, hblock, hinside]
  have hplain : f.headed = true → Heads (.keyword k :: ts) p := fun hheaded =>
    (Heads.of_ne (t := .keyword k) (by simp [Token.kind])).append
      (Form.heads_of_derives hheaded hf)
  cases k <;> cases h
  case options => exact hplain (by decide)
  case shader => exact hplain (hshader rfl)
  case mixin => exact hplain (hshader rfl)
  -- A sub-shader has a word between its keyword and its block.
  case subShader =>
    obtain ⟨_, ⟨us, vs, q, r, ⟨t, name, hname, rfl, rfl⟩, ⟨u, leaf, hleaf, rfl, rfl⟩, rfl, rfl⟩,
      rfl⟩ := hf
    cases hname
    cases hleaf
    exact ⟨rfl, fun recent => .cons .subShader .nil⟩

theorem heads_of_readTop {ts : List PlacedToken} {p : Parts} (h : readTop ts = .ok p) :
    Heads (Form.tokens ts) p :=
  readTop_induction (.of_plain nofun rfl rfl) (fun h => (Heads.of_ne (by decide)).append h)
    (fun hf hp hq => (heads_top hf hp).append hq) h

end Grammar

/-- The blocks for captured texts stand in a tree in the order in which the texts are captured, each
with what its heading says and with the number of the text. -/
theorem Tree.headings_of_ofTokens {ts : List PlacedToken} {t : Tree}
    (h : Tree.ofTokens ts = .ok t) :
    List.Forall₂ Heading.Of (Token.captures [] (Form.tokens ts)) t.headings := by
  simp only [Tree.ofTokens] at h
  split at h
  · next p hp =>
    cases h
    have hheads := Grammar.heads_of_readTop hp
    rw [hheads.headings_tree rfl]
    exact hheads.body []
  · cases h

end ShaderLang
