import ShaderLang.Proofs.Grammar.Derivation
import ShaderLang.Proofs.Grammar.Sentence
import ShaderLang.Tree.Grammar
/-!
# The forms describe the sentences

Each form of the grammar describes the rows of one production, with the settings of that production
in their order. The rules for the shapes of forms come first; those for the productions only combine
them.

## Main definitions

* `Parts.items` — the settings of parts as a node declares them
* `Form.Writes` — a form describes a phrase whose settings all stand in a body
* `Form.Describes` — a form describes a phrase, the name in its header included

## Main results

* `Form.describes_options`, `Form.describes_shader`, `Form.describes_subShader` — the forms at the
  top
-/

namespace ShaderLang

/-- The settings of parts in the order in which a node declares them. -/
def Parts.items (p : Parts) : List (Setting Tree) := p.body ++ p.header.reverse

theorem Parts.tree_eq_declaring (p : Parts) (kind : NodeKind) :
    p.tree kind = .declaring kind p.items := by
  simp [tree, Entry.ofParts, Tree.declaring, items]

namespace Form

open Sentence

/-- A form describes a phrase, and all settings stand in the body. -/
def Writes (f : Form) (P : Phrase) : Prop :=
  ∀ ts p, f.Derives ts p ↔ ∃ items, P ts items ∧ p = ⟨[], items⟩

/-- A form describes a phrase. -/
def Describes (f : Form) (P : Phrase) : Prop :=
  ∀ ts items, P ts items ↔ ∃ p, f.Derives ts p ∧ p.items = items

theorem Writes.describes {f : Form} {P : Phrase} (h : f.Writes P) : f.Describes P := by
  intro ts items
  constructor
  · intro hP
    exact ⟨⟨[], items⟩, (h ts _).2 ⟨items, hP, rfl⟩, List.append_nil _⟩
  · rintro ⟨p, hp, rfl⟩
    obtain ⟨items, hP, rfl⟩ := (h ts p).1 hp
    simpa [Parts.items] using hP

/-! ## Shapes of forms -/

theorem kind_eq_punct_iff {t : Token} {m : Punct} : t.kind = .punct m ↔ t = .punct m := by
  cases t <;> simp [Token.kind]

theorem kind_eq_keyword_iff {t : Token} {k : Keyword} : t.kind = .keyword k ↔ t = .keyword k := by
  cases t <;> simp [Token.kind]

/-- Two alternatives that the next token tells apart. -/
theorem derives_ifNext_iff {kind : TokenKind} {yes no : Form} (hyes : yes.starts ⊆ [kind])
    (hnull : yes.nullable = false) (hno : kind ∉ no.starts) {ts : List Token} {p : Parts} :
    (ifNext kind yes no).Derives ts p ↔ yes.Derives ts p ∨ no.Derives ts p := by
  simp only [Derives]
  by_cases hhead : headKind? ts = some kind
  -- The next token is the mark of `yes`, with which `no` cannot start.
  · rw [if_pos hhead, or_iff_left]
    intro h
    cases ts with
    | nil => cases hhead
    | cons t ts =>
      cases hhead
      exact hno (kind_mem_starts h)
  -- A row of `yes` is not empty, and it would start with the mark.
  · rw [if_neg hhead, or_iff_right]
    intro h
    cases ts with
    | nil => exact ne_nil_of_derives hnull h rfl
    | cons t ts =>
      have hmem := hyes (kind_mem_starts h)
      exact hhead (congrArg some (List.mem_singleton.1 hmem))

theorem derives_seq_assoc {a b c : Form} {ts : List Token} {p : Parts} :
    (seq (seq a b) c).Derives ts p ↔ (seq a (seq b c)).Derives ts p := by
  constructor
  · rintro ⟨_, ws, _, r, ⟨us, vs, q, q', ha, hb, rfl, rfl⟩, hc, rfl, rfl⟩
    exact ⟨us, vs ++ ws, q, q' ++ r, ha, ⟨vs, ws, q', r, hb, hc, rfl, rfl⟩, List.append_assoc ..,
      Parts.append_assoc ..⟩
  · rintro ⟨us, _, q, _, ha, ⟨vs, ws, q', r, hb, hc, rfl, rfl⟩, rfl, rfl⟩
    exact ⟨us ++ vs, ws, q ++ q', r, ⟨us, vs, q, q', ha, hb, rfl, rfl⟩, hc,
      (List.append_assoc ..).symm, (Parts.append_assoc ..).symm⟩

/-- A token of a class in front of a form. -/
theorem derives_eat_seq {kind : TokenKind} {f : Form} {ts : List Token} {p : Parts} :
    (seq (eat kind) f).Derives ts p ↔ ∃ t us, t.kind = kind ∧ ts = t :: us ∧ f.Derives us p := by
  constructor
  · rintro ⟨_, us, _, r, ⟨t, ht, rfl, rfl⟩, hf, rfl, rfl⟩
    exact ⟨t, us, ht, rfl, hf⟩
  · rintro ⟨t, us, ht, rfl, hf⟩
    exact ⟨[t], us, .none, p, ⟨t, ht, rfl, rfl⟩, hf, rfl, rfl⟩

theorem writes_take (kind : SettingKind) (l : Literal) :
    (take kind l).Writes (Single (Sentence.Value kind l)) := by
  intro ts p
  constructor
  · rintro ⟨t, leaf, h, rfl, rfl⟩
    exact ⟨_, ⟨⟨h⟩⟩, rfl⟩
  · rintro ⟨_, ⟨⟨h⟩⟩, rfl⟩
    exact ⟨_, _, h, rfl, rfl⟩

theorem writes_assign (kind : SettingKind) (l : Literal) :
    (Grammar.assign kind l).Writes (Single (Equals kind l)) := by
  intro ts p
  rw [Grammar.assign, derives_eat_seq]
  constructor
  · rintro ⟨t, us, ht, rfl, h⟩
    obtain rfl := kind_eq_punct_iff.1 ht
    obtain ⟨_, ⟨hv⟩, rfl⟩ := (writes_take kind l us p).1 h
    exact ⟨_, ⟨⟨hv⟩⟩, rfl⟩
  · rintro ⟨_, ⟨⟨hv⟩⟩, rfl⟩
    exact ⟨_, _, rfl, rfl, (writes_take kind l _ _).2 ⟨_, ⟨hv⟩, rfl⟩⟩

theorem writes_nested {inside : Form} {P : Phrase} (h : inside.Describes P) (kind : SettingKind)
    (node : NodeKind) : (nested kind node inside).Writes (Single (Block kind node P)) := by
  intro ts p
  constructor
  · rintro ⟨q, hq, rfl⟩
    rw [Parts.tree_eq_declaring]
    exact ⟨_, ⟨⟨(h ts q.items).2 ⟨q, hq, rfl⟩⟩⟩, rfl⟩
  · rintro ⟨_, ⟨⟨hP⟩⟩, rfl⟩
    obtain ⟨q, hq, rfl⟩ := (h _ _).1 hP
    refine ⟨q, hq, ?_⟩
    rw [Parts.tree_eq_declaring]
    rfl

theorem writes_body {statement : Form} {S : Statement} (h : statement.Writes (Single S)) :
    (body statement).Writes (Body S) := by
  intro ts p
  constructor
  · intro hp
    induction hp with
    | close => exact ⟨[], .close, rfl⟩
    | semicolon _ ih =>
      obtain ⟨items, hitems, rfl⟩ := ih
      exact ⟨items, .semicolon hitems, rfl⟩
    | statement hs _ ih =>
      obtain ⟨items, hitems, rfl⟩ := ih
      obtain ⟨_, ⟨hS⟩, rfl⟩ := (h _ _).1 hs
      exact ⟨_, .statement hS hitems, rfl⟩
  · rintro ⟨items, hitems, rfl⟩
    induction hitems with
    | close => exact .close
    | semicolon _ ih => exact .semicolon ih
    | statement hS _ ih => exact .statement ((h _ _).2 ⟨_, ⟨hS⟩, rfl⟩) ih

theorem writes_commas {item : Form} {S : Statement} (h : item.Writes (Single S)) (close : Punct) :
    (commas close item).Writes (Row S close) := by
  intro ts p
  constructor
  · intro hp
    induction hp with
    | last hs =>
      obtain ⟨_, ⟨hS⟩, rfl⟩ := (h _ _).1 hs
      exact ⟨_, .last hS, rfl⟩
    | more hs _ ih =>
      obtain ⟨items, hitems, rfl⟩ := ih
      obtain ⟨_, ⟨hS⟩, rfl⟩ := (h _ _).1 hs
      exact ⟨_, .more hS hitems, rfl⟩
  · rintro ⟨items, hitems, rfl⟩
    induction hitems with
    | last hS => exact .last ((h _ _).2 ⟨_, ⟨hS⟩, rfl⟩)
    | more hS _ ih => exact .more ((h _ _).2 ⟨_, ⟨hS⟩, rfl⟩) ih

/-- A table of keywords, each with a form of its statement, and the statements themselves. -/
inductive Tabulated : List (Keyword × Form) → List Statement → Prop
  | nil : Tabulated [] []
  | cons {k f S table alternatives} (h : f.Writes (Single S)) (hs : Tabulated table alternatives) :
      Tabulated ((k, f) :: table) (Keyed k S :: alternatives)

theorem Tabulated.assignment {k : Keyword} {kind : SettingKind} {l : Literal}
    {table : List (Keyword × Form)} {ss : List Statement} (h : Tabulated table ss) :
    Tabulated ((k, Grammar.assign kind l) :: table) (Assignment k kind l :: ss) :=
  .cons (writes_assign kind l) h

theorem Tabulated.append {t₁ t₂ : List (Keyword × Form)} {a₁ a₂ : List Statement}
    (h₁ : Tabulated t₁ a₁) (h₂ : Tabulated t₂ a₂) : Tabulated (t₁ ++ t₂) (a₁ ++ a₂) := by
  induction h₁ with
  | nil => exact h₂
  | cons h _ ih => exact .cons h ih

theorem writes_keyed {k : Keyword} {f : Form} {S : Statement} (h : f.Writes (Single S)) :
    (seq (eat (.keyword k)) f).Writes (Single (Keyed k S)) := by
  intro ts p
  rw [derives_eat_seq]
  constructor
  · rintro ⟨t, us, ht, rfl, hf⟩
    obtain rfl := kind_eq_keyword_iff.1 ht
    obtain ⟨_, ⟨hS⟩, rfl⟩ := (h us p).1 hf
    exact ⟨_, ⟨⟨hS⟩⟩, rfl⟩
  · rintro ⟨_, ⟨⟨hS⟩⟩, rfl⟩
    exact ⟨_, _, rfl, rfl, (h _ _).2 ⟨_, ⟨hS⟩, rfl⟩⟩

/-- The alternatives of a table, before the form that is left when no keyword fits. -/
def alternatives (table : List (Keyword × Form)) (expected : List TokenKind) : Form :=
  table.foldr (fun k no => ifNext (.keyword k.1) (seq (eat (.keyword k.1)) k.2) no) (fail expected)

theorem starts_alternatives (table : List (Keyword × Form)) (expected : List TokenKind) :
    (alternatives table expected).starts = table.map fun k => .keyword k.1 := by
  induction table with
  | nil => rfl
  | cons e table ih => exact congrArg _ ih

theorem writes_alternatives {table : List (Keyword × Form)} {ss : List Statement}
    (h : Tabulated table ss) (hkeys : (table.map Prod.fst).Nodup) (expected : List TokenKind) :
    (alternatives table expected).Writes (Single (OneOf ss)) := by
  induction h with
  | nil =>
    intro ts p
    constructor
    · exact False.elim
    · rintro ⟨_, ⟨S, hS, -⟩, -⟩
      cases hS
  | @cons k f S table ss hf _ ih =>
    obtain ⟨hk, hkeys⟩ := List.nodup_cons.1 hkeys
    -- No later alternative starts with this keyword, since the keywords differ.
    have hno : TokenKind.keyword k ∉ (alternatives table expected).starts := by
      rw [starts_alternatives, List.mem_map]
      rintro ⟨e, he, heq⟩
      have hmem := List.mem_map_of_mem (f := Prod.fst) he
      rw [TokenKind.keyword.inj heq] at hmem
      exact hk hmem
    intro ts p
    change (ifNext _ _ (alternatives table expected)).Derives ts p ↔ _
    rw [derives_ifNext_iff (by simp [starts, nullable]) rfl hno, writes_keyed hf ts p,
      ih hkeys ts p]
    constructor
    · rintro (⟨_, ⟨hS⟩, rfl⟩ | ⟨_, ⟨T, hT, hS⟩, rfl⟩)
      · exact ⟨_, ⟨_, List.mem_cons_self, hS⟩, rfl⟩
      · exact ⟨_, ⟨T, List.mem_cons_of_mem _ hT, hS⟩, rfl⟩
    · rintro ⟨_, ⟨T, hT, hS⟩, rfl⟩
      rcases List.mem_cons.1 hT with rfl | hT
      · exact .inl ⟨_, ⟨hS⟩, rfl⟩
      · exact .inr ⟨_, ⟨T, hT, hS⟩, rfl⟩

theorem writes_statements {table : List (Keyword × Form)} {ss : List Statement}
    (h : Tabulated table ss) (hkeys : (table.map Prod.fst).Nodup) :
    (Grammar.statements table).Writes (Body (OneOf ss)) :=
  writes_body (writes_alternatives h hkeys _)

/-- A token that may be missing in front of a form. -/
theorem derives_optional_seq {kind : TokenKind} {f : Form} {ts : List Token} {p : Parts} :
    (seq (Grammar.optional kind) f).Derives ts p ↔
      (seq (eat kind) f).Derives ts p ∨ f.Derives ts p := by
  have hoptional {us : List Token} {q : Parts} :
      (Grammar.optional kind).Derives us q ↔ (eat kind).Derives us q ∨ empty.Derives us q :=
    derives_ifNext_iff (by simp [starts]) rfl (by simp [starts])
  constructor
  · rintro ⟨us, vs, q, r, h, hf, rfl, rfl⟩
    -- The token stands in front, or nothing does and the form has the whole row.
    rcases hoptional.1 h with h | ⟨rfl, rfl⟩
    · exact .inl ⟨us, vs, q, r, h, hf, rfl, rfl⟩
    · exact .inr hf
  · rintro (⟨us, vs, q, r, h, hf, rfl, rfl⟩ | hf)
    · exact ⟨us, vs, q, r, hoptional.2 (.inl h), hf, rfl, rfl⟩
    · exact ⟨[], ts, .none, p, hoptional.2 (.inr ⟨rfl, rfl⟩), hf, rfl, rfl⟩

theorem writes_opening {f : Form} {P : Phrase} (h : f.Writes P) :
    (seq Grammar.opening f).Writes (Braced P) := by
  intro ts p
  rw [Grammar.opening, derives_eat_seq]
  constructor
  · rintro ⟨t, us, ht, rfl, hf⟩
    obtain rfl := kind_eq_punct_iff.1 ht
    obtain ⟨items, hP, rfl⟩ := (h us p).1 hf
    exact ⟨items, ⟨hP⟩, rfl⟩
  · rintro ⟨items, ⟨hP⟩, rfl⟩
    exact ⟨_, _, rfl, rfl, (h _ _).2 ⟨items, hP, rfl⟩⟩

theorem writes_assigned {f : Form} {P : Phrase} (h : f.Writes P) :
    (seq Grammar.assigned f).Writes (Assigned P) := by
  intro ts p
  rw [Grammar.assigned, derives_seq_assoc, derives_optional_seq, derives_eat_seq]
  simp only [writes_opening h _ p]
  constructor
  · rintro (⟨t, us, ht, rfl, items, hP, rfl⟩ | ⟨items, hP, rfl⟩)
    · obtain rfl := kind_eq_punct_iff.1 ht
      exact ⟨items, .behind hP, rfl⟩
    · exact ⟨items, .without hP, rfl⟩
  · rintro ⟨items, hP | hP, rfl⟩
    · exact .inr ⟨items, hP, rfl⟩
    · exact .inl ⟨_, _, rfl, rfl, items, hP, rfl⟩

/-- A block that may be assigned, with the statements of a table. -/
theorem writes_block {table : List (Keyword × Form)} {ss : List Statement}
    (h : Tabulated table ss) (hkeys : (table.map Prod.fst).Nodup) (kind : SettingKind)
    (node : NodeKind) :
    (Grammar.block kind node table).Writes
      (Single (Block kind node (Assigned (Body (OneOf ss))))) :=
  writes_nested (writes_assigned (writes_statements h hkeys)).describes kind node

theorem writes_wordRow {words : List (SettingKind × Choice)} (h : words ≠ []) :
    (Grammar.wordRow words).Writes (Words words) := by
  induction words with
  | nil => exact absurd rfl h
  | cons e words ih =>
    obtain ⟨kind, c⟩ := e
    intro ts p
    -- The last word stands in front of the mark that ends the row, the others in front of a comma.
    cases words with
    | nil =>
      constructor
      · rintro ⟨us, _, q, _, ht, ⟨t, hend, rfl, rfl⟩, rfl, rfl⟩
        obtain rfl := kind_eq_punct_iff.1 hend
        obtain ⟨_, ⟨hv⟩, rfl⟩ := (writes_take _ _ _ _).1 ht
        exact ⟨_, .last hv, rfl⟩
      · rintro ⟨_, ⟨hv⟩, rfl⟩
        exact ⟨_, _, _, .none, (writes_take _ _ _ _).2 ⟨_, ⟨hv⟩, rfl⟩, ⟨_, rfl, rfl, rfl⟩, rfl,
          rfl⟩
    | cons e words =>
      have hrest := ih (List.cons_ne_nil _ _)
      constructor
      · rintro ⟨us, vs, q, r, ht, hs, rfl, rfl⟩
        obtain ⟨t, ws, hcomma, rfl, hr⟩ := derives_eat_seq.1 hs
        obtain rfl := kind_eq_punct_iff.1 hcomma
        obtain ⟨_, ⟨hv⟩, rfl⟩ := (writes_take _ _ _ _).1 ht
        obtain ⟨items, hitems, rfl⟩ := (hrest _ _).1 hr
        exact ⟨_, .more hv hitems, rfl⟩
      · rintro ⟨_, hv | @⟨_, _, _, _, _, _, _, items, hv, hs⟩, rfl⟩
        refine ⟨_, _, _, ⟨[], items⟩, (writes_take _ _ _ _).2 ⟨_, ⟨hv⟩, rfl⟩, ?_, rfl, rfl⟩
        exact derives_eat_seq.2 ⟨_, _, rfl, rfl, (hrest _ _).2 ⟨_, hs, rfl⟩⟩

/-- A block that is a row of words or statements. Only the row starts with a word. -/
theorem writes_rowOrBlock {words : List (SettingKind × Choice)} {table : List (Keyword × Form)}
    {ss : List Statement} (hwords : words ≠ [])
    (hstarts : (Grammar.wordRow words).starts ⊆ [.identifier])
    (hnull : (Grammar.wordRow words).nullable = false) (h : Tabulated table ss)
    (hkeys : (table.map Prod.fst).Nodup) (kind : SettingKind) (node : NodeKind) :
    (Grammar.rowOrBlock kind node words table).Writes
      (Single (Block kind node (Assigned (WordsOrBody words (OneOf ss))))) := by
  -- A body starts with a keyword or a mark, so that a word in front decides for the row.
  have hbody : TokenKind.identifier ∉ (Grammar.statements table).starts := by
    change _ ∉ _ :: _ :: (alternatives table _).starts
    simp [starts_alternatives]
  refine writes_nested (writes_assigned fun ts p => ?_).describes kind node
  rw [derives_ifNext_iff hstarts hnull hbody, writes_wordRow hwords ts p,
    writes_statements h hkeys ts p]
  constructor
  · rintro (⟨items, hP, rfl⟩ | ⟨items, hP, rfl⟩)
    · exact ⟨items, .words hP, rfl⟩
    · exact ⟨items, .body hP, rfl⟩
  · rintro ⟨items, hP | hP, rfl⟩
    · exact .inl ⟨items, hP, rfl⟩
    · exact .inr ⟨items, hP, rfl⟩

theorem writes_rowOrNothing {item : Form} {S : Statement} (h : item.Writes (Single S))
    (hnull : item.nullable = false) (hstarts : TokenKind.punct .blockEnd ∉ item.starts) :
    (ifNext (.punct .blockEnd) (eat (.punct .blockEnd)) (commas .blockEnd item)).Writes
      (RowOrNothing S) := by
  intro ts p
  rw [derives_ifNext_iff (by simp [starts]) rfl (by simpa [starts, hnull] using hstarts),
    writes_commas h _ ts p]
  constructor
  · rintro (⟨t, ht, rfl, rfl⟩ | ⟨items, hP, rfl⟩)
    · obtain rfl := kind_eq_punct_iff.1 ht
      exact ⟨[], .nothing, rfl⟩
    · exact ⟨items, .row hP, rfl⟩
  · rintro ⟨items, _ | hP, rfl⟩
    · exact .inl ⟨_, rfl, rfl, rfl⟩
    · exact .inr ⟨items, hP, rfl⟩

theorem describes_named {f : Form} {P : Phrase} (h : f.Writes P) :
    (seq (header .identifier .word) f).Describes (Named P) := by
  intro ts items
  constructor
  · rintro ⟨name, hP⟩
    exact ⟨⟨[_], _⟩, ⟨[_], _, _, _, ⟨_, _, .word name, rfl, rfl⟩, (h _ _).2 ⟨_, hP, rfl⟩, rfl, rfl⟩,
      rfl⟩
  · rintro ⟨_, ⟨_, us, _, q, ⟨_, _, ⟨⟩, rfl, rfl⟩, hf, rfl, rfl⟩, rfl⟩
    obtain ⟨items, hP, rfl⟩ := (h us q).1 hf
    exact .intro _ hP

theorem describes_optional {f : Form} {P : Phrase} (h : f.Describes P) (k : Keyword) :
    (seq (Grammar.optional (.keyword k)) f).Describes (Optional (.keyword k) P) := by
  intro ts items
  simp only [derives_optional_seq, derives_eat_seq]
  constructor
  · rintro (hP | hP)
    · obtain ⟨p, hp, rfl⟩ := (h _ _).1 hP
      exact ⟨p, .inr hp, rfl⟩
    · obtain ⟨p, hp, rfl⟩ := (h _ _).1 hP
      exact ⟨p, .inl ⟨_, _, rfl, rfl, hp⟩, rfl⟩
  · rintro ⟨p, ⟨t, us, ht, rfl, hp⟩ | hp, rfl⟩
    · obtain rfl := kind_eq_keyword_iff.1 ht
      exact .behind ((h _ _).2 ⟨p, hp, rfl⟩)
    · exact .without ((h _ _).2 ⟨p, hp, rfl⟩)

/-! ## The productions -/

/-- One attribute, as the forms have it. -/
def oneAttribute : Form :=
  Grammar.cases
    [(.name, seq (eat (.punct .parenStart)) (seq (take .attrName .text) (eat (.punct .parenEnd)))),
     (.shown, flag .attrShow)] []

theorem writes_attribute : oneAttribute.Writes (Single Attribute) := by
  let name : Statement := fun ts i =>
    ∃ s, ts = [.punct .parenStart, .str s, .punct .parenEnd] ∧ i = ⟨.attrName, .leaf (.str s)⟩
  let shown : Statement := fun ts i => ts = [] ∧ i = ⟨.attrShow, .leaf (.bool true)⟩
  have hname : (seq (eat (.punct .parenStart))
      (seq (take .attrName .text) (eat (.punct .parenEnd)))).Writes (Single name) := by
    intro ts p
    rw [derives_eat_seq]
    constructor
    · rintro ⟨t, _, ht, rfl, _, _, _, _, ⟨_, _, ⟨⟩, rfl, rfl⟩, ⟨u, hu, rfl, rfl⟩, rfl, rfl⟩
      obtain rfl := kind_eq_punct_iff.1 ht
      obtain rfl := kind_eq_punct_iff.1 hu
      exact ⟨_, ⟨_, rfl, rfl⟩, rfl⟩
    · rintro ⟨_, ⟨s, rfl, rfl⟩, rfl⟩
      exact ⟨_, _, rfl, rfl, [_], [_], _, .none, ⟨_, _, .text s, rfl, rfl⟩, ⟨_, rfl, rfl, rfl⟩, rfl,
        rfl⟩
  have hshown : (flag .attrShow).Writes (Single shown) := by
    intro ts p
    constructor
    · rintro ⟨rfl, rfl⟩
      exact ⟨_, ⟨rfl, rfl⟩, rfl⟩
    · rintro ⟨_, ⟨rfl, rfl⟩, rfl⟩
      exact ⟨rfl, rfl⟩
  -- As a table of two keywords the attributes fall under the general lemma.
  have hboth : oneAttribute.Writes (Single (OneOf [Keyed .name name, Keyed .shown shown])) :=
    writes_alternatives (.cons hname (.cons hshown .nil)) (by decide) _
  intro ts p
  rw [hboth ts p]
  constructor
  · rintro ⟨_, ⟨S, hS, h⟩, rfl⟩
    rcases List.mem_pair.1 hS with rfl | rfl
    · obtain ⟨s, rfl, rfl⟩ := h
      exact ⟨_, ⟨.name s⟩, rfl⟩
    · obtain ⟨rfl, rfl⟩ := h
      exact ⟨_, ⟨.shown⟩, rfl⟩
  · rintro ⟨_, ⟨s | _⟩, rfl⟩
    · exact ⟨_, ⟨_, List.mem_cons_self, ⟨s, rfl, rfl⟩⟩, rfl⟩
    · exact ⟨_, ⟨_, List.mem_cons_of_mem _ List.mem_cons_self, ⟨rfl, rfl⟩⟩, rfl⟩

/-- Attributes in front of a form. -/
theorem describes_attributed {f : Form} {P : Phrase} (h : f.Describes P) :
    (seq Grammar.attributes f).Describes (Attributed P) := by
  have hrow := writes_commas writes_attribute .arrayEnd
  -- Only a bracket starts attributes, so that they are there exactly if it comes next.
  have hattributes {us : List Token} {q : Parts} :
      Grammar.attributes.Derives us q ↔
        (nested .attributes .attributes
          (seq (eat (.punct .arrayStart)) (commas .arrayEnd oneAttribute))).Derives us q ∨
        empty.Derives us q :=
    derives_ifNext_iff (by decide) rfl (by simp [starts])
  intro ts items
  constructor
  · rintro (hP | ⟨ha, hP⟩)
    · obtain ⟨p, hp, rfl⟩ := (h _ _).1 hP
      exact ⟨p, ⟨[], _, .none, p, hattributes.2 (.inr ⟨rfl, rfl⟩), hp, rfl, rfl⟩, rfl⟩
    · obtain ⟨p, hp, rfl⟩ := (h _ _).1 hP
      refine ⟨_, ⟨_, _, _, p, hattributes.2 (.inl ⟨_, derives_eat_seq.2 ⟨_, _, rfl, rfl,
        (hrow _ _).2 ⟨_, ha, rfl⟩⟩, rfl⟩), hp, rfl, rfl⟩, ?_⟩
      rw [Parts.tree_eq_declaring]
      simp [Parts.items]
  · rintro ⟨_, ⟨us, vs, _, q, ha, hf, rfl, rfl⟩, rfl⟩
    have hP := (h _ _).2 ⟨q, hf, rfl⟩
    rcases hattributes.1 ha with ⟨r, hr, rfl⟩ | ⟨rfl, rfl⟩
    · obtain ⟨t, ws, ht, rfl, hcommas⟩ := derives_eat_seq.1 hr
      obtain rfl := kind_eq_punct_iff.1 ht
      obtain ⟨attributes, hattrs, rfl⟩ := (hrow _ _).1 hcommas
      have hitems := Attributed.behind hattrs hP
      rw [Parts.tree_eq_declaring]
      simpa [Parts.items] using hitems
    · exact .without hP

theorem describes_options : Grammar.options.Describes Sentence.options := by
  refine (writes_opening (writes_statements ?_ (by decide))).describes
  exact .assignment <| .assignment <| .assignment <| .assignment <| .assignment .nil

theorem writes_raster : Grammar.raster.Writes (Single (Block .raster .raster Sentence.raster)) := by
  refine writes_block ?_ (by decide) .raster .raster
  exact .assignment <| .assignment <| .assignment <| .assignment <| .assignment <| .assignment <|
    .assignment <| .assignment .nil

theorem writes_depth : Grammar.depth.Writes (Single (Block .depth .depth Sentence.depth)) := by
  refine writes_block ?_ (by decide) .depth .depth
  exact .assignment <| .assignment <| .assignment .nil

theorem writes_stencilOp (kind : SettingKind) :
    (Grammar.stencilOp kind).Writes (Single (Block kind .stencilOp Sentence.stencilOp)) := by
  refine writes_rowOrBlock (List.cons_ne_nil _ _) (by decide) rfl ?_ (by decide) kind .stencilOp
  exact .assignment <| .assignment <| .assignment <| .assignment .nil

theorem writes_stencil :
    Grammar.stencil.Writes (Single (Block .stencil .stencil Sentence.stencil)) := by
  refine writes_block ?_ (by decide) .stencil .stencil
  exact .assignment <| .assignment <| .assignment <| .assignment <| .cons (writes_stencilOp _) <|
    .cons (writes_stencilOp _) .nil

theorem writes_blendDef (kind : SettingKind) :
    (Grammar.blendDef kind).Writes (Single (Block kind .blendDef Sentence.blendDef)) := by
  refine writes_rowOrBlock (List.cons_ne_nil _ _) (by decide) rfl ?_ (by decide) kind .blendDef
  exact .assignment <| .assignment <| .assignment .nil

theorem writes_target : Grammar.target.Writes (Single (Block .target .target Sentence.target)) := by
  refine writes_block ?_ (by decide) .target .target
  exact .assignment <| .assignment <| .assignment <| .cons (writes_blendDef _) <|
    .cons (writes_blendDef _) .nil

theorem writes_blend : Grammar.blend.Writes (Single (Block .blend .blend Sentence.blend)) := by
  refine writes_block ?_ (by decide) .blend .blend
  exact .assignment <| .assignment <| .cons writes_target .nil

theorem writes_code : Grammar.code.Writes (Single (Block .code .code Sentence.code)) :=
  writes_nested (writes_take _ _).describes _ _

theorem tabulated_states : Tabulated Grammar.states Sentence.states :=
  .cons writes_code <| .cons writes_raster <| .cons writes_depth <| .cons writes_stencil <|
    .cons writes_blend .nil

theorem writes_pass : Grammar.pass.Writes (Single (Block .pass .pass Sentence.pass)) :=
  writes_block (.assignment tabulated_states) (by decide) .pass .pass

theorem writes_tags : Grammar.tags.Writes (Single (Block .tags .tags Sentence.tags)) := by
  refine writes_nested (writes_assigned ?_).describes .tags .tags
  exact writes_rowOrNothing (writes_take _ _) rfl (by decide)

theorem writes_variationOption :
    Grammar.variationOption.Writes
      (Single (Block .variationOption .variationOption Sentence.variationOption)) :=
  writes_nested (describes_attributed (writes_take _ _).describes) _ _

theorem writes_variation :
    Grammar.variation.Writes (Single (Block .variation .variation Sentence.variation)) := by
  refine writes_nested (describes_attributed (describes_optional (describes_named ?_) _)) _ _
  exact writes_assigned (writes_rowOrNothing writes_variationOption rfl (by decide))

theorem writes_variations :
    Grammar.variations.Writes (Single (Block .variations .variations Sentence.variations)) :=
  writes_nested (writes_assigned (writes_body writes_variation)).describes _ _

theorem describes_shader : Grammar.shader.Describes Sentence.shader := by
  refine describes_named (writes_opening (writes_statements ?_ (by decide)))
  refine Tabulated.append ?_ tabulated_states
  exact .assignment <| .cons (writes_take _ _) <| .cons writes_tags <| .cons writes_variations <|
    .cons writes_pass .nil

theorem describes_subShader : Grammar.subShader.Describes Sentence.subShader :=
  describes_named (writes_take _ _)

end Form
end ShaderLang
