import Mathlib.Algebra.Order.Ring.Nat
import Mathlib.Data.List.Nodup
import Mathlib.Logic.ExistsUnique
import ShaderLang.Proofs.Grammar.Reading
/-!
# The order of blocks

The blocks of a description form a tree. Every block stands behind the blocks that it refers to, the
root comes last, and every other block is referred to at exactly one place. What stands under a
setting is a block of the kind that belongs to the setting.

## Main definitions

* `SettingKind.block?` — the kind of block that belongs to a kind of setting
* `Tree.Typed` — every block of a tree is of the kind that belongs to its setting
* `Arena.RefersAt` — the places at which a block is referred to
* `Arena.child?` — the block of a value, if it is of a given kind
* `Arena.Postorder` — blocks in a row are a typed tree
* `Arena.Linear` — the same while blocks are laid out and some are not referred to yet

## Main results

* `Form.typed_of_derives` — a form writes typed settings if its blocks are typed
* `Arena.Linear.layOut` — laying out a tree keeps blocks linear
* `Arena.postorder_of_ofTokens` — the blocks that are read form a typed tree in postorder
-/

namespace ShaderLang

namespace SettingKind

/-- The kind of block that belongs to a kind of setting. -/
def block? : SettingKind → Option NodeKind
  | options => some .options
  | shader => some .shader
  | mixin => some .mixin
  | subShader => some .subShader
  | tags => some .tags
  | variations => some .variations
  | variation => some .variation
  | variationOption => some .variationOption
  | attributes => some .attributes
  | pass => some .pass
  | code => some .code
  | blend => some .blend
  | raster => some .raster
  | depth => some .depth
  | stencil => some .stencil
  | stencilOpFront => some .stencilOp
  | stencilOpBack => some .stencilOp
  | target => some .target
  | color => some .blendDef
  | alpha => some .blendDef
  | _ => none

end SettingKind

/-! ## Typed trees -/

/-- Every block of a tree is of the kind that belongs to its setting. -/
inductive Tree.Typed : Tree → Prop
  | node {e : Entry Tree}
      (hkind : ∀ s ∈ e.settings, ∀ t, s.value = .node t → s.kind.block? = some t.kind)
      (hs : ∀ s ∈ e.settings, ∀ t, s.value = .node t → t.Typed) : Typed (.node e)

/-- The block under a setting, if there is one, is of its kind and typed. -/
def Setting.Typed (s : Setting Tree) : Prop :=
  ∀ t, s.value = .node t → s.kind.block? = some t.kind ∧ t.Typed

theorem Tree.typed_node_iff {e : Entry Tree} :
    (Tree.node e).Typed ↔ ∀ s ∈ e.settings, s.Typed := by
  constructor
  · rintro ⟨hkind, hs⟩ s hmem t ht
    exact ⟨hkind s hmem t ht, hs s hmem t ht⟩
  · intro h
    exact .node (fun s hmem t ht => (h s hmem t ht).1) fun s hmem t ht => (h s hmem t ht).2

theorem Setting.typed_leaf (kind : SettingKind) (l : Leaf) :
    Setting.Typed ⟨kind, .leaf l⟩ := by
  rintro t ⟨⟩

theorem Setting.typed_node_iff {kind : SettingKind} {t : Tree} :
    Setting.Typed ⟨kind, .node t⟩ ↔ kind.block? = some t.kind ∧ t.Typed := by
  simp [Setting.Typed]

namespace Parts

/-- The settings of both parts are typed. -/
def Typed (p : Parts) : Prop := ∀ s ∈ p.header ++ p.body, s.Typed

theorem typed_none : none.Typed := by simp [Typed, none]

theorem Typed.append {p q : Parts} (hp : p.Typed) (hq : q.Typed) : (p ++ q).Typed := by
  intro s hs
  simp only [header_append, body_append, List.mem_append] at hs
  rcases hs with (hs | hs) | hs | hs
  · exact hp s (by simp [hs])
  · exact hq s (by simp [hs])
  · exact hp s (by simp [hs])
  · exact hq s (by simp [hs])

theorem typed_one_iff {kind : SettingKind} {v : Value Tree} :
    (one kind v).Typed ↔ Setting.Typed ⟨kind, v⟩ := by simp [Typed]

theorem Typed.tree {p : Parts} (hp : p.Typed) (kind : NodeKind) : (p.tree kind).Typed := by
  refine Tree.typed_node_iff.2 fun s hs => hp s ?_
  simpa [Entry.ofParts] using hs

end Parts

namespace Form

/-- Every nested block of a form is of the kind that belongs to its setting. -/
def typed : Form → Bool
  | seq first second => first.typed && second.typed
  | nested kind block inside => kind.block? = some block && inside.typed
  | ifNext _ yes no => yes.typed && no.typed
  | body statement => statement.typed
  | commas _ item => item.typed
  | _ => true

theorem typed_of_statements {S : List Token → Parts → Prop} (hS : ∀ {ts p}, S ts p → p.Typed)
    {ts : List Token} {p : Parts} (h : Statements S ts p) : p.Typed := by
  induction h with
  | close => exact Parts.typed_none
  | semicolon _ ih => exact ih
  | statement h _ ih => exact (hS h).append ih

theorem typed_of_items {S : List Token → Parts → Prop} {close : Punct}
    (hS : ∀ {ts p}, S ts p → p.Typed) {ts : List Token} {p : Parts} (h : Items S close ts p) :
    p.Typed := by
  induction h with
  | last h => exact hS h
  | more h _ ih => exact (hS h).append ih

/-- A form writes typed settings if its blocks are typed. -/
theorem typed_of_derives {f : Form} (hf : f.typed = true) {ts : List Token} {p : Parts}
    (h : f.Derives ts p) : p.Typed := by
  induction f generalizing ts p with
  | empty | eat =>
    obtain rfl : p = .none := by
      simp only [Derives] at h
      grind
    exact Parts.typed_none
  | fail => exact h.elim
  | header kind l =>
    obtain ⟨t, leaf, -, -, rfl⟩ := h
    simpa [Parts.Typed] using Setting.typed_leaf kind leaf
  | take kind l =>
    obtain ⟨t, leaf, -, -, rfl⟩ := h
    exact Parts.typed_one_iff.2 (Setting.typed_leaf kind leaf)
  | flag kind =>
    obtain ⟨-, rfl⟩ := h
    exact Parts.typed_one_iff.2 (Setting.typed_leaf kind _)
  | seq a b iha ihb =>
    simp only [typed, Bool.and_eq_true] at hf
    obtain ⟨us, vs, q, r, ha, hb, -, rfl⟩ := h
    exact (iha hf.1 ha).append (ihb hf.2 hb)
  -- Only here is a block made, of settings that are typed inside it.
  | nested kind block inside ih =>
    simp only [typed, Bool.and_eq_true, decide_eq_true_eq] at hf
    obtain ⟨q, hq, rfl⟩ := h
    exact Parts.typed_one_iff.2 (Setting.typed_node_iff.2 ⟨hf.1, (ih hf.2 hq).tree block⟩)
  | ifNext kind yes no ihyes ihno =>
    simp only [typed, Bool.and_eq_true] at hf
    simp only [Derives] at h
    split at h
    · exact ihyes hf.1 h
    · exact ihno hf.2 h
  | body statement ih => exact typed_of_statements (ih hf) h
  | commas close item ih => exact typed_of_items (ih hf) h

end Form

namespace Grammar

/-- The blocks of the forms at the top are typed. -/
theorem typed_top {k : Keyword} {f : Form} (h : top? k = some f) : f.typed = true := by
  have hshader : shader.typed = true := by decide
  cases k <;> cases h
  case options => decide
  case shader => exact hshader
  case mixin => exact hshader
  case subShader => decide

/-- What is read to the end is typed. -/
theorem typed_of_readTop {ts : List PlacedToken} {p : Parts} (h : readTop ts = .ok p) :
    p.Typed :=
  readTop_induction (P := fun _ p => p.Typed) Parts.typed_none id
    (fun hf hp hq => (Form.typed_of_derives (typed_top hf) hp).append hq) h

end Grammar

/-- The tree of a description is typed, and its root is one. -/
theorem Tree.typed_of_ofTokens {ts : List PlacedToken} {t : Tree} (h : Tree.ofTokens ts = .ok t) :
    t.Typed ∧ t.kind = .root := by
  simp only [Tree.ofTokens] at h
  split at h
  · next p hp =>
    cases h
    exact ⟨(Grammar.typed_of_readTop hp).tree .root, rfl⟩
  · cases h

/-! ## References -/

namespace Setting

/-- The numbers of the blocks under settings. -/
def ids (ss : List (Setting Nat)) : List Nat := ss.filterMap (·.value.node?)

theorem mem_ids_iff {ss : List (Setting Nat)} {id : Nat} :
    id ∈ ids ss ↔ ∃ kind, ⟨kind, .node id⟩ ∈ ss := by
  constructor
  · intro h
    obtain ⟨⟨kind, v⟩, hs, hv⟩ := List.mem_filterMap.1 h
    cases v with
    | leaf l => cases hv
    | node n =>
      cases hv
      exact ⟨kind, hs⟩
  · rintro ⟨kind, hs⟩
    exact List.mem_filterMap.2 ⟨_, hs, rfl⟩

end Setting

namespace Arena

/-- The numbers that the blocks of an arena refer to. -/
def ids (a : Arena) : List Nat := a.nodes.toList.flatMap fun e => Setting.ids e.settings

@[simp] theorem ids_alloc (a : Arena) (e : Entry Nat) :
    (a.alloc e).2.ids = a.ids ++ Setting.ids e.settings := by
  simp [ids, alloc]

/-- The `i`-th setting of block `k` refers to block `id`. -/
def RefersAt (a : Arena) (k i id : Nat) : Prop :=
  ∃ e kind, a.get? k = some e ∧ e.settings[i]? = some ⟨kind, .node id⟩

/-- The block of a value, if it is of a given kind. -/
def child? (a : Arena) (v : Value Nat) (kind : NodeKind) : Option (Entry Nat) :=
  (v.node?.bind a.get?).filter (·.kind = kind)

/-- Blocks in a row are a typed tree in postorder. -/
structure Postorder (a : Arena) (root : Nat) : Prop where
  /-- The root is the last block. -/
  last : root + 1 = a.size
  kind_root : ∃ e, a.get? root = some e ∧ e.kind = .root
  /-- A block stands behind those that it refers to. -/
  behind : ∀ k i id, a.RefersAt k i id → id < k
  /-- Every block but the root, and only such a one, is referred to at exactly one place. -/
  once : ∀ id, (∃! place : Nat × Nat, a.RefersAt place.1 place.2 id) ↔ id < root
  /-- The block under a setting is of the kind that belongs to the setting, and is found as one. -/
  child : ∀ k e s id, a.get? k = some e → s ∈ e.settings → s.value = .node id →
    ∃ kind d, s.kind.block? = some kind ∧ a.get? id = some d ∧ d.kind = kind ∧
      a.child? s.value kind = some d

/-- The block under a setting, if there is one, is there and of the kind that belongs to it. -/
def Fits (a : Arena) (s : Setting Nat) : Prop :=
  ∀ id, s.value = .node id → ∃ d, a.get? id = some d ∧ s.kind.block? = some d.kind

theorem fits_leaf (a : Arena) (kind : SettingKind) (l : Leaf) : a.Fits ⟨kind, .leaf l⟩ := by
  rintro id ⟨⟩

theorem Fits.mono {a b : Arena} (hab : a.Extends b) {s : Setting Nat} (h : a.Fits s) :
    b.Fits s := by
  intro id hid
  obtain ⟨d, hd, hkind⟩ := h id hid
  exact ⟨d, hab id d hd, hkind⟩

theorem get?_eq_some_lt {a : Arena} {k : Nat} {e : Entry Nat} (h : a.get? k = some e) :
    k < a.size := (Array.getElem?_eq_some_iff.1 h).1

theorem get?_alloc_eq_some_iff {a : Arena} {e d : Entry Nat} {k : Nat} :
    (a.alloc e).2.get? k = some d ↔ a.get? k = some d ∨ k = a.size ∧ d = e := by
  constructor
  · intro h
    have hlt := get?_eq_some_lt h
    rw [size_alloc] at hlt
    by_cases hk : k = a.size
    · subst hk
      rw [get?_alloc] at h
      exact .inr ⟨rfl, (Option.some.inj h).symm⟩
    · have hne : k ≠ a.nodes.size := hk
      exact .inl (by simpa [get?, alloc, Array.getElem?_push, hne] using h)
  · rintro (h | ⟨rfl, rfl⟩)
    · exact extends_alloc a e k d h
    · exact get?_alloc a d

/-- Every block is referred to once, except for those of the given numbers, to which nothing refers
yet. These are the blocks of settings that have no block of their own so far. -/
structure Linear (a : Arena) (free : List Nat) : Prop where
  /-- Every number occurs once. -/
  once : (a.ids ++ free).Perm (List.range a.size)
  /-- A block stands behind the blocks that it refers to. -/
  behind : ∀ {k i id}, a.RefersAt k i id → id < k
  /-- The blocks under settings are of their kinds. -/
  fits : ∀ {k e}, a.get? k = some e → ∀ s ∈ e.settings, a.Fits s

theorem linear_empty : empty.Linear [] where
  once := .nil
  behind := by
    rintro k i id ⟨e, kind, h, -⟩
    simp [empty, get?] at h
  fits := by
    intro k e h
    simp [empty, get?] at h

/-- A further block takes up blocks that nothing refers to, and nothing refers to it. -/
theorem Linear.alloc {a : Arena} {ss : List (Setting Nat)} {free : List Nat}
    (h : a.Linear (Setting.ids ss ++ free)) (hs : ∀ s ∈ ss, a.Fits s) (kind : NodeKind) :
    (a.alloc ⟨kind, ss⟩).2.Linear (a.size :: free) where
  once := by
    rw [ids_alloc, size_alloc, List.range_succ]
    refine List.perm_middle.trans ((List.perm_append_singleton _ _).symm.trans ?_)
    rw [List.append_assoc a.ids]
    exact h.once.append_right _
  behind := by
    rintro k i id ⟨e, settingKind, he, hi⟩
    rcases get?_alloc_eq_some_iff.1 he with he | ⟨rfl, rfl⟩
    · exact h.behind ⟨e, settingKind, he, hi⟩
    · obtain ⟨d, hd, -⟩ := hs _ (List.mem_of_getElem? hi) id rfl
      exact get?_eq_some_lt hd
  fits := by
    intro k e he s hmem
    have hmono := Fits.mono (extends_alloc a ⟨kind, ss⟩) (s := s)
    rcases get?_alloc_eq_some_iff.1 he with he | ⟨rfl, rfl⟩
    · exact hmono (h.fits he s hmem)
    · exact hmono (hs s hmem)

theorem kind_layOut (t : Tree) (a : Arena) :
    ∃ d, (layOut t a).2.get? (layOut t a).1 = some d ∧ d.kind = t.kind := by
  obtain ⟨h, hkind, -⟩ := holds_layOut t a
  exact ⟨_, h, hkind⟩

mutual

/-- Laying out a tree keeps blocks linear; nothing refers to its root yet. -/
theorem Linear.layOut {free : List Nat} : ∀ {t : Tree} {a : Arena}, a.Linear free → t.Typed →
    (layOut t a).2.Linear ((layOut t a).1 :: free)
  | .node ⟨kind, settings⟩, a, h, ht => by
    obtain ⟨hlinear, hfits⟩ := h.layOutAll (Tree.typed_node_iff.1 ht)
    rw [Arena.layOut]
    exact hlinear.alloc hfits kind

theorem Linear.layOutAll {free : List Nat} : ∀ {ss : List (Setting Tree)} {a : Arena},
    a.Linear free → (∀ s ∈ ss, s.Typed) →
    (layOutAll ss a).2.Linear (Setting.ids (layOutAll ss a).1 ++ free) ∧
      ∀ s ∈ (layOutAll ss a).1, (layOutAll ss a).2.Fits s
  | [], a, h, _ => ⟨h, by simp [Arena.layOutAll]⟩
  | ⟨kind, .leaf l⟩ :: ss, a, h, hs => by
    obtain ⟨hlinear, hfits⟩ := h.layOutAll (List.forall_mem_cons.1 hs).2
    simp only [Arena.layOutAll]
    exact ⟨hlinear, List.forall_mem_cons.2 ⟨fits_leaf _ _ _, hfits⟩⟩
  | ⟨kind, .node t⟩ :: ss, a, h, hs => by
    obtain ⟨ht, hs⟩ := List.forall_mem_cons.1 hs
    obtain ⟨hkind, ht⟩ := Setting.typed_node_iff.1 ht
    obtain ⟨hlinear, hfits⟩ := h.layOutAll hs
    obtain ⟨d, hd, hdkind⟩ := kind_layOut t (Arena.layOutAll ss a).2
    simp only [Arena.layOutAll]
    refine ⟨hlinear.layOut ht, List.forall_mem_cons.2 ⟨?_, fun s hmem => ?_⟩⟩
    · rintro id ⟨⟩
      exact ⟨d, hd, hkind.trans (congrArg some hdkind.symm)⟩
    · exact (hfits s hmem).mono (extends_layOut t _)

end

theorem linear_ofTree {t : Tree} (h : t.Typed) : (ofTree t).2.Linear [(ofTree t).1] :=
  linear_empty.layOut h

/-! ## The places of references -/

theorem get?_eq_getElem? (a : Arena) (k : Nat) : a.get? k = a.nodes.toList[k]? := by
  rw [Array.getElem?_toList]
  rfl

/-- A number occurs exactly if a block refers to it. -/
theorem mem_ids_iff {a : Arena} {id : Nat} : id ∈ a.ids ↔ ∃ k i, a.RefersAt k i id := by
  simp only [ids, List.mem_flatMap, Setting.mem_ids_iff, RefersAt, get?_eq_getElem?]
  constructor
  · rintro ⟨e, he, kind, hs⟩
    obtain ⟨k, hk⟩ := List.mem_iff_getElem?.1 he
    obtain ⟨i, hi⟩ := List.mem_iff_getElem?.1 hs
    exact ⟨k, i, e, kind, hk, hi⟩
  · rintro ⟨k, i, e, kind, hk, hi⟩
    exact ⟨e, List.mem_of_getElem? hk, kind, List.mem_of_getElem? hi⟩

/-- Two places of a list agree if what stands there is not related. -/
theorem eq_of_pairwise_of_not {α : Type} {R : α → α → Prop} {l : List α} (h : l.Pairwise R)
    {i j : Nat} {x y : α} (hx : l[i]? = some x) (hy : l[j]? = some y) (hxy : ¬ R x y)
    (hyx : ¬ R y x) : i = j := by
  obtain ⟨hi, rfl⟩ := List.getElem?_eq_some_iff.1 hx
  obtain ⟨hj, rfl⟩ := List.getElem?_eq_some_iff.1 hy
  rcases Nat.lt_trichotomy i j with hlt | heq | hgt
  · exact absurd (List.pairwise_iff_getElem.1 h i j hi hj hlt) hxy
  · exact heq
  · exact absurd (List.pairwise_iff_getElem.1 h j i hj hi hgt) hyx

/-- If no number occurs twice, then a block is referred to at one place only. -/
theorem RefersAt.unique {a : Arena} (hnodup : a.ids.Nodup) {k k' i i' id : Nat}
    (h : a.RefersAt k i id) (h' : a.RefersAt k' i' id) : k = k' ∧ i = i' := by
  obtain ⟨e, kind, he, hi⟩ := h
  obtain ⟨e', kind', he', hi'⟩ := h'
  rw [get?_eq_getElem?] at he he'
  obtain ⟨hinner, houter⟩ := List.nodup_flatMap.1 hnodup
  have hmem : id ∈ Setting.ids e.settings :=
    Setting.mem_ids_iff.2 ⟨kind, List.mem_of_getElem? hi⟩
  have hmem' : id ∈ Setting.ids e'.settings :=
    Setting.mem_ids_iff.2 ⟨kind', List.mem_of_getElem? hi'⟩
  -- Two blocks have no number in common, and two settings of a block have different ones.
  obtain rfl : k = k' := by
    refine eq_of_pairwise_of_not houter he he' ?_ ?_
    · exact fun hdisjoint => hdisjoint hmem hmem'
    · exact fun hdisjoint => hdisjoint hmem' hmem
  obtain rfl : e = e' := Option.some.inj (he.symm.trans he')
  have hsettings := List.pairwise_filterMap.1 (hinner e (List.mem_of_getElem? he))
  refine ⟨rfl, eq_of_pairwise_of_not hsettings hi hi' ?_ ?_⟩ <;> simp [Value.node?]

/-- If only the last block is not referred to, then each block before it is so at one place. -/
theorem Linear.refersAt_iff {a : Arena} {root : Nat} (h : a.Linear [root])
    (hroot : root + 1 = a.size) (id : Nat) :
    (∃! p : Nat × Nat, a.RefersAt p.1 p.2 id) ↔ id < root := by
  have hids : a.ids.Perm (List.range root) := by
    have honce := h.once
    rw [← hroot, List.range_succ] at honce
    exact (List.perm_append_right_iff [root]).1 honce
  rw [← List.mem_range, ← hids.mem_iff]
  constructor
  · rintro ⟨⟨k, i⟩, hrefers, -⟩
    exact mem_ids_iff.2 ⟨k, i, hrefers⟩
  · intro hmem
    obtain ⟨k, i, hrefers⟩ := mem_ids_iff.1 hmem
    refine ⟨(k, i), hrefers, fun p hp => ?_⟩
    obtain ⟨hk, hi⟩ := hp.unique (hids.nodup_iff.2 List.nodup_range) hrefers
    exact Prod.ext hk hi

end Arena

/-- The blocks that are read form a typed tree in postorder. -/
theorem Arena.postorder_of_ofTokens {ts : List PlacedToken} {root : Nat} {a : Arena}
    (h : Arena.ofTokens ts = .ok (root, a)) : a.Postorder root := by
  obtain ⟨t, ht, heq⟩ := Outcome.map_eq_ok_iff.1 h
  obtain ⟨htyped, hkind⟩ := Tree.typed_of_ofTokens ht
  have hlinear := linear_ofTree htyped
  have hlast : (ofTree t).1 + 1 = (ofTree t).2.size := by
    rw [size_ofTree, ofTree, fst_layOut]
    exact Nat.zero_add _
  have hroot : ∃ d, (ofTree t).2.get? (ofTree t).1 = some d ∧ d.kind = t.kind :=
    kind_layOut t empty
  rw [heq] at hlinear hlast hroot
  rw [hkind] at hroot
  refine ⟨hlast, hroot, fun k i id => hlinear.behind, hlinear.refersAt_iff hlast, ?_⟩
  intro k e s id he hs hid
  obtain ⟨d, hd, hblock⟩ := hlinear.fits he s hs id hid
  exact ⟨d.kind, d, hblock, hd, rfl, by simp [child?, hid, Value.node?, hd]⟩

/-- A shader with a pass that holds a captured block has four blocks with the root. -/
theorem postorder_of_pass :
    ∃ a, Arena.ofTokens
      ([.keyword .shader, .identifier "A", .punct .blockStart, .keyword .pass, .punct .blockStart,
        .keyword .code, .rawBlock 0, .punct .blockEnd, .punct .blockEnd].map
        fun t => ⟨.none, 1, 1, t⟩) = .ok (3, a) ∧ a.Postorder 3 := by
  have hroot : ((Arena.ofTokens
      ([.keyword .shader, .identifier "A", .punct .blockStart, .keyword .pass, .punct .blockStart,
        .keyword .code, .rawBlock 0, .punct .blockEnd, .punct .blockEnd].map
        fun t => ⟨.none, 1, 1, t⟩)).toOption.map Prod.fst) = some 3 := by decide +kernel
  obtain ⟨⟨root, a⟩, h, rfl⟩ := Option.map_eq_some_iff.1 hroot
  have hread := Outcome.toOption_eq_some_iff.1 h
  exact ⟨a, hread, Arena.postorder_of_ofTokens hread⟩

end ShaderLang
