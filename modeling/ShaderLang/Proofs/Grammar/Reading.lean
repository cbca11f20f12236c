import ShaderLang.Proofs.Grammar.Arena
import ShaderLang.Proofs.Grammar.Description
/-!
# Reading descriptions

Reading accepts exactly the sentences of the language and gives the tree of the sentence that was
read. A row of tokens has at most one tree.

## Main results

* `Grammar.predictive_top` — the forms at the top decide by the next token and end by themselves
* `Grammar.readTop_induction` — what is read is put together from rows of the forms at the top
* `Tree.ofTokens_eq_ok_iff` — the tree that is read is the one of the sentence
* `Arena.ofTokens_eq_ok_iff_sentence` — the same for the blocks in a row
-/

namespace ShaderLang

open Form (tokens isMark isMark_iff isMark_eq_false)

namespace Grammar

/-- The forms at the top decide by the next token and end by themselves. -/
theorem predictive_top {k : Keyword} {f : Form} (h : top? k = some f) :
    f.predictive = true ∧ f.goesOn = [] := by
  have hshader : shader.predictive = true ∧ shader.goesOn = [] := by decide
  cases k <;> cases h
  case options => decide
  case shader => exact hshader
  case mixin => exact hshader
  case subShader => decide

theorem keyed_iff {k k' : Keyword} {S : Sentence.Statement} {ts : List Token} {i : Setting Tree} :
    Sentence.Keyed k S (.keyword k' :: ts) i ↔ k = k' ∧ S ts i := by
  constructor
  · rintro ⟨h⟩
    exact ⟨rfl, h⟩
  · rintro ⟨rfl, h⟩
    exact ⟨h⟩

/-- The form behind a keyword at the top describes what the sentences have there. -/
theorem writes_top {k : Keyword} {f : Form} (h : top? k = some f) :
    f.Writes (Sentence.Single fun ts i => Sentence.top (.keyword k :: ts) i) := by
  have hshader := @Form.writes_nested _ _ Form.describes_shader
  cases k <;> cases h
  all_goals simp only [Sentence.top, Sentence.OneOf, List.exists_mem_cons_iff, keyed_iff,
    List.not_mem_nil, false_and, exists_false, reduceCtorEq, true_and, or_false, false_or]
  · exact Form.writes_nested Form.describes_options _ _
  · exact hshader _ _
  · exact Form.writes_nested Form.describes_subShader _ _
  · exact hshader _ _

theorem keyword_of_top {ts : List Token} {i : Setting Tree} (h : Sentence.top ts i) :
    ∃ k us f, ts = .keyword k :: us ∧ top? k = some f := by
  obtain ⟨S, hS, h⟩ := h
  simp only [List.mem_cons, List.not_mem_nil, or_false] at hS
  rcases hS with rfl | rfl | rfl | rfl <;> obtain ⟨h⟩ := h
  all_goals exact ⟨_, _, _, rfl, rfl⟩

/-- What is read to the end is put together from semicolons and from rows that the forms at the top
describe. -/
theorem readTop_induction {P : List Token → Parts → Prop} (done : P [] .none)
    (semicolon : ∀ {ts p}, P ts p → P (.punct .break :: ts) p)
    (block : ∀ {k f us vs p q}, top? k = some f → f.Derives us p → P vs q →
      P (.keyword k :: us ++ vs) (p ++ q))
    {ts : List PlacedToken} {p : Parts} (h : readTop ts = .ok p) : P (tokens ts) p := by
  fun_induction readTop ts generalizing p with
  | case1 =>
    cases h
    exact done
  | case2 t rest hbreak ih =>
    rw [tokens, List.map_cons, isMark_iff.1 hbreak]
    exact semicolon (ih h)
  | case3 => cases h
  | case4 => cases h
  | case5 => cases h
  | case6 t rest _ k hk f hf q ts' hq hle more hmore ih =>
    cases h
    obtain ⟨used, rfl, hused⟩ := Form.derives_of_read (predictive_top hf).1 hq
    rw [tokens, List.map_cons, List.map_append, hk]
    exact block hf hused (ih hmore)
  | case7 t rest _ k hk f hf q ts' hq hle =>
    -- A form never gives back more tokens than it was given.
    obtain ⟨used, rfl, -⟩ := Form.derives_of_read (predictive_top hf).1 hq
    simp at hle
  | case8 => cases h

/-- What is read to the end is a sentence, with its settings. -/
theorem root_of_readTop {ts : List PlacedToken} {p : Parts} (h : readTop ts = .ok p) :
    p.header = [] ∧ Sentence.Root (tokens ts) p.body := by
  refine readTop_induction (P := fun ts p => p.header = [] ∧ Sentence.Root ts p.body)
    ⟨rfl, .done⟩ (fun h => ⟨h.1, h.2.semicolon⟩) (fun {k f us vs p q} hf hp hq => ?_) h
  obtain ⟨i, ⟨htop⟩, rfl⟩ := (writes_top hf _ _).1 hp
  exact ⟨hq.1, .block htop hq.2⟩

/-- Every sentence is read to the end. -/
theorem readTop_of_root {ts : List PlacedToken} {items : List (Setting Tree)}
    (h : Sentence.Root (tokens ts) items) : readTop ts = .ok ⟨[], items⟩ := by
  generalize hts : tokens ts = us at h
  induction h generalizing ts with
  | done =>
    rw [List.map_eq_nil_iff.1 hts, readTop]
    rfl
  | semicolon _ ih =>
    obtain ⟨t, ts, rfl, ht, hts⟩ := List.map_eq_cons_iff.1 hts
    rw [readTop, isMark_iff.2 ht]
    exact ih hts
  | @block us vs i items htop _ ih =>
    obtain ⟨first, others, rfl, rfl, hothers⟩ := List.map_eq_append_iff.1 hts
    -- The keyword in front selects the form, and that reads exactly the tokens of the block.
    obtain ⟨k, ws, f, hfirst, hf⟩ := keyword_of_top htop
    obtain ⟨t, first, rfl, ht, rfl⟩ := List.map_eq_cons_iff.1 hfirst
    obtain ⟨hpred, hends⟩ := predictive_top hf
    have hderives : f.Derives (tokens first) ⟨[], [i]⟩ := by
      refine (writes_top hf _ _).2 ⟨[i], ⟨?_⟩, rfl⟩
      rw [← ht]
      exact htop
    have hread : f.read (first ++ others) = .ok (⟨[], [i]⟩, others) :=
      (Form.read_eq_ok_iff hpred hends).2 ⟨first, rfl, hderives⟩
    have hlen : others.length ≤ (first ++ others).length := by simp
    rw [List.cons_append, readTop, isMark_eq_false (by simp [ht])]
    simp only [ht, hf, hread, ih hothers, Bool.false_eq_true, if_false, if_pos hlen]
    rfl

end Grammar

/-- The tree that is read is the one of the sentence. -/
theorem Tree.ofTokens_eq_ok_iff {ts : List PlacedToken} {t : Tree} :
    Tree.ofTokens ts = .ok t ↔ Sentence (tokens ts) t := by
  constructor
  · intro h
    simp only [Tree.ofTokens] at h
    split at h
    · next p hp =>
      cases h
      -- The root has no header, so that its items are those of the body.
      obtain ⟨hheader, hroot⟩ := Grammar.root_of_readTop hp
      refine ⟨p.body, hroot, ?_⟩
      rw [Parts.tree_eq_declaring, Parts.items, hheader, List.reverse_nil, List.append_nil]
    · cases h
  · rintro ⟨items, hroot, rfl⟩
    rw [Tree.ofTokens, Grammar.readTop_of_root hroot]
    simp [Parts.tree_eq_declaring, Parts.items]

/-- A row of tokens is read exactly if it is a sentence. The blocks in a row then hold its tree and
no other at their root, and they are as many as the nodes of the tree. -/
theorem Arena.ofTokens_eq_ok_iff_sentence (ts : List PlacedToken) :
    ((∃ r, Arena.ofTokens ts = .ok r) ↔ ∃ t, Sentence (tokens ts) t) ∧
    ∀ t, Sentence (tokens ts) t ↔
      ∃ root a, Arena.ofTokens ts = .ok (root, a) ∧ (∀ d, a.Holds root d ↔ d = t) ∧
        a.size = t.size := by
  -- The blocks are laid out from the tree, and the tree is the one of the sentence.
  have hok {r : Nat × Arena} :
      Arena.ofTokens ts = .ok r ↔ ∃ t, Sentence (tokens ts) t ∧ Arena.ofTree t = r := by
    simp only [Arena.ofTokens, Outcome.map_eq_ok_iff, Tree.ofTokens_eq_ok_iff]
  refine ⟨?_, fun t => ⟨fun ht => ?_, ?_⟩⟩
  · constructor
    · rintro ⟨r, hr⟩
      obtain ⟨t, ht, -⟩ := hok.1 hr
      exact ⟨t, ht⟩
    · rintro ⟨t, ht⟩
      exact ⟨_, hok.2 ⟨t, ht, rfl⟩⟩
  · refine ⟨_, _, hok.2 ⟨t, ht, rfl⟩, fun d => ⟨fun hd => ?_, ?_⟩, Arena.size_ofTree t⟩
    · exact hd.unique (Arena.holds_ofTree t)
    · rintro rfl
      exact Arena.holds_ofTree d
  · rintro ⟨root, a, ha, hholds, -⟩
    -- The blocks hold the tree that they were laid out from, and no other.
    obtain ⟨u, hu, heq⟩ := hok.1 ha
    have hroot := Arena.holds_ofTree u
    rw [heq] at hroot
    rw [← (hholds u).1 hroot]
    exact hu

/-- A mixin that sets the culling, and a write mask by its channels. -/
def casedMixin (culling channels : String) : List PlacedToken :=
  [.keyword .mixin, .identifier "M", .punct .blockStart,
    .keyword .raster, .punct .blockStart, .keyword .cull, .punct .eq, .identifier culling,
    .punct .blockEnd,
    .keyword .blend, .punct .blockStart, .keyword .target, .punct .blockStart,
    .keyword .writeMask, .punct .eq, .identifier channels, .punct .blockEnd, .punct .blockEnd,
    .punct .blockEnd].map fun t => ⟨.none, 1, 1, t⟩

/-- The tree of the mixin with culling counter-clockwise and all channels but the green one. -/
def casedTree : Tree :=
  .declaring .root [⟨.mixin, .node (.declaring .mixin
    [⟨.raster, .node (.declaring .raster [⟨.cullMode, .leaf (.cullAndQueue .ccw)⟩])⟩,
      ⟨.blend, .node (.declaring .blend
        [⟨.target, .node (.declaring .target [⟨.writeMask, .leaf (.colorMask 13)⟩])⟩])⟩,
      ⟨.identifier, .leaf (.str "M")⟩])⟩]

/-- Words are found in any case, and the Kelvin sign is no letter. -/
theorem Arena.ofTokens_eq_ok_iff_sentence_cased :
    Sentence (tokens (casedMixin "CcW" "bRaR")) casedTree ∧
      (∃ root a, Arena.ofTokens (casedMixin "CcW" "bRaR") = .ok (root, a) ∧
        (∀ d, a.Holds root d ↔ d = casedTree) ∧ a.size = casedTree.size) ∧
      (∃ t, Sentence (tokens (casedMixin "BackToFront" "Empty")) t) ∧
      ¬ ∃ t, Sentence (tokens (casedMixin "bac\u212atofront" "Empty")) t := by
  have hread : (Arena.ofTokens (casedMixin "CcW" "bRaR")).toOption.map (fun r => (r.1, r.2.nodes)) =
      some ((ofTree casedTree).1, (ofTree casedTree).2.nodes) := by
    decide +kernel
  obtain ⟨⟨root, ⟨nodes⟩⟩, hok, hsame⟩ := Option.map_eq_some_iff.1 hread
  obtain ⟨rfl, rfl⟩ : root = (ofTree casedTree).1 ∧ nodes = (ofTree casedTree).2.nodes := by
    simpa using hsame
  have hholds : ∀ d, (ofTree casedTree).2.Holds (ofTree casedTree).1 d ↔ d = casedTree := by
    refine fun d => ⟨fun hd => hd.unique (holds_ofTree casedTree), ?_⟩
    rintro rfl
    exact holds_ofTree casedTree
  have hblocks : ∃ root a, Arena.ofTokens (casedMixin "CcW" "bRaR") = .ok (root, a) ∧
      (∀ d, a.Holds root d ↔ d = casedTree) ∧ a.size = casedTree.size :=
    ⟨_, _, Outcome.toOption_eq_some_iff.1 hok, hholds, size_ofTree casedTree⟩
  have hfound : (Arena.ofTokens (casedMixin "BackToFront" "Empty")).toOption.isSome = true := by
    decide +kernel
  have hkelvin : (Arena.ofTokens (casedMixin "bac\u212atofront" "Empty")).toOption = none := by
    decide +kernel
  obtain ⟨r, hr⟩ := Option.isSome_iff_exists.1 hfound
  refine ⟨?_, hblocks, ?_, fun h => ?_⟩
  · exact ((Arena.ofTokens_eq_ok_iff_sentence _).2 casedTree).2 hblocks
  · exact (Arena.ofTokens_eq_ok_iff_sentence _).1.1 ⟨r, Outcome.toOption_eq_some_iff.1 hr⟩
  · obtain ⟨r, hr⟩ := (Arena.ofTokens_eq_ok_iff_sentence _).1.2 h
    rw [Outcome.toOption_eq_some_iff.2 hr] at hkelvin
    cases hkelvin

end ShaderLang
