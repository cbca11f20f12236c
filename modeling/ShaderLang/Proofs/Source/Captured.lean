import Mathlib.Data.List.Nodup
import ShaderLang.Proofs.Source.Ending
/-!
# Texts that are captured

An opening brace behind a heading starts a text that is captured verbatim. The text goes into the
blocks of the session and one token into the row of tokens, and both get the number of the text
among those of its kind. Nothing else adds a block or such a token, so that the blocks and these
tokens tell of the same texts, in the same order.

## Main definitions

* `Token.captures` — the captured blocks of a row of tokens, with the tokens before each
* `Scan.Point.Captures` — a text is captured at a point of a reading
* `Scan.Taken` — a captured text with the point of its brace
* `Scan.Logged` — the texts captured on the way to a point are those of its blocks and its tokens

## Main results

* `Scan.Logged.turn`, `Scan.Run.logged` — a move, and so every run, keeps the log
* `Scan.exists_logged` — the captured texts of a source
-/

namespace ShaderLang

/-! ## Captured blocks among tokens -/

namespace Token

/-- The captured blocks of a row of tokens: for each the tokens before it, the last one first, and
its number. The tokens `recent` stand before the row. -/
def captures (recent : List Token) : List Token → List (List Token × Nat)
  | [] => []
  | .rawBlock i :: ts => (recent, i) :: captures (.rawBlock i :: recent) ts
  | t :: ts => captures (t :: recent) ts

theorem captures_cons_of_ne {recent : List Token} {t : Token} (ht : t.kind ≠ .rawBlock)
    (ts : List Token) : captures recent (t :: ts) = captures (t :: recent) ts := by
  cases t with
  | rawBlock i => exact absurd rfl ht
  | _ => rfl

theorem captures_append (recent ts us : List Token) :
    captures recent (ts ++ us) = captures recent ts ++ captures (ts.reverse ++ recent) us := by
  induction ts generalizing recent with
  | nil => rfl
  | cons t ts ih =>
    rw [List.reverse_cons, List.append_assoc, List.singleton_append]
    cases t with
    | rawBlock i => exact congrArg (_ :: ·) (ih _)
    | _ => exact ih _

/-- The positions of captured blocks, counted with the tokens before the row. -/
theorem length_captures (recent ts : List Token) :
    (captures recent ts).map (·.1.length) = ts.findIdxs (·.kind = .rawBlock) recent.length := by
  induction ts generalizing recent with
  | nil => rfl
  | cons t ts ih =>
    by_cases ht : t.kind = .rawBlock
    · cases t with
      | rawBlock i => simp [captures, kind, ih]
      | _ => cases ht
    · rw [captures_cons_of_ne ht, ih, List.findIdxs_cons, if_neg (by simpa using ht)]
      rfl

theorem kind_ofDecimal? {negative : Bool} {cs : List Char} {t : Token}
    (h : ofDecimal? negative cs = some t) : t.kind = .float := by
  unfold ofDecimal? at h
  simp only at h
  split at h
  · split at h
    · cases h
    · obtain ⟨n, -, rfl⟩ := Option.map_eq_some_iff.1 h
      rfl
  · cases h

theorem kind_ofNumber? {word : List Char} {t : Token} (h : ofNumber? word = some t) :
    t.kind = .int ∨ t.kind = .float := by
  unfold ofNumber? at h
  extract_lets negative ds sign at h
  clear_value ds sign
  split at h
  · obtain ⟨n, -, rfl⟩ := Option.map_eq_some_iff.1 h
    exact .inl rfl
  · split at h
    · split at h
      · obtain ⟨n, -, rfl⟩ := Option.map_eq_some_iff.1 h
        exact .inl rfl
      · exact .inr (kind_ofDecimal? h)
    · exact .inr (kind_ofDecimal? h)

theorem kind_ofWord_ne (word : String) : (ofWord word).kind ≠ .rawBlock := by
  unfold ofWord
  split
  · simp [kind]
  · split
    · simp [kind]
    · split <;> simp [kind]

end Token

namespace Lexeme

theorem kind_ne_of_plain {c : Char} {cs : List Char} {t : Token}
    (h : (plain c cs).reading = .token t) : t.kind ≠ .rawBlock := by
  unfold plain at h
  split at h
  · cases h
    simp [Token.kind]
  · split at h
    · unfold number at h
      simp only at h
      split at h
      · next hnumber =>
        cases h
        rcases Token.kind_ofNumber? hnumber with hkind | hkind <;> simp [hkind]
      · cases h
    · split at h
      · cases h
        exact Token.kind_ofWord_ne _
      · cases h

/-- A lexeme is never a captured block. -/
theorem kind_ne_of_read {cs : List Char} {t : Token} (h : (read cs).reading = .token t) :
    t.kind ≠ .rawBlock := by
  unfold read at h
  split at h
  · cases h
  · cases h
  · unfold blockComment at h
    split at h <;> cases h
  · unfold string at h
    simp only at h
    split at h
    · cases h
      simp [Token.kind]
    · cases h
  · exact kind_ne_of_plain h

end Lexeme

/-! ## Blocks -/

namespace Journal

/-- A block that is opened and filled stands behind the others. -/
theorem blocks_appendBlock_beginBlock (j : Journal) (kind : BlockKind) (text : String) :
    ((j.beginBlock kind).appendBlock kind text).blocks =
      j.blocks ++ [⟨kind, j.nextIndex kind, j.defines.lines ++ text⟩] := by
  simp [beginBlock, appendBlock, appendFirst]

end Journal

namespace Scan

/-- An opening brace at a point starts a text of a kind that is captured. -/
structure Point.Captures (p : Point) (kind : BlockKind) (body : List Char) : Prop where
  enabled : p.scan.journal.isEnabled = true
  kind : p.scan.blockKind? = some kind
  brace : ∃ rest, p.frame.rest = '\x7b' :: (body ++ '\x7d' :: rest) ∧
    Capture.read .plain 0 (body ++ '\x7d' :: rest) = some (body, rest)

/-- A captured text with the point of its opening brace. -/
structure Taken where
  point : Point
  kind : BlockKind
  body : List Char

namespace Taken

/-- The number of a text among those of its kind. -/
def index (c : Taken) : Nat := c.point.scan.journal.nextIndex c.kind

/-- The token of a text stands at its opening brace. -/
def token (c : Taken) : PlacedToken :=
  ⟨c.point.frame.file, c.point.frame.place.line, c.point.frame.place.col, .rawBlock c.index⟩

/-- The block of a text: the defines at its opening brace, and the text. -/
def block (c : Taken) : CodeBlock :=
  ⟨c.kind, c.index, c.point.scan.journal.defines.lines ++ String.ofList c.body⟩

end Taken

/-! ## Texts captured on the way to a point -/

/-- The texts captured between two points are those of the blocks and of the tokens at the second
one, and they are numbered by their kinds. -/
structure Logged (includes : Includes) (start : Point) (cs : List Taken) (q : Point) : Prop where
  captures : ∀ c ∈ cs, Leads includes start c.point ∧ c.point.Captures c.kind c.body
  placed : ∀ c ∈ cs, c.point.scan.tokens ++ [c.token] <+: q.scan.tokens
  blocks : q.scan.journal.blocks = cs.map Taken.block
  tokens : Token.captures [] (q.scan.tokens.map PlacedToken.token) =
    cs.map fun c => (c.point.scan.recent.map PlacedToken.token, c.index)
  numbered : ∀ kind, (cs.filter (·.kind = kind)).map Taken.index =
    List.range (cs.filter (·.kind = kind)).length

variable {includes : Includes} {start q q' : Point} {cs : List Taken}

theorem logged_start (start : Point) (hblocks : start.scan.journal.blocks = [])
    (hrecent : start.scan.recent = []) : Logged includes start [] start where
  captures := nofun
  placed := nofun
  blocks := hblocks
  tokens := by simp [Scan.tokens, hrecent, Token.captures]
  numbered := fun kind => rfl

/-- A scan goes on without a captured text: no block is added, and at most one other token. -/
structure Plain (s s' : Scan) : Prop where
  blocks : s'.journal.blocks = s.journal.blocks
  recent : s'.recent = s.recent ∨
    ∃ t : PlacedToken, t.token.kind ≠ .rawBlock ∧ s'.recent = t :: s.recent

theorem tokens_of_recent {s s' : Scan} {t : PlacedToken} (h : s'.recent = t :: s.recent) :
    s'.tokens = s.tokens ++ [t] := by
  rw [Scan.tokens, h, List.reverse_cons, Scan.tokens]

theorem Plain.captures {s s' : Scan} (h : Plain s s') :
    Token.captures [] (s'.tokens.map PlacedToken.token) =
      Token.captures [] (s.tokens.map PlacedToken.token) := by
  rcases h.recent with hrecent | ⟨t, ht, hrecent⟩
  · rw [Scan.tokens, hrecent, Scan.tokens]
  · rw [tokens_of_recent hrecent, List.map_append, Token.captures_append, List.map_singleton,
      Token.captures_cons_of_ne ht, Token.captures, List.append_nil]

theorem Plain.tokens {s s' : Scan} (h : Plain s s') : s.tokens <+: s'.tokens := by
  rcases h.recent with hrecent | ⟨t, -, hrecent⟩
  · have htokens : s.tokens = s'.tokens := congrArg List.reverse hrecent.symm
    exact htokens ▸ List.prefix_refl _
  · rw [tokens_of_recent hrecent]
    exact List.prefix_append _ _

theorem Logged.plain (h : Logged includes start cs q) (hplain : Plain q.scan q'.scan) :
    Logged includes start cs q' where
  captures := h.captures
  placed := fun c hc => (h.placed c hc).trans hplain.tokens
  blocks := hplain.blocks.trans h.blocks
  tokens := hplain.captures.trans h.tokens
  numbered := h.numbered

/-- A text that is captured gets the next number of its kind. -/
theorem Logged.index_eq (h : Logged includes start cs q) (kind : BlockKind) :
    q.scan.journal.nextIndex kind = (cs.filter (·.kind = kind)).length := by
  rw [Journal.nextIndex, h.blocks, List.countP_map, List.countP_eq_length_filter]
  congr 2

theorem Logged.mem_range (h : Logged includes start cs q) {c : Taken} (hc : c ∈ cs) :
    c.index ∈ List.range (cs.filter (·.kind = c.kind)).length := by
  rw [← h.numbered]
  exact List.mem_map_of_mem (List.mem_filter.2 ⟨hc, by simp⟩)

theorem Logged.index_lt (h : Logged includes start cs q) {c : Taken} (hc : c ∈ cs) :
    c.index < cs.length :=
  (List.mem_range.1 (h.mem_range hc)).trans_le (List.length_filter_le _ _)

/-- A text is known by its kind and its number. -/
theorem Logged.eq_of_index (h : Logged includes start cs q) {c c' : Taken} (hc : c ∈ cs)
    (hc' : c' ∈ cs) (hkind : c.kind = c'.kind) (hindex : c.index = c'.index) : c = c' := by
  have hnodup : ((cs.filter (·.kind = c'.kind)).map Taken.index).Nodup := by
    rw [h.numbered]
    exact List.nodup_range
  refine List.inj_on_of_nodup_map hnodup ?_ ?_ hindex
  · exact List.mem_filter.2 ⟨hc, by simp [hkind]⟩
  · exact List.mem_filter.2 ⟨hc', by simp⟩

/-- The captured texts stand where the tokens for them do. -/
theorem Logged.positions (h : Logged includes start cs q) :
    cs.map (·.point.scan.tokens.length) = q.scan.tokens.findIdxs (·.token.kind = .rawBlock) := by
  have hlength := Token.length_captures [] (q.scan.tokens.map PlacedToken.token)
  rw [h.tokens, List.map_map, List.findIdxs_map] at hlength
  simpa [Scan.tokens, Function.comp_def] using hlength

/-- A text that is captured where the log ends is added to it. -/
theorem Logged.taken (h : Logged includes start cs q) (hleads : Leads includes start q)
    {kind : BlockKind} {body : List Char} (hcaptures : q.Captures kind body)
    (hblocks : q'.scan.journal.blocks = q.scan.journal.blocks ++ [(Taken.mk q kind body).block])
    (hrecent : q'.scan.recent = (Taken.mk q kind body).token :: q.scan.recent) :
    Logged includes start (cs ++ [⟨q, kind, body⟩]) q' where
  captures := by
    refine List.forall_mem_append.2 ⟨h.captures, List.forall_mem_singleton.2 ?_⟩
    exact ⟨hleads, hcaptures⟩
  placed := by
    rw [tokens_of_recent hrecent]
    refine List.forall_mem_append.2 ⟨fun c hc => ?_, List.forall_mem_singleton.2 ?_⟩
    · exact (h.placed c hc).trans (List.prefix_append _ _)
    · exact List.prefix_refl _
  blocks := by rw [hblocks, h.blocks, List.map_append]; rfl
  tokens := by
    rw [tokens_of_recent hrecent, List.map_append, Token.captures_append, h.tokens,
      List.map_append]
    congr 1
    simp [Taken.token, Token.captures, Scan.tokens]
  numbered := by
    intro kind'
    rw [List.filter_append, List.map_append, h.numbered]
    -- Its number is the next one of its kind, and of no other one.
    by_cases hkind : kind = kind'
    · subst hkind
      have hindex : (Taken.mk q kind body).index = (cs.filter (·.kind = kind)).length :=
        h.index_eq kind
      simp [hindex, List.range_succ]
    · simp [hkind]

/-- Only a captured text adds a block or a token for one. -/
theorem plain_apply {depth : Nat} {f : Frame} {s : Scan} {used rest : List Char} {m : Move}
    (h : Occurs includes depth s used rest m) (hm : ∀ kind body, m ≠ .block kind body) :
    Plain s (m.apply f s) := by
  cases h with
  | @lexeme c cs rest t? _ _ _ hread =>
    cases t? with
    | none => exact ⟨rfl, .inl rfl⟩
    | some t =>
      refine ⟨rfl, .inr ⟨_, ?_, rfl⟩⟩
      exact Lexeme.kind_ne_of_read (congrArg Lexeme.reading hread)
  | block => exact absurd rfl (hm _ _)
  | _ => exact ⟨rfl, .inl rfl⟩

/-- A move keeps the log, with the text that it captures. -/
theorem Logged.turn {entered? : Option String} (h : Logged includes start cs q)
    (hleads : Leads includes start q) (hturn : q.turn includes = .on entered? q') :
    ∃ cs', Logged includes start cs' q' := by
  cases Point.proceeds_of_turn hturn with
  | @uses used rest m hrest hoccurs =>
    by_cases hblock : ∃ kind body, m = .block kind body
    · obtain ⟨kind, body, rfl⟩ := hblock
      cases hoccurs with
      | block henabled hkind hread =>
        refine ⟨_, h.taken hleads ⟨henabled, hkind, rest, ?_, hread⟩ ?_ rfl⟩
        · simpa using hrest
        · exact Journal.blocks_appendBlock_beginBlock ..
    · have hplain := plain_apply (f := q.frame) hoccurs fun kind body hm => hblock ⟨kind, body, hm⟩
      exact ⟨cs, h.plain hplain⟩
  | enters | leaves => exact ⟨cs, h.plain ⟨rfl, .inl rfl⟩⟩

/-- Every run keeps the log. -/
theorem Run.logged {n : Nat} {names : List String} (hrun : Run includes n q names q')
    (hleads : Leads includes start q) (h : Logged includes start cs q) :
    ∃ cs', Logged includes start cs' q' := by
  induction hrun generalizing cs with
  | stay => exact ⟨cs, h⟩
  | on hturn _ ih =>
    obtain ⟨cs', h'⟩ := h.turn hleads hturn
    exact ih (hleads.trans ((Leads.refl _).after hturn)) h'

/-- The blocks and the tokens of a source are those of the texts that are captured in it. -/
theorem exists_logged {defines : Defines} {source : String} {frames : List Frame} {t : Scan}
    (h : (fresh defines).process includes source [] = .ok (frames, t)) :
    ∃ cs last, Logged includes (Point.start defines source) cs last ∧ last.scan = t := by
  obtain ⟨last, hends, n, names, hrun⟩ := exists_leads_ends includes defines source
  obtain ⟨cs, hlogged⟩ := hrun.logged (.refl _) (logged_start _ rfl rfl)
  rw [h] at hends
  cases hends with
  | read => exact ⟨cs, last, hlogged, rfl⟩

end Scan
end ShaderLang
