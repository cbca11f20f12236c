import ShaderLang.Proofs.Grammar.Terminal
import ShaderLang.Proofs.Outcome
import ShaderLang.Tree.Form
/-!
# What a form describes

A form describes rows of tokens, each with the settings that it writes, and says nothing about how
they are read. Reading decides by the next token alone. On a form whose alternatives and ends can be
told apart by that token, reading finds exactly the rows that the form describes.

## Main definitions

* `Form.Derives` — the rows that a form describes, with their settings
* `Form.starts`, `Form.nullable` — how such a row may start, and whether it may be empty
* `Form.goesOn` — the tokens with which a form would go on where it could end
* `Form.predictive` — the next token always decides how to go on
* `Form.ReadsOnly`, `Form.ReadsAll` — what is read is described, and what is described is read

## Main results

* `Form.derives_of_read` — what is read is described
* `Form.read_of_derives` — what is described is read, whatever follows
-/

namespace ShaderLang

namespace Parts

@[simp] theorem none_append (p : Parts) : none ++ p = p := rfl

@[simp] theorem append_none (p : Parts) : p ++ none = p := by
  cases p
  exact congrArg₂ Parts.mk (List.append_nil _) (List.append_nil _)

theorem append_assoc (p q r : Parts) : p ++ q ++ r = p ++ (q ++ r) :=
  congrArg₂ Parts.mk (List.append_assoc ..) (List.append_assoc ..)

@[simp] theorem header_append (p q : Parts) : (p ++ q).header = p.header ++ q.header := rfl

@[simp] theorem body_append (p q : Parts) : (p ++ q).body = p.body ++ q.body := rfl

@[simp] theorem header_one (kind : SettingKind) (v : Value Tree) : (one kind v).header = [] := rfl

@[simp] theorem body_one (kind : SettingKind) (v : Value Tree) :
    (one kind v).body = [⟨kind, v⟩] := rfl

end Parts

namespace Form

open Outcome (map_eq_ok_iff)

/-! ## The rows that a form describes -/

/-- Statements up to a closing brace, with semicolons anywhere between them. -/
inductive Statements (S : List Token → Parts → Prop) : List Token → Parts → Prop
  | close : Statements S [.punct .blockEnd] .none
  | semicolon {ts p} (h : Statements S ts p) : Statements S (.punct .break :: ts) p
  | statement {ts us p q} (h : S ts p) (hs : Statements S us q) : Statements S (ts ++ us) (p ++ q)

/-- At least one item, with commas between them, up to a closing mark. -/
inductive Items (S : List Token → Parts → Prop) (close : Punct) : List Token → Parts → Prop
  | last {ts p} (h : S ts p) : Items S close (ts ++ [.punct close]) p
  | more {ts us p q} (h : S ts p) (hs : Items S close us q) :
      Items S close (ts ++ .punct .comma :: us) (p ++ q)

/-- The class of the first token. -/
def headKind? (ts : List Token) : Option TokenKind := ts.head?.map Token.kind

/-- The rows of tokens that a form describes, with the settings that they write. -/
def Derives : Form → List Token → Parts → Prop
  | empty, ts, p => ts = [] ∧ p = .none
  | fail _, _, _ => False
  | eat kind, ts, p => ∃ t : Token, t.kind = kind ∧ ts = [t] ∧ p = .none
  | header kind l, ts, p =>
    ∃ t leaf, l.Means t leaf ∧ ts = [t] ∧ p = ⟨[⟨kind, .leaf leaf⟩], []⟩
  | take kind l, ts, p => ∃ t leaf, l.Means t leaf ∧ ts = [t] ∧ p = .one kind (.leaf leaf)
  | flag kind, ts, p => ts = [] ∧ p = .one kind (.leaf (.bool true))
  | seq first second, ts, p =>
    ∃ us vs q r, Derives first us q ∧ Derives second vs r ∧ ts = us ++ vs ∧ p = q ++ r
  | nested kind block inside, ts, p =>
    ∃ q, Derives inside ts q ∧ p = .one kind (.node (q.tree block))
  | ifNext kind yes no, ts, p =>
    if headKind? ts = some kind then Derives yes ts p else Derives no ts p
  | body statement, ts, p => Statements (Derives statement) ts p
  | commas close item, ts, p => Items (Derives item) close ts p

/-! ## What the next token can tell -/

/-- The form describes the row without tokens. -/
def nullable : Form → Bool
  | empty => true
  | flag _ => true
  | seq first second => first.nullable && second.nullable
  | nested _ _ inside => inside.nullable
  | ifNext _ _ no => no.nullable
  | _ => false

/-- The classes of tokens that a row may start with. -/
def starts : Form → List TokenKind
  | eat kind => [kind]
  | header _ l => l.expected
  | take _ l => l.expected
  | seq first second => first.starts ++ if first.nullable then second.starts else []
  | nested _ _ inside => inside.starts
  | ifNext kind _ no => kind :: no.starts
  | body statement => .punct .break :: .punct .blockEnd :: statement.starts
  | commas close item =>
    item.starts ++ if item.nullable then [.punct .comma, .punct close] else []
  | _ => []

/-- The classes of tokens with which a form would go on where it could also end. -/
def goesOn : Form → List TokenKind
  | seq first second => second.goesOn ++ if second.nullable then first.goesOn else []
  | nested _ _ inside => inside.goesOn
  | ifNext kind yes no => yes.goesOn ++ no.goesOn ++ if no.nullable then [kind] else []
  | _ => []

/-- The next token always decides how to go on. -/
def predictive : Form → Bool
  | seq first second =>
    first.predictive && second.predictive && first.goesOn.all fun k => !second.starts.contains k
  | nested _ _ inside => inside.predictive
  | ifNext _ yes no => yes.predictive && no.predictive && !yes.nullable
  | body statement =>
    statement.predictive && !statement.nullable && statement.goesOn.isEmpty &&
      !statement.starts.contains (.punct .break) && !statement.starts.contains (.punct .blockEnd)
  | commas close item =>
    item.predictive && !item.nullable && item.goesOn.isEmpty && close != .comma
  | _ => true

theorem predictive_seq_iff {a b : Form} :
    (seq a b).predictive = true ↔
      a.predictive = true ∧ b.predictive = true ∧ ∀ k ∈ a.goesOn, k ∉ b.starts := by
  simp [predictive, and_assoc]

theorem predictive_ifNext_iff {kind : TokenKind} {yes no : Form} :
    (ifNext kind yes no).predictive = true ↔
      yes.predictive = true ∧ no.predictive = true ∧ yes.nullable = false := by
  simp [predictive, and_assoc]

theorem predictive_body_iff {statement : Form} :
    (body statement).predictive = true ↔
      statement.predictive = true ∧ statement.nullable = false ∧ statement.goesOn = [] ∧
        .punct .break ∉ statement.starts ∧ .punct .blockEnd ∉ statement.starts := by
  simp [predictive, and_assoc]

theorem predictive_commas_iff {close : Punct} {item : Form} :
    (commas close item).predictive = true ↔
      item.predictive = true ∧ item.nullable = false ∧ item.goesOn = [] ∧ close ≠ .comma := by
  simp [predictive, and_assoc]

/-! ## The first token of a row -/

section

variable {S : List Token → Parts → Prop} {close : Punct} {t : Token} {ts : List Token} {p : Parts}

theorem Statements.ne_nil (h : Statements S ts p) : ts ≠ [] := by
  induction h with
  | close | semicolon => simp
  | statement _ _ ihs => simp [ihs]

theorem Items.ne_nil (h : Items S close ts p) : ts ≠ [] := by
  cases h <;> simp

/-- Statements start as one of them does, with a semicolon, or with the brace that ends them. -/
theorem Statements.first (h : Statements S (t :: ts) p) :
    t = .punct .blockEnd ∨ t = .punct .break ∨ ∃ us q, S (t :: us) q := by
  generalize hrow : t :: ts = row at h
  induction h generalizing ts with
  | close =>
    cases hrow
    exact .inl rfl
  | semicolon =>
    cases hrow
    exact .inr (.inl rfl)
  | @statement us _ _ _ hS _ ih =>
    -- An empty statement leaves the token to the next one.
    cases us with
    | nil => exact ih hrow
    | cons u us =>
      cases hrow
      exact .inr (.inr ⟨us, _, hS⟩)

/-- Items start as the first of them does, or with a mark if that one is empty. -/
theorem Items.first (h : Items S close (t :: ts) p) :
    (∃ us q, S (t :: us) q) ∨ (∃ q, S [] q) ∧ (t = .punct close ∨ t = .punct .comma) := by
  generalize hrow : t :: ts = row at h
  cases h with
  -- The tokens of an empty item leave the mark behind it as the first one.
  | @last us _ hS =>
    cases us with
    | nil =>
      cases hrow
      exact .inr ⟨⟨_, hS⟩, .inl rfl⟩
    | cons u us =>
      cases hrow
      exact .inl ⟨us, _, hS⟩
  | @more us _ _ _ hS =>
    cases us with
    | nil =>
      cases hrow
      exact .inr ⟨⟨_, hS⟩, .inr rfl⟩
    | cons u us =>
      cases hrow
      exact .inl ⟨us, _, hS⟩

end

theorem nullable_of_derives_nil {f : Form} {p : Parts} (h : f.Derives [] p) :
    f.nullable = true := by
  induction f generalizing p with
  | empty | flag => rfl
  | fail => exact h.elim
  | eat | header | take =>
    simp [Derives] at h
  | seq a b iha ihb =>
    obtain ⟨us, vs, q, r, ha, hb, hts, -⟩ := h
    obtain ⟨rfl, rfl⟩ := List.append_eq_nil_iff.1 hts.symm
    simp [nullable, iha ha, ihb hb]
  | nested kind block inside ih =>
    obtain ⟨q, hq, -⟩ := h
    exact ih hq
  | ifNext kind yes no _ ihno => exact ihno h
  -- Both end with a token of their own, so that they never stand for the empty row.
  | body statement => exact absurd rfl (Statements.ne_nil h)
  | commas close item => exact absurd rfl (Items.ne_nil h)

theorem ne_nil_of_derives {f : Form} {ts : List Token} {p : Parts} (hf : f.nullable = false)
    (h : f.Derives ts p) : ts ≠ [] := by
  rintro rfl
  simp [nullable_of_derives_nil h] at hf

theorem kind_mem_starts {f : Form} {t : Token} {ts : List Token} {p : Parts}
    (h : f.Derives (t :: ts) p) : t.kind ∈ f.starts := by
  induction f generalizing t ts p with
  | empty | flag => simp [Derives] at h
  | fail => exact h.elim
  | eat kind =>
    obtain ⟨u, hu, hts, -⟩ := h
    cases hts
    simp [starts, hu]
  | header _ l | take _ l =>
    obtain ⟨u, leaf, hu, hts, -⟩ := h
    cases hts
    exact hu.kind_mem_expected
  | seq a b iha ihb =>
    obtain ⟨us, vs, q, r, ha, hb, hts, -⟩ := h
    -- The first part may be empty, and then the token belongs to the second one.
    cases us with
    | nil =>
      obtain rfl : t :: ts = vs := hts
      simp [starts, nullable_of_derives_nil ha, ihb hb]
    | cons u us =>
      cases hts
      exact List.mem_append_left _ (iha ha)
  | nested kind block inside ih =>
    obtain ⟨q, hq, -⟩ := h
    exact ih hq
  | ifNext kind yes no _ ihno =>
    by_cases hk : t.kind = kind
    · simp [starts, hk]
    · exact List.mem_cons_of_mem _ (ihno (by simpa [Derives, headKind?, hk] using h))
  | body statement ih =>
    rcases Statements.first h with rfl | rfl | ⟨us, q, hS⟩
    · simp [starts, Token.kind]
    · simp [starts, Token.kind]
    · simp [starts, ih hS]
  | commas close item ih =>
    rcases Items.first h with ⟨us, q, hS⟩ | ⟨⟨q, hS⟩, hmark⟩
    · exact List.mem_append_left _ (ih hS)
    · rcases hmark with rfl | rfl <;> simp [starts, nullable_of_derives_nil hS, Token.kind]

/-! ## What is read is described -/

/-- The tokens without their places. -/
abbrev tokens (ts : List PlacedToken) : List Token := ts.map PlacedToken.token

/-- A reader finds only rows of a kind, and always uses a token. -/
def Finds (read : List PlacedToken → Reads Parts) (S : List Token → Parts → Prop) : Prop :=
  ∀ {ts p rest}, read ts = .ok (p, rest) →
    ∃ used, used ≠ [] ∧ ts = used ++ rest ∧ S (tokens used) p

theorem isMark_iff {t : PlacedToken} {m : Punct} : isMark t m = true ↔ t.token = .punct m :=
  beq_iff_eq

theorem readKind_eq_ok_iff {kind : TokenKind} {ts : List PlacedToken}
    {r : Token × List PlacedToken} :
    readKind kind ts = .ok r ↔
      ∃ t rest, ts = t :: rest ∧ t.token.kind = kind ∧ r = (t.token, rest) := by
  cases ts with
  | nil => simp [readKind]
  | cons t ts =>
    by_cases h : t.token.kind = kind
    · simp [readKind, h, eq_comm]
    · simp [readKind, refuse, h]

theorem readLiteral_eq_ok_iff {l : Literal} {ts : List PlacedToken} {r : Leaf × List PlacedToken} :
    readLiteral l ts = .ok r ↔
      ∃ t rest leaf, ts = t :: rest ∧ l.Means t.token leaf ∧ r = (leaf, rest) := by
  cases ts with
  | nil => simp [readLiteral]
  | cons t ts =>
    simp only [readLiteral, ← Literal.read_eq_ok_iff]
    cases h : l.read t.token <;> simp [h, eq_comm]

theorem statements_of_readBody {read : List PlacedToken → Reads Parts}
    {S : List Token → Parts → Prop} (hread : Finds read S) {ts rest : List PlacedToken} {p : Parts}
    (h : readBody read ts = .ok (p, rest)) :
    ∃ used, ts = used ++ rest ∧ Statements S (tokens used) p := by
  fun_induction readBody read ts generalizing p with
  | case1 => cases h
  | case2 t ts hbreak ih =>
    obtain ⟨used, rfl, hs⟩ := ih h
    refine ⟨t :: used, rfl, ?_⟩
    rw [tokens, List.map_cons, isMark_iff.1 hbreak]
    exact hs.semicolon
  | case3 t ts _ hend =>
    cases h
    refine ⟨[t], rfl, ?_⟩
    rw [tokens, List.map_singleton, isMark_iff.1 hend]
    exact .close
  | case4 => cases h
  | case5 => cases h
  | case6 t ts _ _ q ts' hq hlt more ts'' hmore ih =>
    cases h
    obtain ⟨used, -, hused, hs⟩ := hread hq
    obtain ⟨others, rfl, hothers⟩ := ih hmore
    refine ⟨used ++ others, by rw [hused, List.append_assoc], ?_⟩
    rw [tokens, List.map_append]
    exact .statement hs hothers
  | case7 t ts _ _ q ts' hq hlt =>
    -- A statement has used a token, so that this end is never reached.
    obtain ⟨used, hne, hused, -⟩ := hread hq
    have hlen := congrArg List.length hused
    have hpos := List.length_pos_iff.2 hne
    simp only [List.length_cons, List.length_append] at hlen
    omega

theorem items_of_readCommas {read : List PlacedToken → Reads Parts} {close : Punct}
    {S : List Token → Parts → Prop} (hread : Finds read S) {ts rest : List PlacedToken} {p : Parts}
    (h : readCommas close read ts = .ok (p, rest)) :
    ∃ used, ts = used ++ rest ∧ Items S close (tokens used) p := by
  fun_induction readCommas close read ts generalizing p with
  | case1 => cases h
  | case2 => cases h
  | case3 => cases h
  | case4 ts q t ts' hq hcomma hlt more ts'' hmore ih =>
    cases h
    obtain ⟨used, -, hused, hs⟩ := hread hq
    obtain ⟨others, rfl, hothers⟩ := ih hmore
    refine ⟨used ++ t :: others, by rw [hused, List.append_assoc, List.cons_append], ?_⟩
    rw [tokens, List.map_append, List.map_cons, isMark_iff.1 hcomma]
    exact .more hs hothers
  | case5 ts q t ts' hq hcomma hlt =>
    -- Nor can a row go on without using a token.
    obtain ⟨used, hne, hused, -⟩ := hread hq
    have hlen := congrArg List.length hused
    simp only [List.length_append, List.length_cons] at hlen
    omega
  | case6 ts q t ts' hq hcomma hclose =>
    cases h
    obtain ⟨used, -, hused, hs⟩ := hread hq
    refine ⟨used ++ [t], by rw [hused, List.append_assoc, List.singleton_append], ?_⟩
    rw [tokens, List.map_append, List.map_singleton, isMark_iff.1 hclose]
    exact .last hs
  | case7 => cases h

theorem read_ifNext {kind : TokenKind} {yes no : Form} {ts : List PlacedToken} :
    (ifNext kind yes no).read ts =
      if headKind? (tokens ts) = some kind then yes.read ts else no.read ts := by
  cases ts with
  | nil => rfl
  | cons t ts => simp [read, headKind?]

theorem headKind?_append {used : List PlacedToken} (hne : used ≠ []) (rest : List PlacedToken) :
    headKind? (tokens (used ++ rest)) = headKind? (tokens used) := by
  cases used with
  | nil => exact absurd rfl hne
  | cons t used => rfl

/-- What a form reads, it describes. -/
def ReadsOnly (f : Form) : Prop :=
  ∀ ⦃ts rest p⦄, f.read ts = .ok (p, rest) → ∃ used, ts = used ++ rest ∧ f.Derives (tokens used) p

/-- A form that is never empty finds its rows. -/
theorem ReadsOnly.finds {f : Form} (h : f.ReadsOnly) (hnull : f.nullable = false) :
    Finds f.read f.Derives := by
  intro ts p rest hr
  obtain ⟨used, hts, hused⟩ := h hr
  exact ⟨used, fun hnil => ne_nil_of_derives hnull hused (by rw [hnil]; rfl), hts, hused⟩

theorem ReadsOnly.seq {a b : Form} (ha : a.ReadsOnly) (hb : b.ReadsOnly) :
    (seq a b).ReadsOnly := by
  intro ts rest p h
  simp only [read] at h
  split at h
  · cases h
  · next q ts' hq =>
    obtain ⟨⟨r, rest'⟩, hr, heq⟩ := map_eq_ok_iff.1 h
    cases heq
    obtain ⟨us, rfl, hus⟩ := ha hq
    obtain ⟨vs, rfl, hvs⟩ := hb hr
    refine ⟨us ++ vs, by rw [List.append_assoc], tokens us, tokens vs, q, r, hus, hvs, ?_, rfl⟩
    exact List.map_append

theorem ReadsOnly.ifNext {kind : TokenKind} {yes no : Form} (hyes : yes.ReadsOnly)
    (hno : no.ReadsOnly) (hnull : yes.nullable = false) : (ifNext kind yes no).ReadsOnly := by
  intro ts rest p h
  rw [read_ifNext] at h
  split at h
  · next hkind =>
    -- The first form is never empty, so that its row starts with the token looked at.
    obtain ⟨used, hne, rfl, hused⟩ := hyes.finds hnull h
    rw [headKind?_append hne] at hkind
    exact ⟨used, rfl, by rwa [Derives, if_pos hkind]⟩
  · next hkind =>
    obtain ⟨used, rfl, hused⟩ := hno h
    refine ⟨used, rfl, ?_⟩
    -- Nor does the row of the second form start with it, and this may be empty.
    have hhead : headKind? (tokens used) ≠ some kind := by
      cases used with
      | nil => simp [headKind?]
      | cons t used => exact hkind
    rwa [Derives, if_neg hhead]

/-- What a predictive form reads, it describes. -/
theorem derives_of_read {f : Form} (hf : f.predictive = true) : f.ReadsOnly := by
  induction f with
  | empty | flag =>
    intro ts rest p h
    cases h
    exact ⟨[], rfl, rfl, rfl⟩
  | fail => rintro (_ | _) rest p ⟨⟩
  | eat kind =>
    intro ts rest p h
    obtain ⟨_, hr, heq⟩ := map_eq_ok_iff.1 h
    obtain ⟨t, rest, rfl, hkind, rfl⟩ := readKind_eq_ok_iff.1 hr
    cases heq
    exact ⟨[t], rfl, t.token, hkind, rfl, rfl⟩
  | header kind l | take kind l =>
    intro ts rest p h
    obtain ⟨_, hr, heq⟩ := map_eq_ok_iff.1 h
    obtain ⟨t, rest, leaf, rfl, hmeans, rfl⟩ := readLiteral_eq_ok_iff.1 hr
    cases heq
    exact ⟨[t], rfl, t.token, leaf, hmeans, rfl, rfl⟩
  | seq a b iha ihb =>
    obtain ⟨ha, hb, -⟩ := predictive_seq_iff.1 hf
    exact (iha ha).seq (ihb hb)
  | nested kind block inside ih =>
    intro ts rest p h
    obtain ⟨⟨q, rest'⟩, hq, heq⟩ := map_eq_ok_iff.1 h
    cases heq
    obtain ⟨used, hts, hused⟩ := ih hf hq
    exact ⟨used, hts, q, hused, rfl⟩
  | ifNext kind yes no ihyes ihno =>
    obtain ⟨hyes, hno, hnull⟩ := predictive_ifNext_iff.1 hf
    exact (ihyes hyes).ifNext (ihno hno) hnull
  | body statement ih =>
    obtain ⟨hpred, hnull, -⟩ := predictive_body_iff.1 hf
    exact fun _ _ _ h => statements_of_readBody ((ih hpred).finds hnull) h
  | commas close item ih =>
    obtain ⟨hpred, hnull, -⟩ := predictive_commas_iff.1 hf
    exact fun _ _ _ h => items_of_readCommas ((ih hpred).finds hnull) h

/-! ## What is described is read -/

/-- The next token is of none of the given classes. -/
def Avoids (kinds : List TokenKind) (ts : List PlacedToken) : Prop :=
  ∀ k ∈ kinds, headKind? (tokens ts) ≠ some k

/-- A reader finds every row of a kind, whatever follows it. -/
def FindsAll (read : List PlacedToken → Reads Parts) (S : List Token → Parts → Prop) : Prop :=
  ∀ {used p} (rest : List PlacedToken), S (tokens used) p → read (used ++ rest) = .ok (p, rest)

theorem isMark_eq_false {t : PlacedToken} {m : Punct} (h : t.token ≠ .punct m) :
    isMark t m = false := beq_false_of_ne h

theorem readBody_of_statements {read : List PlacedToken → Reads Parts}
    {S : List Token → Parts → Prop} (hread : FindsAll read S)
    (hhead : ∀ {ts p}, S ts p → ∃ t us, ts = t :: us ∧ t ≠ .punct .break ∧ t ≠ .punct .blockEnd)
    {used : List PlacedToken} {p : Parts} (h : Statements S (tokens used) p)
    (rest : List PlacedToken) : readBody read (used ++ rest) = .ok (p, rest) := by
  generalize hts : tokens used = ts at h
  induction h generalizing used with
  | close =>
    obtain ⟨t, rfl, ht⟩ := List.map_eq_singleton_iff.1 hts
    rw [List.singleton_append, readBody, isMark_eq_false (by simp [ht]), isMark_iff.2 ht]
    rfl
  | semicolon _ ih =>
    obtain ⟨t, used, rfl, ht, hts⟩ := List.map_eq_cons_iff.1 hts
    rw [List.cons_append, readBody, isMark_iff.2 ht]
    exact ih hts
  | @statement us vs q r hS _ ih =>
    obtain ⟨first, others, rfl, rfl, hothers⟩ := List.map_eq_append_iff.1 hts
    -- The head of a statement is neither mark, so that the body neither skips it nor ends there.
    obtain ⟨u, _, hfirst, hbreak, hend⟩ := hhead hS
    obtain ⟨t, first, rfl, rfl, -⟩ := List.map_eq_cons_iff.1 hfirst
    have hstatement := hread (others ++ rest) hS
    have hlen : (others ++ rest).length < (first ++ (others ++ rest)).length + 1 := by
      simp only [List.length_append]
      omega
    rw [List.append_assoc]
    rw [List.cons_append] at hstatement ⊢
    rw [readBody, isMark_eq_false hbreak, isMark_eq_false hend, hstatement]
    simp only [Bool.false_eq_true, if_false, if_pos hlen, ih hothers]

theorem readCommas_of_items {read : List PlacedToken → Reads Parts} {close : Punct}
    {S : List Token → Parts → Prop} (hread : FindsAll read S) (hclose : close ≠ .comma)
    {used : List PlacedToken} {p : Parts} (h : Items S close (tokens used) p)
    (rest : List PlacedToken) : readCommas close read (used ++ rest) = .ok (p, rest) := by
  generalize hts : tokens used = ts at h
  induction h generalizing used with
  | last hS =>
    obtain ⟨first, others, rfl, rfl, hothers⟩ := List.map_eq_append_iff.1 hts
    obtain ⟨t, rfl, ht⟩ := List.map_eq_singleton_iff.1 hothers
    -- The mark that closes the row is no comma, so that the row ends behind this item.
    have hcomma : isMark t .comma = false := isMark_eq_false (by simp [ht, hclose])
    rw [List.append_assoc, readCommas, hread _ hS]
    simp [hcomma, isMark_iff.2 ht]
  | @more us vs q r hS _ ih =>
    obtain ⟨first, others, rfl, rfl, hothers⟩ := List.map_eq_append_iff.1 hts
    obtain ⟨t, others, rfl, ht, hothers⟩ := List.map_eq_cons_iff.1 hothers
    have hlen : (others ++ rest).length < (first ++ t :: (others ++ rest)).length := by
      simp only [List.length_append, List.length_cons]
      omega
    rw [List.append_assoc, List.cons_append, readCommas, hread _ hS]
    simp only [isMark_iff.2 ht, if_true, if_pos hlen, ih hothers]

/-- What a form describes, it reads, unless it could go on with what follows. -/
def ReadsAll (f : Form) : Prop :=
  ∀ ⦃used rest p⦄, f.Derives (tokens used) p → Avoids f.goesOn rest →
    f.read (used ++ rest) = .ok (p, rest)

/-- A form that ends by itself finds all its rows. -/
theorem ReadsAll.findsAll {f : Form} (h : f.ReadsAll) (hends : f.goesOn = []) :
    FindsAll f.read f.Derives := fun _ hS => h hS (by simp [Avoids, hends])

theorem ReadsAll.seq {a b : Form} (ha : a.ReadsAll) (hb : b.ReadsAll)
    (hapart : ∀ k ∈ a.goesOn, k ∉ b.starts) : (seq a b).ReadsAll := by
  rintro used rest _ ⟨us, vs, q, r, hq, hr, hts, rfl⟩ hrest
  obtain ⟨first, others, rfl, rfl, rfl⟩ := List.map_eq_append_iff.1 hts
  -- The first form is followed by a row of the second one, or by what follows both.
  have hmiddle : Avoids a.goesOn (others ++ rest) := by
    intro k hk
    cases others with
    | nil => exact hrest k (by simp [goesOn, nullable_of_derives_nil hr, hk])
    | cons t others =>
      rintro ⟨⟩
      exact hapart _ hk (kind_mem_starts hr)
  have hlast : Avoids b.goesOn rest := fun k hk => hrest k (List.mem_append_left _ hk)
  rw [List.append_assoc, read, ha hq hmiddle]
  exact map_eq_ok_iff.2 ⟨_, hb hr hlast, rfl⟩

theorem ReadsAll.ifNext {kind : TokenKind} {yes no : Form} (hyes : yes.ReadsAll)
    (hno : no.ReadsAll) : (ifNext kind yes no).ReadsAll := by
  intro used rest p h hrest
  have hyesRest : Avoids yes.goesOn rest := fun k hk => hrest k (by simp [goesOn, hk])
  have hnoRest : Avoids no.goesOn rest := fun k hk => hrest k (by simp [goesOn, hk])
  rw [read_ifNext]
  cases used with
  | nil =>
    -- The row is empty, and what follows does not start with the token looked at.
    have hempty : no.Derives [] p := h
    rw [List.nil_append, if_neg (hrest kind (by simp [goesOn, nullable_of_derives_nil hempty]))]
    exact @hno [] rest p hempty hnoRest
  | cons t used =>
    rw [headKind?_append (List.cons_ne_nil _ _)]
    rw [Derives] at h
    split at h
    · next hkind =>
      rw [if_pos hkind]
      exact hyes h hyesRest
    · next hkind =>
      rw [if_neg hkind]
      exact hno h hnoRest

/-- What a predictive form describes, it reads, unless it could go on with what follows. -/
theorem read_of_derives {f : Form} (hf : f.predictive = true) : f.ReadsAll := by
  induction f with
  | empty | flag =>
    rintro used rest _ ⟨hts, rfl⟩ -
    rw [List.map_eq_nil_iff.1 hts]
    rfl
  | fail => exact fun _ _ _ h => h.elim
  | eat kind =>
    rintro used rest _ ⟨_, hkind, hts, rfl⟩ -
    obtain ⟨t, rfl, rfl⟩ := List.map_eq_singleton_iff.1 hts
    exact map_eq_ok_iff.2 ⟨_, readKind_eq_ok_iff.2 ⟨t, rest, rfl, hkind, rfl⟩, rfl⟩
  | header kind l | take kind l =>
    rintro used rest _ ⟨_, leaf, hmeans, hts, rfl⟩ -
    obtain ⟨t, rfl, rfl⟩ := List.map_eq_singleton_iff.1 hts
    exact map_eq_ok_iff.2 ⟨_, readLiteral_eq_ok_iff.2 ⟨t, rest, leaf, rfl, hmeans, rfl⟩, rfl⟩
  | seq a b iha ihb =>
    obtain ⟨ha, hb, hapart⟩ := predictive_seq_iff.1 hf
    exact (iha ha).seq (ihb hb) hapart
  | nested kind block inside ih =>
    rintro used rest _ ⟨q, hq, rfl⟩ hrest
    exact map_eq_ok_iff.2 ⟨_, ih hf hq hrest, rfl⟩
  | ifNext kind yes no ihyes ihno =>
    obtain ⟨hyes, hno, -⟩ := predictive_ifNext_iff.1 hf
    exact (ihyes hyes).ifNext (ihno hno)
  | body statement ih =>
    obtain ⟨hpred, hnull, hends, hbreak, hclose⟩ := predictive_body_iff.1 hf
    intro used rest p h _
    refine readBody_of_statements ((ih hpred).findsAll hends) (fun {ts _} hS => ?_) h rest
    -- A statement starts with a token, and that is neither of the marks between statements.
    cases ts with
    | nil => exact absurd rfl (ne_nil_of_derives hnull hS)
    | cons t us =>
      have hstart := kind_mem_starts hS
      refine ⟨t, us, rfl, ?_, ?_⟩ <;> rintro rfl
      · exact hbreak hstart
      · exact hclose hstart
  | commas close item ih =>
    obtain ⟨hpred, -, hends, hclose⟩ := predictive_commas_iff.1 hf
    intro used rest p h _
    exact readCommas_of_items ((ih hpred).findsAll hends) hclose h rest

/-- A predictive form that ends by itself reads exactly the rows that it describes. -/
theorem read_eq_ok_iff {f : Form} (hf : f.predictive = true) (hends : f.goesOn = [])
    {ts rest : List PlacedToken} {p : Parts} :
    f.read ts = .ok (p, rest) ↔ ∃ used, ts = used ++ rest ∧ f.Derives (tokens used) p := by
  constructor
  · exact fun h => derives_of_read hf h
  · rintro ⟨used, rfl, h⟩
    exact read_of_derives hf h (by simp [Avoids, hends])

end Form
end ShaderLang
