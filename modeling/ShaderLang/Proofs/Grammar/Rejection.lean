import ShaderLang.Proofs.Grammar.Reading
/-!
# Where reading stops

A row of tokens that is refused is refused as early as it can be: at the first token that no row
goes on with, or at its end if only further tokens are missing. So the tokens in front of the
refused one begin some description, and with that token they begin none. The fault names the refused
token and its place.

## Main definitions

* `Cause.Blames`, `Fault.IsAt` — what a cause says of a token, and a fault that has its place
* `Stops` — a reader stops behind some tokens, whatever comes behind the token that it refuses
* `Form.complete` — each form in a form has a row, up to the failure behind the last alternative
* `Form.LooksAhead` — a reader whose rows hang on no more than the token behind them
* `Form.StopsWithin` — a reader that refuses tokens stops behind some with which a row begins
* `Arena.Viable` — tokens with which some description begins

## Main results

* `Form.stops_of_read` — a form is refused behind tokens with which one of its rows begins
* `Grammar.stops_of_readTop` — the same of whole descriptions
* `Arena.ofTokens_stops_first` — the place and the cause of the fault
-/

namespace ShaderLang

open Form (tokens isMark_iff)

/-- What a cause says of the token that it was met at. -/
inductive Cause.Blames (t : Token) : Cause → Prop
  | unexpected (expected : List TokenKind) : Blames t (.unexpectedToken t expected)
  | unknown : Blames t (.unknownToken t)
  | value {word : String} (setting : String) (h : t = .identifier word) :
      Blames t (.unknownValue setting word)

theorem Cause.Blames.ne_eof {t : Token} {cause : Cause} (h : cause.Blames t) : cause ≠ .eof := by
  cases h <;> simp

/-- A fault has the place of a token. -/
def Fault.IsAt (e : Fault) (t : PlacedToken) : Prop :=
  e.file = t.file ∧ e.line = t.line ∧ e.col = t.col

/-- A reader stops behind the tokens `before`, with the next token to blame or because there is
none. What stands behind the token to blame does not matter. -/
inductive Stops {α : Type} (read : List PlacedToken → Except Rejection α)
    (before : List PlacedToken) : Rejection → List PlacedToken → Prop
  | token {t : PlacedToken} {cause : Cause} {rest : List PlacedToken}
      (hcause : cause.Blames t.token)
      (hread : ∀ more, read (before ++ t :: more) = .error (.token t cause)) :
      Stops read before (.token t cause) (before ++ t :: rest)
  | ended : Stops read before .ended before

section

variable {α β : Type} {read : List PlacedToken → Except Rejection α}
  {outer : List PlacedToken → Except Rejection β} {before ts : List PlacedToken} {e : Rejection}

/-- A reader that refuses the next token stops in front of it. -/
theorem Stops.at_once {t : PlacedToken} {cause : Cause} {rest : List PlacedToken}
    (hcause : cause.Blames t.token) (hread : ∀ more, read (t :: more) = .error (.token t cause)) :
    Stops read [] (.token t cause) (t :: rest) :=
  Stops.token hcause hread

theorem Stops.isPrefix (h : Stops read before e ts) : before <+: ts := by
  cases h with
  | token => exact List.prefix_append _ _
  | ended => exact List.prefix_refl _

/-- A reader that hands on the errors of another one stops where that one does. -/
theorem Stops.imp (h : Stops read before e ts)
    (houter : ∀ us, read us = .error e → outer us = .error e) : Stops outer before e ts := by
  cases h with
  | token hcause hread => exact .token hcause fun more => houter _ (hread more)
  | ended => exact .ended

/-- A reader that uses some tokens first, and then hands on the errors of another one, stops further
on. What it has used must not hang on more than the token behind it. -/
theorem Stops.behind (h : Stops read before e ts) (used : List PlacedToken)
    (houter : ∀ us, us.head? = ts.head? → read us = .error e → outer (used ++ us) = .error e) :
    Stops outer (used ++ before) e (used ++ ts) := by
  cases h with
  | token hcause hread =>
    rw [← List.append_assoc]
    refine .token hcause fun more => ?_
    rw [List.append_assoc]
    refine houter _ ?_ (hread more)
    cases before <;> rfl
  | ended => exact .ended

end

theorem Literal.blames_of_read {l : Literal} {t : Token} {cause : Cause}
    (h : l.read t = .error cause) : cause.Blames t := by
  unfold read at h
  split at h
  -- A word that names no choice, or a token that has no value at all.
  case h_11 c s =>
    split at h
    · cases h
    · cases h
      exact .value _ rfl
  case h_12 =>
    cases h
    exact .unexpected _
  all_goals cases h

/-- Some token can be read as a literal. -/
theorem Literal.exists_means (l : Literal) : ∃ t leaf, l.Means t leaf := by
  cases l with
  | bool => exact ⟨_, _, .bool true⟩
  | int => exact ⟨_, _, .int 0⟩
  | float => exact ⟨_, _, .wholeFloat 0⟩
  | count => exact ⟨_, _, .count 0⟩
  | word => exact ⟨_, _, .word ""⟩
  | text => exact ⟨_, _, .text ""⟩
  | block => exact ⟨_, _, .block 0⟩
  | choice c =>
    have hname : ∃ word leaf, c.named? word = some leaf := by
      cases c
      case fillMode => exact ⟨"wire", _, rfl⟩
      case sortMode | cullMode => exact ⟨"none", _, rfl⟩
      case compareFunc => exact ⟨"never", _, rfl⟩
      case operand => exact ⟨"one", _, rfl⟩
      case blendOp => exact ⟨"add", _, rfl⟩
      case writeMask => exact ⟨"empty", _, rfl⟩
    obtain ⟨word, leaf, h⟩ := hname
    exact ⟨_, leaf, .choice (Choice.named?_eq_some_iff.1 h)⟩

/-- Some token is of a class. -/
theorem TokenKind.exists_kind_eq (kind : TokenKind) : ∃ t : Token, t.kind = kind := by
  cases kind with
  | keyword k => exact ⟨.keyword k, rfl⟩
  | punct p => exact ⟨.punct p, rfl⟩
  | bool => exact ⟨.bool true, rfl⟩
  | int => exact ⟨.int 0, rfl⟩
  | float => exact ⟨.float (.ofInt 0), rfl⟩
  | str => exact ⟨.str "", rfl⟩
  | identifier => exact ⟨.identifier "", rfl⟩
  | rawBlock => exact ⟨.rawBlock 0, rfl⟩

namespace Form

open Outcome (map_eq_ok_iff map_eq_error_iff)

/-! ## Rows that begin with given tokens -/

/-- The form is the failure behind the last alternative. -/
def isFail : Form → Bool
  | fail _ => true
  | _ => false

/-- Every form in a form has a row, and one that is taken for the sake of the next token starts with
it. Only the failure behind the last alternative has none. -/
def complete : Form → Bool
  | fail _ => false
  | seq first second => first.complete && second.complete
  | nested _ _ inside => inside.complete
  | ifNext kind yes no =>
    yes.complete && yes.starts.all (· = kind) && (no.isFail || no.complete)
  | body statement => statement.complete
  | commas _ item => item.complete
  | _ => true

theorem complete_seq_iff {a b : Form} :
    (seq a b).complete = true ↔ a.complete = true ∧ b.complete = true := by
  simp [complete]

theorem complete_ifNext_iff {kind : TokenKind} {yes no : Form} :
    (ifNext kind yes no).complete = true ↔
      yes.complete = true ∧ (∀ k ∈ yes.starts, k = kind) ∧
        (no.isFail = true ∨ no.complete = true) := by
  simp [complete, and_assoc]

/-- A row begins with given tokens. -/
def Begins (S : List Token → Parts → Prop) (ts : List Token) : Prop := ∃ more p, S (ts ++ more) p

/-- The rows that are taken for the sake of the next token are rows of the whole. -/
theorem derives_ifNext_of_yes {kind : TokenKind} {yes no : Form}
    (hstarts : ∀ k ∈ yes.starts, k = kind) (hnull : yes.nullable = false) {ts : List Token}
    {p : Parts} (h : yes.Derives ts p) : (ifNext kind yes no).Derives ts p := by
  cases ts with
  | nil => exact absurd rfl (ne_nil_of_derives hnull h)
  | cons t ts =>
    have hkind : t.kind = kind := hstarts _ (kind_mem_starts h)
    simpa [Derives, headKind?, hkind] using h

theorem exists_derives {f : Form} (hf : f.predictive = true) (hcomplete : f.complete = true) :
    ∃ ts p, f.Derives ts p := by
  induction f with
  | empty => exact ⟨[], _, rfl, rfl⟩
  | fail => cases hcomplete
  | eat kind =>
    obtain ⟨t, ht⟩ := kind.exists_kind_eq
    exact ⟨_, _, t, ht, rfl, rfl⟩
  | header _ l | take _ l =>
    obtain ⟨t, leaf, h⟩ := l.exists_means
    exact ⟨_, _, t, leaf, h, rfl, rfl⟩
  | flag => exact ⟨[], _, rfl, rfl⟩
  | seq a b iha ihb =>
    obtain ⟨hpredA, hpredB, -⟩ := predictive_seq_iff.1 hf
    obtain ⟨hcompleteA, hcompleteB⟩ := complete_seq_iff.1 hcomplete
    obtain ⟨us, p, ha⟩ := iha hpredA hcompleteA
    obtain ⟨vs, q, hb⟩ := ihb hpredB hcompleteB
    exact ⟨us ++ vs, _, us, vs, p, q, ha, hb, rfl, rfl⟩
  | nested kind block inside ih =>
    obtain ⟨us, p, h⟩ := ih hf hcomplete
    exact ⟨us, _, p, h, rfl⟩
  | ifNext kind yes no ihyes =>
    obtain ⟨hyes, -, hnull⟩ := predictive_ifNext_iff.1 hf
    obtain ⟨hrows, hstarts, -⟩ := complete_ifNext_iff.1 hcomplete
    obtain ⟨us, p, h⟩ := ihyes hyes hrows
    exact ⟨us, p, derives_ifNext_of_yes hstarts hnull h⟩
  | body => exact ⟨_, _, .close⟩
  | commas close item ih =>
    obtain ⟨us, p, h⟩ := ih (predictive_commas_iff.1 hf).1 hcomplete
    exact ⟨_, p, .last h⟩

theorem begins_nil {f : Form} (hf : f.predictive = true) (hcomplete : f.complete = true) :
    Begins f.Derives [] := exists_derives hf hcomplete

/-! ## What reading looks at -/

theorem headKind?_congr {ts us : List PlacedToken} (h : us.head? = ts.head?) :
    headKind? (tokens us) = headKind? (tokens ts) := by
  simp only [headKind?, List.head?_map, h]

theorem head?_append_congr {α : Type} {rest tail : List α} (h : tail.head? = rest.head?)
    (used : List α) : (used ++ tail).head? = (used ++ rest).head? := by
  rw [List.head?_append, List.head?_append, h]

/-- What is read off the front of a row does not hang on more than the token behind it. -/
theorem read_congr {f : Form} (hf : f.predictive = true) {used rest tail : List PlacedToken}
    {p : Parts} (hhead : tail.head? = rest.head?) (h : f.read (used ++ rest) = .ok (p, rest)) :
    f.read (used ++ tail) = .ok (p, tail) := by
  induction f generalizing used rest tail p with
  | ifNext kind yes no ihyes ihno =>
    obtain ⟨hyes, hno, -⟩ := predictive_ifNext_iff.1 hf
    rw [read_ifNext] at h ⊢
    rw [headKind?_congr (head?_append_congr hhead used)]
    split at h
    · next hkind =>
      rw [if_pos hkind]
      exact ihyes hyes hhead h
    · next hkind =>
      rw [if_neg hkind]
      exact ihno hno hhead h
  | seq a b iha ihb =>
    simp only [read] at h
    split at h
    · cases h
    · next q ts ha =>
      obtain ⟨⟨r, rest'⟩, hb, heq⟩ := map_eq_ok_iff.1 h
      cases heq
      obtain ⟨hpredA, hpredB, -⟩ := predictive_seq_iff.1 hf
      -- The first part is used up before the second, so that it is followed by the same token.
      obtain ⟨us, hus, -⟩ := derives_of_read hpredA ha
      obtain ⟨vs, rfl, -⟩ := derives_of_read hpredB hb
      obtain rfl : used = us ++ vs := by simpa [← List.append_assoc] using hus
      rw [List.append_assoc] at ha ⊢
      rw [read, iha hpredA (head?_append_congr hhead vs) ha]
      exact map_eq_ok_iff.2 ⟨_, ihb hpredB hhead hb, rfl⟩
  | nested kind block inside ih =>
    obtain ⟨⟨q, rest'⟩, hq, heq⟩ := map_eq_ok_iff.1 h
    cases heq
    exact map_eq_ok_iff.2 ⟨_, ih hf hhead hq, rfl⟩
  -- All others end by themselves, without a look at the next token.
  | _ =>
    obtain ⟨us, hus, hderives⟩ := derives_of_read hf h
    obtain rfl := List.append_cancel_right hus
    exact read_of_derives hf hderives (by simp [Avoids, goesOn])

/-- What a reader reads off the front of a row stays the same in front of other tokens, if the first
of them is the same. -/
def LooksAhead (read : List PlacedToken → Reads Parts) : Prop :=
  ∀ {used rest p}, read (used ++ rest) = .ok (p, rest) →
    ∀ tail, tail.head? = rest.head? → read (used ++ tail) = .ok (p, tail)

theorem looksAhead_read {f : Form} (hf : f.predictive = true) : LooksAhead f.read :=
  fun h _ hhead => read_congr hf hhead h

/-! ## Where forms are refused -/

/-- A reader that refuses tokens stops behind some with which a row begins. -/
def StopsWithin (read : List PlacedToken → Reads Parts) (S : List Token → Parts → Prop) : Prop :=
  ∀ {ts e}, read ts = .error e → ∃ before, Stops read before e ts ∧ Begins S (tokens before)

theorem stops_refuse {expected : List TokenKind} {ts : List PlacedToken} {e : Rejection} {α : Type}
    (h : refuse (α := α) expected ts = .error e) : Stops (refuse (α := α) expected) [] e ts := by
  cases ts <;> cases h
  · exact .ended
  · exact .at_once (.unexpected _) fun _ => rfl

theorem stops_readKind {kind : TokenKind} {ts : List PlacedToken} {e : Rejection}
    (h : readKind kind ts = .error e) : Stops (readKind kind) [] e ts := by
  cases ts with
  | nil =>
    cases h
    exact .ended
  | cons t ts =>
    simp only [readKind] at h
    split at h
    · cases h
    · next hkind =>
      cases h
      exact .at_once (.unexpected _) fun _ => if_neg hkind

theorem stops_readLiteral {l : Literal} {ts : List PlacedToken} {e : Rejection}
    (h : readLiteral l ts = .error e) : Stops (readLiteral l) [] e ts := by
  cases ts with
  | nil =>
    cases h
    exact .ended
  | cons t ts =>
    simp only [readLiteral] at h
    split at h
    · cases h
    · next cause hread =>
      cases h
      refine .at_once (Literal.blames_of_read hread) fun more => ?_
      simp only [readLiteral, hread]

/-- A body stops where a statement does, or where the body behind a statement does. -/
theorem stopsWithin_readBody {read : List PlacedToken → Reads Parts}
    {S : List Token → Parts → Prop} (hfinds : Finds read S) (hlooks : LooksAhead read)
    (hstops : StopsWithin read S) : StopsWithin (readBody read) (Statements S) := by
  intro ts e h
  fun_induction readBody read ts with
  | case1 =>
    cases h
    exact ⟨[], .ended, _, _, .close⟩
  | case2 t ts hbreak ih =>
    obtain ⟨before, hstop, more, p, hrow⟩ := ih h
    refine ⟨[t] ++ before, hstop.behind [t] fun us _ hus => ?_, more, p, ?_⟩
    · rw [List.singleton_append, readBody, hbreak]
      exact hus
    · rw [tokens, List.map_append, List.map_singleton, isMark_iff.1 hbreak]
      exact hrow.semicolon
  | case3 => cases h
  | case4 t ts hbreak hend e' hread =>
    cases h
    obtain ⟨before, hstop, more, p, hrow⟩ := hstops hread
    refine ⟨before, hstop.behind [] fun us hhead hus => ?_, more ++ [.punct .blockEnd],
      p ++ .none, ?_⟩
    -- The statement starts with the same token, so that neither mark stands there.
    · obtain ⟨us, rfl⟩ := List.head?_eq_some_iff.1 hhead
      rw [List.nil_append, readBody, if_neg hbreak, if_neg hend, hus]
    · rw [← List.append_assoc]
      exact .statement hrow .close
  | case5 t ts hbreak hend q ts' hread hlt e' hrest ih =>
    cases h
    obtain ⟨before, hstop, more, p, hrow⟩ := ih hrest
    obtain ⟨used, hne, hused, hS⟩ := hfinds hread
    refine ⟨used ++ before, hused ▸ hstop.behind used fun us hhead hus => ?_, more, q ++ p, ?_⟩
    · obtain ⟨u, used, rfl⟩ := List.exists_cons_of_ne_nil hne
      obtain ⟨rfl, -⟩ := List.cons.inj hused
      rw [hused] at hread
      have hlen : us.length < (used ++ us).length + 1 := by
        rw [List.length_append]
        omega
      have hagain := hlooks hread us hhead
      rw [List.cons_append] at hagain ⊢
      rw [readBody, if_neg hbreak, if_neg hend, hagain]
      simp only [if_pos hlen, hus]
    · rw [tokens, List.map_append, List.append_assoc]
      exact .statement hS hrow
  | case6 => cases h
  | case7 => cases h

/-- A row of items stops where an item does, behind an item, or where the items behind a comma
do. -/
theorem stopsWithin_readCommas {read : List PlacedToken → Reads Parts} {close : Punct}
    {S : List Token → Parts → Prop} (hfinds : Finds read S) (hlooks : LooksAhead read)
    (hstops : StopsWithin read S) : StopsWithin (readCommas close read) (Items S close) := by
  intro ts e h
  -- What stands behind an item is a comma, the closing mark, or to blame.
  fun_induction readCommas close read ts with
  | case1 ts e' hread =>
    cases h
    obtain ⟨before, hstop, more, p, hrow⟩ := hstops hread
    refine ⟨before, hstop.imp fun us hus => ?_, more ++ [.punct close], p, ?_⟩
    · rw [readCommas, hus]
    · rw [← List.append_assoc]
      exact .last hrow
  | case2 ts q hread =>
    cases h
    obtain ⟨used, -, rfl, hS⟩ := hfinds hread
    rw [List.append_nil]
    exact ⟨used, .ended, _, q, .last hS⟩
  | case3 ts q t ts' hread hcomma hlt e' hrest ih =>
    cases h
    obtain ⟨before, hstop, more, p, hrow⟩ := ih hrest
    obtain ⟨used, -, rfl, hS⟩ := hfinds hread
    refine ⟨(used ++ [t]) ++ before, ?_, more, q ++ p, ?_⟩
    · have hts : used ++ t :: ts' = used ++ [t] ++ ts' := by simp
      rw [hts]
      refine hstop.behind (used ++ [t]) fun us _ hus => ?_
      have hlen : us.length < (used ++ t :: us).length := by
        simp only [List.length_append, List.length_cons]
        omega
      rw [List.append_assoc, List.singleton_append, readCommas, hlooks hread (t :: us) rfl]
      simp only [if_pos hcomma, if_pos hlen, hus]
    · have hrow' := Items.more hS hrow
      rw [← isMark_iff.1 hcomma] at hrow'
      simpa using hrow'
  | case4 => cases h
  | case5 => cases h
  | case6 => cases h
  | case7 ts q t ts' hread hcomma hclose =>
    cases h
    obtain ⟨used, -, rfl, hS⟩ := hfinds hread
    refine ⟨used, .token (.unexpected _) fun more => ?_, _, q, .last hS⟩
    rw [readCommas, hlooks hread (t :: more) rfl]
    simp only [if_neg hcomma, if_neg hclose]
    rfl

/-- Two forms stop where the first one does, or where the second one does behind it. -/
theorem stopsWithin_seq {a b : Form} (hpred : a.predictive = true)
    (ha : StopsWithin a.read a.Derives) (hb : StopsWithin b.read b.Derives)
    (hrow : ∃ ts p, b.Derives ts p) : StopsWithin (seq a b).read (seq a b).Derives := by
  intro ts e h
  simp only [read] at h
  split at h
  · next e' hread =>
    cases h
    -- What the first form begins is completed by a row of the second.
    obtain ⟨before, hstop, more, p, hrowA⟩ := ha hread
    obtain ⟨others, q, hothers⟩ := hrow
    refine ⟨before, hstop.imp fun us hus => ?_, more ++ others, _, _, _, p, q, hrowA, hothers, ?_,
      rfl⟩
    · rw [read, hus]
    · rw [List.append_assoc]
  · next q ts' hread =>
    obtain ⟨before, hstop, more, p, hrowB⟩ := hb (map_eq_error_iff.1 h)
    obtain ⟨used, rfl, hused⟩ := derives_of_read hpred hread
    refine ⟨used ++ before, hstop.behind used fun us hhead hus => ?_, more, _, _, _, q, p, hused,
      hrowB, ?_, rfl⟩
    · rw [read, read_congr hpred hhead hread]
      exact map_eq_error_iff.2 hus
    · rw [tokens, List.map_append, List.append_assoc]

/-- Two alternatives stop where the one does that the next token decides for. -/
theorem stopsWithin_ifNext {kind : TokenKind} {yes no : Form}
    (hstarts : ∀ k ∈ yes.starts, k = kind) (hnull : yes.nullable = false)
    (hbegins : Begins (ifNext kind yes no).Derives []) (hyes : StopsWithin yes.read yes.Derives)
    (hno : no.isFail = true ∨ StopsWithin no.read no.Derives) :
    StopsWithin (ifNext kind yes no).read (ifNext kind yes no).Derives := by
  intro ts e h
  rw [read_ifNext] at h
  split at h
  · -- The rows of the first form are rows of the whole.
    next hhead =>
    obtain ⟨before, hstop, more, p, hrow⟩ := hyes h
    refine ⟨before, hstop.behind [] fun us hus hread => ?_, more, p,
      derives_ifNext_of_yes hstarts hnull hrow⟩
    rw [List.nil_append, read_ifNext, headKind?_congr hus, if_pos hhead, hread]
  · next hhead =>
    have houter : ∀ us : List PlacedToken, us.head? = ts.head? → no.read us = .error e →
        (ifNext kind yes no).read us = .error e := by
      intro us hus hread
      rw [read_ifNext, headKind?_congr hus, if_neg hhead, hread]
    rcases hno with hfail | hno
    · -- The last alternative is refused at once, where rows of the first form begin.
      cases no
      case fail expected => exact ⟨[], (stops_refuse h).behind [] houter, hbegins⟩
      all_goals cases hfail
    · obtain ⟨before, hstop, more, p, hrow⟩ := hno h
      -- The second form may stop in front of the next token, and its rows may start with that of
      -- the first one then.
      cases before with
      | nil => exact ⟨[], hstop.behind [] houter, hbegins⟩
      | cons u us =>
        obtain ⟨rest, rfl⟩ := hstop.isPrefix
        have hkind : u.token.kind ≠ kind := fun h => hhead (congrArg some h)
        refine ⟨u :: us, hstop.behind [] houter, more, p, ?_⟩
        simpa [Derives, headKind?, hkind] using hrow

/-- A form is refused behind tokens with which one of its rows begins. -/
theorem stops_of_read {f : Form} (hf : f.predictive = true) (hcomplete : f.complete = true) :
    StopsWithin f.read f.Derives := by
  induction f with
  | empty | flag => rintro ts e ⟨⟩
  | fail => cases hcomplete
  -- A single token is refused where it stands, and any row may still begin there.
  | eat kind =>
    intro ts e h
    refine ⟨[], (stops_readKind (map_eq_error_iff.1 h)).imp fun us hus => ?_,
      begins_nil hf hcomplete⟩
    exact map_eq_error_iff.2 hus
  | header kind l | take kind l =>
    intro ts e h
    refine ⟨[], (stops_readLiteral (map_eq_error_iff.1 h)).imp fun us hus => ?_,
      begins_nil hf hcomplete⟩
    exact map_eq_error_iff.2 hus
  | seq a b iha ihb =>
    obtain ⟨hpredA, hpredB, -⟩ := predictive_seq_iff.1 hf
    obtain ⟨hcompleteA, hcompleteB⟩ := complete_seq_iff.1 hcomplete
    exact stopsWithin_seq hpredA (iha hpredA hcompleteA) (ihb hpredB hcompleteB)
      (exists_derives hpredB hcompleteB)
  | nested kind block inside ih =>
    intro ts e h
    obtain ⟨before, hstop, more, p, hrow⟩ := ih hf hcomplete (map_eq_error_iff.1 h)
    exact ⟨before, hstop.imp fun us hus => map_eq_error_iff.2 hus, more, _, p, hrow, rfl⟩
  | ifNext kind yes no ihyes ihno =>
    obtain ⟨hyes, hno, hnull⟩ := predictive_ifNext_iff.1 hf
    obtain ⟨hrows, hstarts, hlast⟩ := complete_ifNext_iff.1 hcomplete
    exact stopsWithin_ifNext hstarts hnull (begins_nil hf hcomplete) (ihyes hyes hrows)
      (hlast.imp_right (ihno hno))
  | body statement ih =>
    obtain ⟨hpred, hnull, -⟩ := predictive_body_iff.1 hf
    exact stopsWithin_readBody ((derives_of_read hpred).finds hnull) (looksAhead_read hpred)
      (ih hpred hcomplete)
  | commas close item ih =>
    obtain ⟨hpred, hnull, -⟩ := predictive_commas_iff.1 hf
    exact stopsWithin_readCommas ((derives_of_read hpred).finds hnull) (looksAhead_read hpred)
      (ih hpred hcomplete)

end Form

/-! ## Where descriptions are refused -/

namespace Grammar

/-- Each form within the forms at the top has a row. -/
theorem complete_top {k : Keyword} {f : Form} (h : top? k = some f) : f.complete = true := by
  have hshader : shader.complete = true := by decide
  cases k <;> cases h
  case options => decide
  case shader => exact hshader
  case mixin => exact hshader
  case subShader => decide

/-- Descriptions are refused behind tokens with which some description begins. -/
theorem stops_of_readTop {ts : List PlacedToken} {e : Rejection} (h : readTop ts = .error e) :
    ∃ before, Stops readTop before e ts ∧
      ∃ more items, Sentence.Root (tokens before ++ more) items := by
  -- A block at the top is refused behind its keyword or inside, or what follows it is refused.
  fun_induction readTop ts with
  | case1 => cases h
  | case2 t rest hbreak ih =>
    obtain ⟨before, hstop, more, items, hroot⟩ := ih h
    refine ⟨[t] ++ before, hstop.behind [t] fun us _ hus => ?_, more, items, ?_⟩
    · rw [List.singleton_append, readTop, if_pos hbreak, hus]
    · rw [tokens, List.map_append, List.map_singleton, isMark_iff.1 hbreak]
      exact hroot.semicolon
  | case3 t rest hbreak k hk htop =>
    cases h
    refine ⟨[], .at_once .unknown fun more => ?_, [], [], .done⟩
    rw [readTop, if_neg hbreak]
    simp only [hk, htop]
  | case4 t rest hbreak k hk f hf e' hread =>
    cases h
    obtain ⟨before, hstop, more, p, hrow⟩ :=
      Form.stops_of_read (predictive_top hf).1 (complete_top hf) hread
    obtain ⟨_, @⟨_, i, htop⟩, -⟩ := (writes_top hf _ _).1 hrow
    refine ⟨[t] ++ before, hstop.behind [t] fun us _ hus => ?_, more, [i], ?_⟩
    · rw [List.singleton_append, readTop, if_neg hbreak]
      simp only [hk, hf, hus]
    · rw [tokens, List.map_append, List.map_singleton, hk, ← List.append_nil (_ ++ more)]
      exact Sentence.Root.block htop .done
  | case5 t rest hbreak k hk f hf q ts' hread hle e' hrest ih =>
    cases h
    obtain ⟨before, hstop, more, items, hroot⟩ := ih hrest
    obtain ⟨hpred, hends⟩ := predictive_top hf
    obtain ⟨used, rfl, hused⟩ := (Form.read_eq_ok_iff hpred hends).1 hread
    obtain ⟨_, @⟨_, i, htop⟩, -⟩ := (writes_top hf _ _).1 hused
    refine ⟨(t :: used) ++ before, hstop.behind (t :: used) fun us hhead hus => ?_, more,
      i :: items, ?_⟩
    · have hlen : us.length ≤ (used ++ us).length := by simp
      rw [List.cons_append, readTop, if_neg hbreak]
      simp only [hk, hf, Form.read_congr hpred hhead hread, if_pos hlen, hus]
    · rw [tokens, List.map_append, List.map_cons, hk, List.append_assoc]
      exact Sentence.Root.block htop hroot
  | case6 => cases h
  | case7 => cases h
  | case8 t rest hbreak hk =>
    cases h
    refine ⟨[], .at_once .unknown fun more => ?_, [], [], .done⟩
    rw [readTop, if_neg hbreak]
    split
    · next k hk' => exact absurd hk' (hk k)
    · rfl

end Grammar

/-! ## The fault -/

namespace Arena

theorem ofTokens_eq_error_iff {ts : List PlacedToken} {e : Fault} :
    ofTokens ts = .error e ↔ ∃ r, Grammar.readTop ts = .error r ∧ e = r.fault ts := by
  rw [ofTokens, Outcome.map_eq_error_iff, Tree.ofTokens]
  cases Grammar.readTop ts <;> simp [eq_comm]

/-- Some description begins with these tokens. -/
def Viable (ts : List PlacedToken) : Prop := ∃ more r, ofTokens (ts ++ more) = .ok r

theorem Viable.of_append {ts us : List PlacedToken} (h : Viable (ts ++ us)) : Viable ts := by
  obtain ⟨more, r, hr⟩ := h
  exact ⟨us ++ more, r, by rw [← List.append_assoc, hr]⟩

theorem viable_of_root {ts : List PlacedToken} {more : List Token} {items : List (Setting Tree)}
    (h : Sentence.Root (tokens ts ++ more) items) : Viable ts := by
  -- Tokens are read alike wherever they are placed.
  let placed : List PlacedToken := more.map fun t => ⟨none, 0, 0, t⟩
  have hplaced : tokens (ts ++ placed) = tokens ts ++ more := by
    simp [tokens, placed, Function.comp_def]
  have htree : Tree.ofTokens (ts ++ placed) = .ok (.declaring .root items) :=
    Tree.ofTokens_eq_ok_iff.2 ⟨items, hplaced ▸ h, rfl⟩
  exact ⟨placed, _, Outcome.map_eq_ok_iff.2 ⟨_, htree, rfl⟩⟩

/-- A fault lies at the first token with which no description goes on, or at the last token of those
that only begin one. -/
theorem fault_cases {ts : List PlacedToken} {e : Fault} (h : ofTokens ts = .error e) :
    (∃ before t rest, ts = before ++ t :: rest ∧ e.IsAt t ∧ e.cause.Blames t.token ∧
      Viable before ∧ ¬ Viable (before ++ [t])) ∨
    (e.cause = .eof ∧ Viable ts ∧ ∃ t, ts.getLast? = some t ∧ e.IsAt t) := by
  obtain ⟨r, hr, rfl⟩ := ofTokens_eq_error_iff.1 h
  obtain ⟨before, hstop, more, items, hroot⟩ := Grammar.stops_of_readTop hr
  have hviable := viable_of_root hroot
  cases hstop with
  | @token t cause rest hcause hread =>
    refine .inl ⟨before, t, rest, rfl, ⟨rfl, rfl, rfl⟩, hcause, hviable, ?_⟩
    -- Whatever comes behind the token, reading stops at it.
    rintro ⟨more, r, hr⟩
    rw [List.append_assoc, List.singleton_append,
      ofTokens_eq_error_iff.2 ⟨_, hread more, rfl⟩] at hr
    cases hr
  | ended =>
    -- No token at all is a description, so that there is a last one.
    have hne : ts ≠ [] := by
      rintro rfl
      rw [Grammar.readTop] at hr
      cases hr
    have hlast := List.getLast?_eq_some_getLast hne
    refine .inr ⟨?_, hviable, _, hlast, ?_⟩
    · rw [Rejection.fault, hlast]
    · rw [Rejection.fault, hlast]
      exact ⟨rfl, rfl, rfl⟩

/-- The parser reports the earliest possible fault at its exact place. A fault other than an early
end lies at the first token with which no description goes on: those in front of it begin one, and
with it they begin none. The fault has its place and names it. An early end is reported exactly if
the tokens begin a description and are none, and then at the last of them. -/
theorem ofTokens_stops_first (ts : List PlacedToken) :
    (∀ e, ofTokens ts = .error e → e.cause ≠ .eof →
      ∃ k t, ts[k]? = some t ∧ Viable (ts.take k) ∧ ¬ Viable (ts.take (k + 1)) ∧ e.IsAt t ∧
        e.cause.Blames t.token) ∧
    ((∃ e, ofTokens ts = .error e ∧ e.cause = .eof) ↔ Viable ts ∧ ¬ ∃ r, ofTokens ts = .ok r) ∧
    ∀ e, ofTokens ts = .error e → e.cause = .eof → ∃ t, ts.getLast? = some t ∧ e.IsAt t := by
  refine ⟨fun e he hcause => ?_, ⟨?_, ?_⟩, fun e he hcause => ?_⟩
  · obtain ⟨before, t, rest, rfl, hat, hblames, hbefore, hbehind⟩ | ⟨heof, -⟩ := fault_cases he
    · refine ⟨before.length, t, ?_, ?_, ?_, hat, hblames⟩
      · simp
      · rwa [List.take_left]
      · rwa [List.take_length_add_append]
    · exact absurd heof hcause
  · rintro ⟨e, he, hcause⟩
    refine ⟨?_, ?_⟩
    · obtain ⟨_, t, _, _, -, hblames, -⟩ | ⟨-, hviable, -⟩ := fault_cases he
      · exact absurd hcause hblames.ne_eof
      · exact hviable
    · rintro ⟨r, hr⟩
      rw [he] at hr
      cases hr
  · rintro ⟨hviable, hnot⟩
    cases he : ofTokens ts with
    | ok r => exact absurd ⟨r, he⟩ hnot
    | error e =>
      obtain ⟨before, t, rest, rfl, -, -, -, hbehind⟩ | ⟨heof, -⟩ := fault_cases he
      -- What begins a description cannot go on with a token to blame.
      · rw [List.append_cons] at hviable
        exact absurd hviable.of_append hbehind
      · exact ⟨e, rfl, heof⟩
  · obtain ⟨_, t, _, _, -, hblames, -⟩ | ⟨-, -, hlast⟩ := fault_cases he
    · exact absurd hcause hblames.ne_eof
    · exact hlast

end Arena
end ShaderLang
