import ShaderLang.Hlsl.Reflect
import ShaderLang.Proofs.Number.Decimal
import ShaderLang.Proofs.Text.Greedy
/-!
# Integers in initializers

An initializer writes an integer alone, or several as the arguments of a call, and calls may be
nested. Names are put out of sight first, each as a blank, so that their digits are not read. What
is found then are just the integers, one by one, since nothing of what stands between them is part
of a number.

## Main definitions

* `Hlsl.isMark` — what may stand between integers: blanks, parentheses and commas
* `Hlsl.Writes` — a text that writes integers, with names or without

## Main results

* `Hlsl.Writes.blanked` — the names are put out of sight
* `Hlsl.Writes.numbers_eq` — the numbers of an initializer are its integers
-/

namespace ShaderLang

/-! ## Characters between integers -/

namespace Text

/-- All blanks. -/
def blanks : List Char :=
  [9, 10, 11, 12, 13, 32, 0x85, 0xA0, 0x1680, 0x2000, 0x2001, 0x2002, 0x2003, 0x2004, 0x2005,
    0x2006, 0x2007, 0x2008, 0x2009, 0x200A, 0x2028, 0x2029, 0x202F, 0x205F, 0x3000].map Char.ofNat

theorem mem_blanks_of_isBlank {c : Char} (h : isBlank c = true) : c ∈ blanks := by
  refine List.mem_map.2 ⟨c.toNat, ?_, Char.ofNat_toNat c⟩
  simp only [isBlank, Bool.or_eq_true, Bool.and_eq_true, decide_eq_true_eq, beq_iff_eq] at h
  simp only [List.mem_cons, List.not_mem_nil, or_false]
  omega

theorem isDigit_of_isDigit {c : Char} (h : c.isDigit = true) : isDigit c = true := by
  have hdigit : 48 ≤ c.toNat ∧ c.toNat ≤ 57 := Char.isDigit_iff_toNat.1 h
  rw [isDigit, if_pos (by omega), h]

end Text

namespace Hlsl

open Pattern
open Number (Numeral)

/-- What may stand between integers: a blank, a parenthesis or a comma. -/
def isMark (x : Char) : Bool := Text.isBlank x || ['(', ')', ','].contains x

variable {x : Char} {u text : List Char} {ws : List Numeral} {named : Bool} {c d : Cursor}

theorem mem_of_isMark (h : isMark x = true) : x ∈ Text.blanks ++ ['(', ')', ','] := by
  rcases Bool.or_eq_true_iff.1 h with hblank | hother
  · exact List.mem_append_left _ (Text.mem_blanks_of_isBlank hblank)
  · exact List.mem_append_right _ (List.contains_iff_mem.1 hother)

/-- What holds of the few marks that there are holds of every mark. -/
theorem holds_of_isMark {p : Char → Bool} (hp : (Text.blanks ++ ['(', ')', ',']).all p = true)
    (h : isMark x = true) : p x = true :=
  List.all_eq_true.1 hp x (mem_of_isMark h)

/-- A mark is part of no word and of no number. -/
theorem isWord_of_isMark (h : isMark x = true) : Text.isWord x = false := by
  have hx := @holds_of_isMark x (fun x => !Text.isWord x) (by decide +kernel) h
  simpa using hx

theorem startsBy_of_isMark (h : isMark x = true) :
    boundIdent.startsBy x = false ∧ number.startsBy x = false := by
  have hx := @holds_of_isMark x (fun x => !boundIdent.startsBy x && !number.startsBy x)
    (by decide +kernel) h
  simpa using hx

/-- A mark goes on with nothing that a number may have. -/
theorem not_in_number_of_isMark (h : isMark x = true) :
    Text.isDigit x = false ∧ x ≠ '.' ∧ x ≠ 'e' ∧ x ≠ 'E' := by
  have hx := @holds_of_isMark x
    (fun x => !Text.isDigit x && (x != '.' && (x != 'e' && x != 'E'))) (by decide +kernel) h
  simpa using hx

/-! ## Texts that write integers -/

/-- What follows, if anything does, is a mark. -/
def Marked (text : List Char) : Prop := ∀ x ∈ text.head?, isMark x = true

/-- A text that writes integers, each up to the next mark, and has names beside them if it may. -/
inductive Writes : Bool → List Char → List Numeral → Prop
  | nil {named : Bool} : Writes named [] []
  | mark {named : Bool} {x : Char} {text : List Char} {ws : List Numeral} (hx : isMark x = true)
      (h : Writes named text ws) : Writes named (x :: text) ws
  | name {u text : List Char} {ws : List Numeral} (hu : u ∈ ident.language) (hend : Marked text)
      (h : Writes true text ws) : Writes true (u ++ text) ws
  | numeral {named : Bool} {text : List Char} {ws : List Numeral} (w : Numeral)
      (hend : Marked text) (h : Writes named text ws) : Writes named (w.text ++ text) (w :: ws)

/-- A name does not go on at the point. -/
def Unbound (c : Cursor) : Prop :=
  (c.before.map Text.isWord).getD false = false ∨ Marked c.rest

theorem marked_cons (hx : isMark x = true) : Marked (x :: text) := by
  rintro y hy
  cases hy
  exact hx

theorem mem_language_ident : u ∈ ident.language ↔
    ∃ x v, u = x :: v ∧ (x.isAlpha || x == '_') = true ∧ ∀ y ∈ v, Text.isWord y = true := by
  constructor
  · rintro ⟨_, ⟨x, hx, rfl⟩, v, hv, rfl⟩
    exact ⟨x, v, rfl, hx, (mem_language_run _).1 hv⟩
  · rintro ⟨x, v, rfl, hx, hv⟩
    exact ⟨[x], ⟨x, hx, rfl⟩, v, (mem_language_run _).2 hv, rfl⟩

theorem isWord_of_alpha (h : (x.isAlpha || x == '_') = true) : Text.isWord x = true := by
  rcases Bool.or_eq_true_iff.1 h with halpha | hline
  · refine Text.isWord_of_isAlphanum ?_
    rw [Char.isAlphanum, halpha, Bool.true_or]
  · rw [beq_iff_eq.1 hline]
    decide +kernel

/-- A name that starts at the point is passed over as a whole. -/
theorem at?_boundIdent (hc : (c.before.map Text.isWord).getD false = false)
    (hu : u ∈ ident.language) (hspan : c.Spans u d) (hend : Marked d.rest) :
    boundIdent.at? c = some ⟨[], d⟩ := by
  obtain ⟨x, v, rfl, hx, hv⟩ := mem_language_ident.1 hu
  obtain ⟨xs, hrest, hspan⟩ := hspan
  have hbound : c.isWordBoundary = true := by
    rw [Cursor.isWordBoundary, hc, hrest, List.head?_cons, Option.map_some, Option.getD_some,
      isWord_of_alpha hx]
    rfl
  have hrun : (run Text.isWord).first? (c.past x xs) (fun e => some ⟨[], e⟩) = some ⟨[], d⟩ :=
    first?_run_of_spans hspan hv (fun y hy => isWord_of_isMark (hend y hy)) rfl
  simp only [at?, boundIdent, wordBoundary, ident, first?, hbound, if_true, hrest, hx]
  exact hrun

/-! ## The parts of a number -/

/-- The sign of a number. -/
def signMark : Pattern := one fun c => c == '-' || c == '+'

/-- The digits of a number, with a point among them or behind them. -/
def wholePart : Pattern := seqs [run1 Text.isDigit, opt (lit "."), run Text.isDigit]

/-- The exponent of a number. -/
def exponentPart : Pattern :=
  seqs [one fun c => c == 'e' || c == 'E', opt signMark, run1 Text.isDigit]

theorem number_eq : number =
    seqs [opt signMark, alt wholePart (seq (lit ".") (run1 Text.isDigit)), opt exponentPart] := rfl

variable {go : Cursor → Option Found} {f : Found} {sign ds : List Char}

/-- A mark ends a number. -/
theorem first?_opt_exponentPart (hend : Marked c.rest) :
    (opt exponentPart).first? c go = go c := by
  refine first?_opt_of_head rfl fun x hx => ?_
  obtain ⟨-, -, hsmall, hlarge⟩ := not_in_number_of_isMark (hend x hx)
  simp [exponentPart, seqs, startsBy, nullable, hsmall, hlarge]

theorem first?_wholePart (hspan : c.Spans ds d) (hne : ds ≠ [])
    (hdigits : ∀ x ∈ ds, x.isDigit = true) (hend : Marked d.rest) (hgo : go d = some f) :
    wholePart.first? c go = some f := by
  have hstop : ∀ x ∈ d.rest.head?, Text.isDigit x = false := fun x hx =>
    (not_in_number_of_isMark (hend x hx)).1
  have hpoint : (opt (lit ".")).first? d (fun e => (run Text.isDigit).first? e go) =
      (run Text.isDigit).first? d go := by
    refine first?_opt_of_head rfl fun x hx => ?_
    obtain ⟨-, hpoint, -, -⟩ := not_in_number_of_isMark (hend x hx)
    simp [lit, startsBy, nullable, hpoint]
  have hmore : (run Text.isDigit).first? d go = some f :=
    first?_run_of_spans (u := []) rfl (List.forall_mem_nil _) hstop hgo
  have hall : ∀ x ∈ ds, Text.isDigit x = true := fun x hx => Text.isDigit_of_isDigit (hdigits x hx)
  exact first?_run1_of_spans hspan hne hall hstop (hpoint.trans hmore)

theorem first?_opt_signMark (hsign : sign ∈ Number.signs) (hspan : c.Spans sign d)
    (hd : ∀ x ∈ d.rest.head?, x.isDigit = true) (hgo : go d = some f) :
    (opt signMark).first? c go = some f := by
  simp only [Number.signs, List.mem_cons, List.not_mem_nil, or_false] at hsign
  rcases hsign with rfl | rfl | rfl
  · obtain rfl : d = c := hspan
    rw [first?_opt_of_head rfl, hgo]
    intro x hx
    have hdigit := hd x hx
    simp only [signMark, startsBy, Bool.or_eq_false_iff, beq_eq_false_iff_ne]
    constructor <;> rintro rfl <;> exact absurd hdigit (by decide)
  · obtain ⟨xs, hrest, rfl⟩ := hspan
    refine first?_opt_of_some ?_
    simp [signMark, first?, hrest, hgo]
  · obtain ⟨xs, hrest, rfl⟩ := hspan
    refine first?_opt_of_some ?_
    simp [signMark, first?, hrest, hgo]

/-- An integer in front of a mark is passed over as a whole. -/
theorem at?_number (w : Numeral) (hspan : c.Spans w.text d) (hend : Marked d.rest) :
    number.at? c = some ⟨[], d⟩ := by
  obtain ⟨sign, hsign, ds, n, htext, hn, -⟩ := Number.exists_of_read32 w.reads
  obtain ⟨hne, hdigits, -⟩ := Number.natural?_eq_some_iff.1 hn
  obtain ⟨e, hspan, hspan'⟩ := Cursor.spans_append_iff.1 (htext ▸ hspan)
  have hstart : ∀ x ∈ e.rest.head?, x.isDigit = true := by
    intro x hx
    rw [hspan'.rest, List.head?_append_of_ne_nil _ hne] at hx
    exact hdigits x (List.mem_of_mem_head? hx)
  have hwhole : wholePart.first? e (fun e => (opt exponentPart).first? e fun e => some ⟨[], e⟩) =
      some ⟨[], d⟩ :=
    first?_wholePart hspan' hne hdigits hend (first?_opt_exponentPart hend)
  rw [at?, number_eq]
  refine first?_opt_signMark hsign hspan hstart ?_
  change (first? (alt wholePart _) e fun e => (opt exponentPart).first? e fun e => some ⟨[], e⟩) = _
  rw [first?, hwhole]
  rfl

/-! ## Reading an initializer -/

/-- An integer is a text of signs and digits, in which no name starts. -/
theorem text_numeral (w : Numeral) :
    w.text ≠ [] ∧ ∀ x ∈ w.text, boundIdent.startsBy x = false := by
  obtain ⟨sign, hsign, ds, n, htext, hn, -⟩ := Number.exists_of_read32 w.reads
  obtain ⟨hne, hdigits, -⟩ := Number.natural?_eq_some_iff.1 hn
  rw [htext]
  refine ⟨List.append_ne_nil_of_right_ne_nil _ hne, List.forall_mem_append.2 ⟨?_, fun x hx => ?_⟩⟩
  · have hall : (Number.signs.all fun sign => sign.all fun x => !boundIdent.startsBy x) = true := by
      decide +kernel
    have hchars := List.all_eq_true.1 (List.all_eq_true.1 hall sign hsign)
    exact fun x hx => by simpa using hchars x hx
  · have hdigit : 48 ≤ x.toNat ∧ x.toNat ≤ 57 := Char.isDigit_iff_toNat.1 (hdigits x hx)
    have hall : ∀ n < 58, 48 ≤ n → boundIdent.startsBy (Char.ofNat n) = false := by
      decide +kernel
    exact Char.ofNat_toNat x ▸ hall x.toNat (Nat.lt_succ_of_le hdigit.2) hdigit.1

/-- The names are put out of sight: what is left writes the same integers. -/
theorem Writes.blanked (h : Writes named text ws) :
    ∃ out, Writes false out ws ∧ (Marked text → Marked out) ∧
      ∀ c, c.rest = text → Unbound c → boundIdent.replaceFrom (fun _ => [' ']) c = out := by
  induction h with
  | nil => exact ⟨[], .nil, id, fun c hc _ => replaces_nil c hc⟩
  | @mark named x text ws hx _ ih =>
    obtain ⟨out, hout, -, hreplace⟩ := ih
    refine ⟨x :: out, .mark hx hout, fun _ => marked_cons hx, fun c hc _ => ?_⟩
    have hspan : c.Spans [x] (c.past x text) := ⟨text, hc, rfl⟩
    have hunbound : Unbound (c.past x text) := .inl (isWord_of_isMark hx)
    rw [replaceFrom_of_not_startsBy hspan (List.forall_mem_singleton.2 (startsBy_of_isMark hx).1),
      hreplace (c.past x text) rfl hunbound]
    rfl
  | @name u text ws hu hend _ ih =>
    obtain ⟨out, hout, -, hreplace⟩ := ih
    have hblank : isMark ' ' = true := by decide
    refine ⟨' ' :: out, .mark hblank hout, fun _ => marked_cons hblank, fun c hc hunbound => ?_⟩
    obtain ⟨x, v, rfl, hx, -⟩ := mem_language_ident.1 hu
    -- A name is no mark, so that nothing of it stands before the point.
    have hbefore : (c.before.map Text.isWord).getD false = false := by
      refine hunbound.resolve_right fun hmarked => ?_
      have hword := isWord_of_isMark (hmarked x (by rw [hc]; rfl))
      cases hword.symm.trans (isWord_of_alpha hx)
    obtain ⟨d, hspan, hd⟩ := Cursor.exists_spans hc
    have hmatch := at?_boundIdent hbefore hu hspan (hd ▸ hend)
    rw [Pattern.replaceFrom_of_at? hmatch (hspan.offset_lt (List.cons_ne_nil x v)),
      hreplace d hd (.inr (hd ▸ hend))]
    rfl
  | @numeral named text ws w hend _ ih =>
    obtain ⟨out, hout, hmarked, hreplace⟩ := ih
    obtain ⟨hne, hchars⟩ := text_numeral w
    refine ⟨w.text ++ out, .numeral w (hmarked hend) hout, fun h x hx => ?_, fun c hc _ => ?_⟩
    · rw [List.head?_append_of_ne_nil _ hne] at hx
      exact h x (by rwa [List.head?_append_of_ne_nil _ hne])
    · obtain ⟨d, hspan, hd⟩ := Cursor.exists_spans hc
      rw [replaceFrom_of_not_startsBy hspan hchars, hreplace d hd (.inr (hd ▸ hend))]

/-- What is found are the integers, one by one. -/
theorem Writes.texts_eq (h : Writes false text ws) (hc : c.rest = text) :
    (number.matchesFrom c).map Match.text = ws.map Numeral.text := by
  generalize hnamed : false = named at h
  induction h generalizing c with
  | nil => rw [matchesFrom_of_nil hc, List.map_nil, List.map_nil]
  | mark hx _ ih =>
    rw [matchesFrom_of_not_startsBy (startsBy_of_isMark hx).2 hc]
    exact ih rfl hnamed
  | name => cases hnamed
  | numeral w hend _ ih =>
    obtain ⟨d, hspan, hd⟩ := Cursor.exists_spans hc
    have hmatch := at?_number w hspan (hd ▸ hend)
    rw [matchesFrom_of_at? hmatch (hspan.offset_lt (text_numeral w).1), List.map_cons,
      List.map_cons, ih hd hnamed]
    exact congrArg (· :: _) hspan.textTo

/-- The numbers of an initializer are its integers. -/
theorem Writes.numbers_eq (h : Writes true text ws) : numbers text = ws.map Numeral.single := by
  obtain ⟨out, hout, -, hreplace⟩ := h.blanked
  have htext : boundIdent.replace (fun _ => [' ']) text = out :=
    hreplace (.start text) rfl (.inl rfl)
  have hread : ∀ ms : List Match, (ms.filterMap fun m => Binary32.ofText? m.text) =
      (ms.map Match.text).filterMap Binary32.ofText? := fun ms => by
    rw [List.filterMap_map]
    rfl
  have hmatches := hout.texts_eq (c := .start out) rfl
  rw [numbers, htext, hread]
  change (List.map Match.text (number.matchesFrom (.start out))).filterMap _ = _
  rw [hmatches, List.filterMap_map]
  refine List.filterMap_eq_map_iff_forall_eq_some.2 fun w _ => w.ofText?_text

end Hlsl
end ShaderLang
