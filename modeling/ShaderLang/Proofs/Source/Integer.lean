import ShaderLang.Proofs.Number.Radix
import ShaderLang.Proofs.Source.Ending
import ShaderLang.Proofs.Source.Spelling
/-!
# Integers are read in two ways

Where tokens are read, an integer of 32 bits is one token; in conditions and in the expressions of
defines it is a number of 64 bits. Both ways know decimal and hexadecimal integers, and they agree
on all integers of 32 bits that have no minus sign in front of a mark. Behind such a sign a token
may be anything down to one above the lowest integer, and an expression is nothing at all. What
does not fit is never cut to fit.

## Main definitions

* `Number.Spelling.IsToken` — a spelling that is one token

## Main results

* `Token.ofNumber?_text`, `Scan.step_text` — an integer where tokens are read
* `Scan.integers_read` — what an integer alone is read as, in both ways
* `Scan.negative_mark_apart` — the two ways differ where a sign stands in front of a mark
-/

namespace ShaderLang

open Number (Spelling Radix)

/-- The spelling is one token: it writes an integer of 32 bits, which is not the lowest one if it is
written in hexadecimal. -/
structure Number.Spelling.IsToken (w : Spelling) : Prop where
  low : -2147483648 ≤ w.value
  high : w.value ≤ 2147483647
  mark : w.radix ≠ .decimal → w.value ≠ -2147483648

namespace Number.Spelling

variable (w : Spelling)

theorem head_text : (w.text.head? == some '-') = w.negative := by
  cases hnegative : w.negative with
  | true => simp [text, sign, hnegative]
  | false =>
    have htext : w.text = w.radix.mark ++ w.digits := by simp [text, sign, hnegative]
    rw [htext, beq_eq_false_iff_ne]
    cases hradix : w.radix with
    | decimal => exact w.row.head.1
    | hexadecimal capital => simp [Radix.mark]

/-- The digits behind the sign, with their mark. -/
theorem tail_text :
    (if w.negative then w.text.tail else w.text) = w.radix.mark ++ w.digits := by
  cases hnegative : w.negative <;> simp [text, sign, hnegative]

end Number.Spelling

namespace Token

variable {w : Spelling}

/-- Decimal integers within the range are numbers. -/
theorem ofNumber?_decimal (hradix : w.radix = .decimal) :
    ofNumber? w.text = (Number.within? (-2147483648) 2147483647 w.value).map .int := by
  have hrow : Number.Row 10 w.digits w.magnitude := by simpa [hradix, Radix.base] using w.row
  have hread : Number.read32 10 w.text = Number.within? (-2147483648) 2147483647 w.value := by
    rw [← w.signed_sign, Spelling.text, hradix, Radix.mark, List.nil_append]
    exact Number.integer?_of_row (by decide) w.sign_mem hrow
  obtain ⟨-, hdigits, -⟩ :=
    Number.natural?_eq_some_iff.1 ((Number.natural?_eq_some_iff_row (by decide)).2 hrow)
  unfold ofNumber?
  simp only [w.head_text, w.tail_text, hread]
  rw [if_pos]
  simpa [hradix, Radix.mark] using hdigits

/-- Hexadecimal integers are numbers if their digits write at most the greatest integer. -/
theorem ofNumber?_hexadecimal {capital : Bool} (hradix : w.radix = .hexadecimal capital) :
    ofNumber? w.text = if w.magnitude ≤ 2147483647 then some (.int w.value) else none := by
  have hrow : Number.Row 16 w.digits w.magnitude := by simpa [hradix, Radix.base] using w.row
  have hread := (Number.natural?_eq_some_iff_row (by decide)).2 hrow
  unfold ofNumber?
  simp only [w.head_text, w.tail_text, hradix, Radix.mark]
  rw [if_neg]
  · by_cases hle : w.magnitude ≤ 2147483647 <;> cases capital <;>
      simp [hread, Option.filter, hle, Spelling.value]
  · cases capital <;> simp

/-- An integer is a number if it is one token, and otherwise it is none. -/
theorem ofNumber?_text (w : Spelling) :
    (w.IsToken → ofNumber? w.text = some (.int w.value)) ∧
      (¬ w.IsToken → ofNumber? w.text = none) := by
  cases hradix : w.radix with
  | decimal =>
    rw [ofNumber?_decimal hradix, Number.within?]
    constructor
    · rintro ⟨hlow, hhigh, -⟩
      rw [if_pos ⟨hlow, hhigh⟩, Option.map_some]
    · intro hnot
      rw [if_neg, Option.map_none]
      exact fun h => hnot ⟨h.1, h.2, fun hmark => absurd hradix hmark⟩
  | hexadecimal capital =>
    -- The digits alone are held against the greatest integer, before the sign is looked at.
    have habs : w.value = w.magnitude ∨ w.value = -(w.magnitude : Int) := by
      unfold Spelling.value
      split <;> simp
    rw [ofNumber?_hexadecimal hradix]
    constructor
    · rintro ⟨hlow, hhigh, hmark⟩
      have hmark := hmark (by simp [hradix])
      rw [if_pos (by omega)]
    · intro hnot
      rw [if_neg]
      exact fun hle => hnot ⟨by omega, by omega, fun _ => by omega⟩

end Token

/-! ## Lexemes and scans -/

/-- An integer starts like a number, and goes on so. -/
theorem Number.Spelling.exists_text_eq (w : Spelling) :
    ∃ c cs, w.text = c :: cs ∧ (c.isDigit || c == '-') = true ∧
      ∀ x ∈ cs, Lexeme.isNumberChar x = true := by
  have hmarked : ∀ x ∈ w.radix.mark ++ w.digits, Lexeme.isNumberChar x = true := fun x hx => by
    simp [Lexeme.isNumberChar, Text.isNameChar, w.isAlphanum_marked x hx]
  cases hnegative : w.negative with
  | true =>
    have htext : w.text = '-' :: (w.radix.mark ++ w.digits) := by simp [text, sign, hnegative]
    exact ⟨_, _, htext, by decide, hmarked⟩
  | false =>
    have htext : w.text = w.radix.mark ++ w.digits := by simp [text, sign, hnegative]
    cases hradix : w.radix with
    | decimal =>
      obtain ⟨c, cs, hcs⟩ := List.exists_cons_of_ne_nil w.row.ne_nil
      have hrow : Number.Row 10 w.digits w.magnitude := by simpa [hradix, Radix.base] using w.row
      obtain ⟨-, hdigits, -⟩ :=
        Number.natural?_eq_some_iff.1 ((Number.natural?_eq_some_iff_row (by decide)).2 hrow)
      rw [htext]
      rw [hradix, Radix.mark, List.nil_append, hcs] at hmarked ⊢
      rw [hcs] at hdigits
      exact ⟨c, cs, rfl, by simp [hdigits c List.mem_cons_self],
        (List.forall_mem_cons.1 hmarked).2⟩
    | hexadecimal capital =>
      rw [htext]
      rw [hradix, Radix.mark, List.cons_append] at hmarked ⊢
      exact ⟨_, _, rfl, by decide, (List.forall_mem_cons.1 hmarked).2⟩

namespace Scan

variable {includes : Includes} {depth : Nat} {f : Frame} {s : Scan} {rest : List Char}

/-- An integer is read where text is read: one token is put into the row if it is one, and otherwise
it is a fault at its first character. -/
theorem step_text (w : Spelling) (hrest : f.rest = w.text ++ rest)
    (hbehind : ∀ x, rest.head? = some x → Lexeme.isNumberChar x = false)
    (henabled : s.journal.isEnabled = true) :
    (w.IsToken → step includes depth f s =
      .moved (f.past w.text rest) ({ s with atLineStart := false }.push f (.int w.value))) ∧
    (¬ w.IsToken → step includes depth f s =
      .failed (.unidentifiedToken (String.ofList w.text)) f.place (f.past w.text rest)
        { s with atLineStart := false }) := by
  obtain ⟨c, cs, htext, hstart, hcs⟩ := w.exists_text_eq
  have hread := Lexeme.read_number hstart hcs hbehind
  -- The first character is a digit or a minus, at which a lexeme starts and nothing else.
  have hne : ∀ d : Char, (d.isDigit || d == '-') = false → c ≠ d := by
    rintro d hd rfl
    exact Bool.false_ne_true (hd.symm.trans hstart)
  have hc : StartsText s c :=
    ⟨hne _ (by decide), by simp [isGap, hne ' ' (by decide), hne '\t' (by decide),
      hne '\r' (by decide)], fun h => hne _ (by decide) h.1⟩
  have hstep : step includes depth f s = lexeme f { s with atLineStart := false } := by
    rw [htext, List.cons_append] at hrest
    rw [step_of_startsText hrest hc, if_pos henabled, piece, if_neg (hne _ (by decide))]
  have hlexeme : Lexeme.read f.rest = ⟨.ofNumber w.text, w.text, rest⟩ := by
    rw [hrest, htext, hread]
  obtain ⟨htoken, hfault⟩ := Token.ofNumber?_text w
  rw [hstep, lexeme, hlexeme]
  constructor
  · intro hw
    simp only [Reading.ofNumber, htoken hw]
  · intro hw
    simp only [Reading.ofNumber, hfault hw]

/-- An integer alone is read as one token, or it is a fault at its first character. -/
theorem process_text (includes : Includes) (defines : Defines) (w : Spelling) :
    (w.IsToken → ∃ frames t,
      (fresh defines).process includes (String.ofList w.text) [] = .ok (frames, t) ∧
        t.tokens = [⟨none, 1, 1, .int w.value⟩]) ∧
    (¬ w.IsToken → ∃ failure,
      (fresh defines).process includes (String.ofList w.text) [] = .error failure ∧
        failure.fault = ⟨none, 1, 1, .unidentifiedToken (String.ofList w.text)⟩) := by
  -- The whole source is one lexeme: one move reads it, and the next one finds the end.
  let p := Point.startAbove [] (fresh defines) (String.ofList w.text)
  have hrest : p.frame.rest = w.text ++ [] := by simp [p, Point.startAbove, Frame.ofText]
  obtain ⟨htoken, hfault⟩ := @step_text includes p.depth p.frame p.scan [] w hrest (by simp) rfl
  constructor
  · intro hw
    exact ⟨_, _, process_eq_ok_iff.2 ⟨_, .moved (htoken hw) (.done rfl), rfl, rfl⟩, rfl⟩
  · intro hw
    have hstop : ∃ failure, p.turn includes = .stopped failure ∧
        failure.fault = ⟨none, 1, 1, .unidentifiedToken (String.ofList w.text)⟩ := by
      rw [Point.turn, hfault hw]
      exact ⟨_, rfl, rfl⟩
    obtain ⟨failure, hturn, hfailure⟩ := hstop
    exact ⟨failure, process_eq_error_of_stopped (.refl p) hturn, hfailure⟩

/-- An integer alone is read alike in both ways, unless a minus sign stands in front of a mark. As
a token it is the integer that it writes if that has 32 bits, and as an expression if that has 64
bits; all else is a fault at its first character, or no number. A minus sign in front of a mark
makes it no number as an expression, and as a token such an integer lies above the lowest one. -/
theorem integers_read (includes : Includes) (defines : Defines) (w : Spelling) :
    (w.IsToken → ∃ frames t,
      (fresh defines).process includes (String.ofList w.text) [] = .ok (frames, t) ∧
        t.tokens = [⟨none, 1, 1, .int w.value⟩]) ∧
    (¬ w.IsToken → ∃ failure,
      (fresh defines).process includes (String.ofList w.text) [] = .error failure ∧
        failure.fault = ⟨none, 1, 1, .unidentifiedToken (String.ofList w.text)⟩) ∧
    (w.radix = .decimal ∨ w.negative = false →
      (w.IsToken ↔ -2147483648 ≤ w.value ∧ w.value ≤ 2147483647) ∧
      ∀ n, Number.expression? w.text = some n ↔ n = w.value ∧ Number.Fits64 n) ∧
    (w.radix ≠ .decimal → w.negative = true → Number.expression? w.text = none) := by
  obtain ⟨htoken, hfault⟩ := process_text includes defines w
  refine ⟨htoken, hfault, fun hplain => ⟨⟨fun hw => ⟨hw.low, hw.high⟩, ?_⟩, fun n => ?_⟩, ?_⟩
  · rintro ⟨hlow, hhigh⟩
    refine ⟨hlow, hhigh, fun hmark => ?_⟩
    have hnonneg : 0 ≤ w.value := by
      simp [Spelling.value, hplain.resolve_left hmark]
    omega
  · have hunmarked : ¬ (w.negative = true ∧ w.radix ≠ .decimal) := by
      rintro ⟨hneg, hmark⟩
      exact Bool.false_ne_true ((hplain.resolve_left hmark).symm.trans hneg)
    rw [w.expression?_text, if_neg hunmarked, Number.within?_eq_some_iff, eq_comm]
    exact and_congr_right fun h => h ▸ Iff.rfl
  · intro hmark hneg
    rw [w.expression?_text, if_pos ⟨hneg, hmark⟩]

/-- With a minus sign in front of its mark an integer may be one token, but it is no number as an
expression; and the lowest integer, which is one token in decimal, is none in hexadecimal. -/
theorem negative_mark_apart :
    (∃ frames t, (fresh []).process (fun _ => none) "-0x10" [] = .ok (frames, t) ∧
      t.tokens = [⟨none, 1, 1, .int (-16)⟩]) ∧
    Number.expression? "-0x10".toList = none ∧
    (∃ frames t, (fresh []).process (fun _ => none) "-2147483648" [] = .ok (frames, t) ∧
      t.tokens = [⟨none, 1, 1, .int (-2147483648)⟩]) ∧
    ∃ failure, (fresh []).process (fun _ => none) "-0x80000000" [] = .error failure ∧
      failure.fault = ⟨none, 1, 1, .unidentifiedToken "-0x80000000"⟩ := by
  refine ⟨(process_text _ [] (.ofRead true (.hexadecimal false) ['1', '0'] 16 rfl)).1 ?_,
    by decide +kernel,
    (process_text _ [] (.ofRead true .decimal "2147483648".toList 2147483648 (by decide))).1 ?_,
    (process_text _ [] (.ofRead true (.hexadecimal false) "80000000".toList 2147483648
      (by decide))).2 fun h => h.mark nofun rfl⟩
  · exact ⟨show (-2147483648 : Int) ≤ -16 by decide, show (-16 : Int) ≤ 2147483647 by decide,
      fun _ => show (-16 : Int) ≠ -2147483648 by decide⟩
  · exact ⟨show (-2147483648 : Int) ≤ -2147483648 by decide,
      show (-2147483648 : Int) ≤ 2147483647 by decide, fun h => absurd rfl h⟩

end Scan

end ShaderLang
