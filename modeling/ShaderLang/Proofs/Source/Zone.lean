import Mathlib.Data.List.Basic
import ShaderLang.Proofs.Source.Locality
/-!
# The brace that closes a block

A captured block ends at its matching brace: the first closing brace outside comments and strings up
to which as many braces have been closed as opened. Whether a character stands outside is told by
the characters before it, one by one. The reader of blocks takes two characters at once where a
comment starts or ends and where a string has an escape, and it keeps count of the open braces
alone. It finds the matching brace all the same.

## Main definitions

* `Zone` — whether code, a comment or a string stands around a character
* `Zone.outside` — the characters outside comments and strings
* `Zone.Closing` — the matching brace of a block
* `Zone.close?` — the matching brace, found character by character

## Main results

* `Zone.close?_eq_some_iff` — what is found is the matching brace
* `Capture.read_eq_close?` — the reader of blocks finds the same brace
-/

namespace ShaderLang

/-- What stands around a character, as the characters before it tell. -/
inductive Zone
  | code
  /-- Code behind a slash, which starts a comment if a slash or a star comes next. -/
  | slash
  | lineComment
  | blockComment
  /-- A block comment behind a star, which ends with the comment if a slash comes next. -/
  | star
  | quoted
  /-- A string behind a backslash, which takes the next character along. -/
  | escaped
  deriving DecidableEq

namespace Zone

/-- What stands around the next character. A string ends at a quote or at a line break. -/
def next : Zone → Char → Zone
  | code, c => if c = '/' then slash else if c = '"' then quoted else code
  | slash, c =>
    if c = '/' then lineComment
    else if c = '*' then blockComment
    else if c = '"' then quoted
    else code
  | lineComment, c => if c = '\n' then code else lineComment
  | blockComment, c => if c = '*' then star else blockComment
  | star, c => if c = '/' then code else if c = '*' then star else blockComment
  | quoted, c =>
    if c = '\\' then escaped else if c = '"' ∨ c = '\n' then code else quoted
  | escaped, _ => quoted

/-- What stands around the character behind a text. -/
def behind (z : Zone) (cs : List Char) : Zone := cs.foldl next z

/-- Neither a comment nor a string. -/
def isOutside (z : Zone) : Bool := z = code ∨ z = slash

/-- The characters of a text outside comments and strings. -/
def outside : Zone → List Char → List Char
  | _, [] => []
  | z, c :: cs => if z.isOutside then c :: outside (z.next c) cs else outside (z.next c) cs

/-- A closing brace behind the text closes the block, of which `depth` braces are open inside it
before the text: it stands outside, and as many braces are closed as were opened. -/
structure Closes (z : Zone) (depth : Nat) (body : List Char) : Prop where
  isOutside : (z.behind body).isOutside = true
  count : (z.outside body).count '\x7d' = (z.outside body).count '\x7b' + depth

/-- The first closing brace that closes the block stands between `body` and `rest`. -/
structure Closing (z : Zone) (depth : Nat) (text body rest : List Char) : Prop where
  text_eq : text = body ++ '\x7d' :: rest
  closes : z.Closes depth body
  first : ∀ b r, text = b ++ '\x7d' :: r → z.Closes depth b → body.length ≤ b.length

variable {z : Zone} {depth : Nat} {c : Char} {cs text body rest : List Char}

/-! ## Character by character -/

/-- The open braces behind a character, unless it closes the block. -/
def depth? (z : Zone) (depth : Nat) (c : Char) : Option Nat :=
  if z.isOutside ∧ c = '\x7d' then (if depth = 0 then none else some (depth - 1))
  else if z.isOutside ∧ c = '\x7b' then some (depth + 1)
  else some depth

/-- The text in front of the matching brace, and the text behind it. -/
def close? : Zone → Nat → List Char → Option (List Char × List Char)
  | _, _, [] => none
  | z, depth, c :: cs =>
    match z.depth? depth c with
    | none => some ([], cs)
    | some depth => Capture.cons c (close? (z.next c) depth cs)

theorem closes_nil_iff : z.Closes depth [] ↔ z.isOutside = true ∧ depth = 0 := by
  constructor
  · rintro ⟨houtside, hcount⟩
    exact ⟨houtside, by simpa [outside, eq_comm] using hcount⟩
  · rintro ⟨houtside, rfl⟩
    exact ⟨houtside, rfl⟩

theorem depth?_eq_none_iff : z.depth? depth c = none ↔ c = '\x7d' ∧ z.Closes depth [] := by
  rw [closes_nil_iff]
  grind [depth?]

/-- A character that does not close the block leaves the rest of it to be closed. -/
theorem closes_cons_iff {depth' : Nat} (h : z.depth? depth c = some depth') :
    z.Closes depth (c :: body) ↔ (z.next c).Closes depth' body := by
  have hcount : (z.outside (c :: body)).count '\x7d' =
      (z.outside (c :: body)).count '\x7b' + depth ↔
      ((z.next c).outside body).count '\x7d' =
        ((z.next c).outside body).count '\x7b' + depth' := by
    rw [depth?] at h
    rw [outside]
    -- The character closes a brace, opens one, or is not counted.
    by_cases hclose : z.isOutside ∧ c = '\x7d'
    · rw [if_pos hclose] at h
      split at h
      · cases h
      · cases h
        simp only [hclose.1, hclose.2, if_true, List.count_cons]
        grind
    · rw [if_neg hclose] at h
      by_cases hopen : z.isOutside ∧ c = '\x7b'
      · rw [if_pos hopen] at h
        cases h
        simp only [hopen.1, hopen.2, if_true, List.count_cons]
        grind
      · rw [if_neg hopen] at h
        cases h
        cases houtside : z.isOutside with
        | false => simp
        | true =>
          have hne : c ≠ '\x7d' ∧ c ≠ '\x7b' := ⟨fun hc => hclose ⟨houtside, hc⟩,
            fun hc => hopen ⟨houtside, hc⟩⟩
          simp [hne]
  exact ⟨fun h => ⟨h.isOutside, hcount.1 h.count⟩, fun h => ⟨h.isOutside, hcount.2 h.count⟩⟩

/-- What closes a block at its first character. -/
theorem closing_cons_of_none (h : z.depth? depth c = none) :
    z.Closing depth (c :: cs) body rest ↔ body = [] ∧ rest = cs := by
  obtain ⟨rfl, hcloses⟩ := depth?_eq_none_iff.1 h
  constructor
  · intro hclosing
    obtain rfl : body = [] := List.length_eq_zero_iff.1 <|
      Nat.le_zero.1 (hclosing.first [] cs rfl hcloses)
    exact ⟨rfl, (List.cons.inj hclosing.text_eq).2.symm⟩
  · rintro ⟨rfl, rfl⟩
    exact ⟨rfl, hcloses, fun _ _ _ _ => Nat.zero_le _⟩

theorem closing_cons_of_some {depth' : Nat} (h : z.depth? depth c = some depth') :
    z.Closing depth (c :: cs) body rest ↔
      ∃ inner, body = c :: inner ∧ (z.next c).Closing depth' cs inner rest := by
  -- The brace that closes the block is not its first character.
  have hne : ∀ {b r}, c :: cs = b ++ '\x7d' :: r → z.Closes depth b →
      ∃ inner, b = c :: inner ∧ cs = inner ++ '\x7d' :: r := by
    intro b r htext hcloses
    cases b with
    | nil =>
      have hnone := depth?_eq_none_iff.2 ⟨(List.cons.inj htext).1, hcloses⟩
      rw [h] at hnone
      cases hnone
    | cons d inner =>
      obtain ⟨rfl, hinner⟩ := List.cons.inj htext
      exact ⟨inner, rfl, hinner⟩
  constructor
  · rintro ⟨htext, hcloses, hfirst⟩
    obtain ⟨inner, rfl, rfl⟩ := hne htext hcloses
    refine ⟨inner, rfl, rfl, (closes_cons_iff h).1 hcloses, fun b r hb hbcloses => ?_⟩
    exact Nat.le_of_succ_le_succ
      (hfirst (c :: b) r (by rw [hb, List.cons_append]) ((closes_cons_iff h).2 hbcloses))
  · rintro ⟨inner, rfl, htext, hcloses, hfirst⟩
    refine ⟨by rw [htext, List.cons_append], (closes_cons_iff h).2 hcloses, ?_⟩
    intro b r hb hbcloses
    obtain ⟨other, rfl, hother⟩ := hne hb hbcloses
    exact Nat.succ_le_succ (hfirst other r hother ((closes_cons_iff h).1 hbcloses))

/-- What is found character by character is the matching brace. -/
theorem close?_eq_some_iff :
    z.close? depth cs = some (body, rest) ↔ z.Closing depth cs body rest := by
  induction cs generalizing z depth body with
  | nil =>
    constructor
    · rintro ⟨⟩
    · intro h
      exact absurd h.text_eq (by simp)
  | cons c cs ih =>
    rw [close?]
    cases h : z.depth? depth c with
    | none => simp [closing_cons_of_none h, eq_comm]
    | some depth' =>
      rw [closing_cons_of_some h]
      simp only [Capture.cons_eq_some_iff, ih]

/-! ## Two characters at once -/

/-- A slash makes no difference unless it starts a comment. -/
theorem close?_slash (hline : ∀ more, cs ≠ '/' :: more) (hblock : ∀ more, cs ≠ '*' :: more) :
    slash.close? depth cs = code.close? depth cs := by
  cases cs with
  | nil => rfl
  | cons c cs =>
    have hnext : slash.next c = code.next c := by
      have hslash : c ≠ '/' := fun hc => hline cs (hc ▸ rfl)
      have hstar : c ≠ '*' := fun hc => hblock cs (hc ▸ rfl)
      simp [next, hslash, hstar]
    rw [close?, close?, hnext]
    rfl

/-- A star makes no difference unless it ends its comment. -/
theorem close?_star (h : ∀ more, cs ≠ '/' :: more) :
    star.close? depth cs = blockComment.close? depth cs := by
  cases cs with
  | nil => rfl
  | cons c cs =>
    have hnext : star.next c = blockComment.next c := by
      have hslash : c ≠ '/' := fun hc => h cs (hc ▸ rfl)
      simp [next, hslash]
    rw [close?, close?, hnext]
    rfl

end Zone

/-- What stands around the place where the reader of a block stands. -/
def Capture.zone : Capture → Zone
  | plain => .code
  | lineComment => .lineComment
  | blockComment => .blockComment
  | quoted => .quoted

open Zone in
/-- The reader of blocks finds the brace that is found character by character. -/
theorem Capture.read_eq_close? (m : Capture) (depth : Nat) (cs : List Char) :
    Capture.read m depth cs = m.zone.close? depth cs := by
  fun_induction Capture.read m depth cs with
  | case1 => simp [close?]
  | case2 depth cs ih => simp [zone, close?, depth?, isOutside, next, ih]
  | case3 depth cs ih => simp [zone, close?, depth?, isOutside, next, ih]
  | case4 cs hline hblock => simp [zone, close?, depth?, isOutside]
  | case5 cs hline hblock depth ih => simp [zone, close?, depth?, isOutside, next, ih]
  | case6 depth cs hline hblock hclose ih => simp [zone, close?, depth?, isOutside, next, ih]
  | case7 depth c cs hline hblock hclose hopen ih =>
    rw [ih]
    by_cases hslash : c = '/'
    · -- The slash starts no comment, or the two characters would have been taken at once.
      subst hslash
      have hsame : slash.close? depth cs = code.close? depth cs :=
        close?_slash (fun more => hline more rfl) (fun more => hblock more rfl)
      simp [zone, close?, depth?, isOutside, next, hsame]
    · by_cases hquote : c = '"' <;>
        simp [zone, close?, depth?, isOutside, next, hslash, hquote, hclose, hopen]
  | case8 depth c cs ih =>
    rw [ih]
    by_cases hbreak : c = '\n' <;> simp [zone, close?, depth?, isOutside, next, hbreak]
  | case9 depth cs ih => simp [zone, close?, depth?, isOutside, next, ih]
  | case10 depth c cs hend ih =>
    rw [ih]
    by_cases hstar : c = '*'
    · subst hstar
      have hsame : star.close? depth cs = Zone.blockComment.close? depth cs :=
        close?_star fun more => hend more rfl
      simp [zone, close?, depth?, isOutside, next, hsame]
    · simp [zone, close?, depth?, isOutside, next, hstar]
  | case11 depth c cs ih => simp [zone, close?, depth?, isOutside, next, ih]
  | case12 depth c cs hescape ih =>
    rw [ih]
    by_cases hbackslash : c = '\\'
    · -- A backslash takes the next character along, so that none is left here.
      subst hbackslash
      cases cs with
      | nil => simp [zone, close?, depth?, isOutside, Capture.cons]
      | cons d cs => exact (hescape d cs rfl rfl).elim
    · by_cases hend : c = '"' ∨ c = '\n' <;>
        simp [zone, close?, depth?, isOutside, next, hbackslash, hend]

end ShaderLang
