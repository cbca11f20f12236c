import ShaderLang.Fault
import ShaderLang.Source.Frame
import ShaderLang.Text.Letters
import ShaderLang.Number.Integer
/-!
# Lexemes

The smallest pieces of a source: words, numbers, quoted strings, marks and comments, and blocks
captured verbatim. Every reader cuts a text in two, what it uses and what is left.

## Main definitions

* `Token.ofNumber?` — the value of a number
* `Lexeme` — a piece and what is left behind it, and `Lexeme.read`, which reads one
* `Capture.read` — the text of a block up to the brace that closes it

## Main results

* `Lexeme.used_append_rest` — a lexeme and what is left make up the text
* `Lexeme.used_ne_nil` — only at a fault may nothing be used
-/

namespace ShaderLang

/-! ## Numbers -/

/-- The value of the digits before and after a point; the text may go without either. -/
def Token.ofDecimal? (negative : Bool) (cs : List Char) : Option Token :=
  let whole := cs.takeWhile Char.isDigit
  match cs.dropWhile Char.isDigit with
  | '.' :: tail =>
    let part := tail.takeWhile Char.isDigit
    let mark := tail.dropWhile Char.isDigit
    if (whole.isEmpty && part.isEmpty) || !(mark.isEmpty || mark == ['f']) then none
    else (Number.digits? 10 (whole ++ part) 0).map fun n =>
      .float (.ofDecimal negative n (-(part.length : Int)))
  | _ => none

/-- The value of a number: a 32-bit integer in decimal or hexadecimal, or a decimal with a point
and perhaps an `f` behind it. -/
def Token.ofNumber? (word : List Char) : Option Token :=
  let negative := word.head? == some '-'
  let ds := if negative then word.tail else word
  let sign : Int := if negative then -1 else 1
  if ds.all Char.isDigit then (Number.read32 10 word).map .int
  else match ds with
    | '0' :: x :: hex =>
      if x == 'x' || x == 'X' then
        ((Number.natural? 16 hex).filter (· ≤ 2147483647)).map fun n => .int (sign * n)
      else Token.ofDecimal? negative ds
    | _ => Token.ofDecimal? negative ds

/-! ## Comments and strings -/

/-- The text up to the next line break, and the text from it on. -/
def Text.line (cs : List Char) : List Char × List Char :=
  (cs.takeWhile (· != '\n'), cs.dropWhile (· != '\n'))

/-- The rest of a block comment with its end, and the text behind it. -/
def Text.comment? : List Char → Option (List Char × List Char)
  | [] => none
  | '*' :: '/' :: cs => some (['*', '/'], cs)
  | c :: cs => (Text.comment? cs).map fun p => (c :: p.1, p.2)

/-- The rest of a quoted string: its value, the text used and the text behind it. The value is
missing if a line break or the end comes first. -/
structure Quoted where
  value : Option (List Char)
  used : List Char
  rest : List Char

namespace Quoted

/-- Puts text in front that stands for one character of the value. -/
def cons (q : Quoted) (c : Char) (written : List Char) : Quoted :=
  ⟨q.value.map (c :: ·), written ++ q.used, q.rest⟩

/-- Reads the rest of a quoted string. A backslash stands for nothing itself and keeps the
character behind it from being special. -/
def read : List Char → Quoted
  | [] => ⟨none, [], []⟩
  | '\\' :: [] => ⟨none, ['\\'], []⟩
  | '\\' :: c :: cs => (read cs).cons c ['\\', c]
  | c :: cs =>
    if c = '"' then ⟨some [], [c], cs⟩
    else if c = '\n' then ⟨none, [], c :: cs⟩
    else (read cs).cons c [c]

end Quoted

/-! ## Lexemes -/

/-- What a lexeme stands for. -/
inductive Reading
  /-- A comment stands for nothing. -/
  | gap
  | token (t : Token)
  | fault (cause : Cause)

/-- A piece of a text and what is left behind it. -/
structure Lexeme where
  reading : Reading
  used : List Char
  rest : List Char

namespace Lexeme

/-- The first byte of an encoded character, shown as the character of that number. -/
def leadByte (c : Char) : Char := Char.ofNat ((String.utf8EncodeChar c).headD 0).toNat

/-- A number goes on with letters, digits, underscores and points. -/
def isNumberChar (c : Char) : Bool := Text.isNameChar c || c == '.'

/-- Reads a number from its first character on. -/
def number (c : Char) (cs : List Char) : Lexeme :=
  let word := c :: cs.takeWhile isNumberChar
  let reading := match Token.ofNumber? word with
    | some t => .token t
    | none => .fault (.unidentifiedToken (String.ofList word))
  ⟨reading, word, cs.dropWhile isNumberChar⟩

/-- Reads a word from its first character on. -/
def word (c : Char) (cs : List Char) : Lexeme :=
  let word := c :: cs.takeWhile Text.isNameChar
  ⟨.token (Token.ofWord (String.ofList word)), word, cs.dropWhile Text.isNameChar⟩

/-- Reads a quoted string behind its first quote. -/
def string (cs : List Char) : Lexeme :=
  let q := Quoted.read cs
  let reading := match q.value with
    | some value => .token (.str (String.ofList value))
    | none => .fault .unterminatedString
  ⟨reading, '"' :: q.used, q.rest⟩

/-- Reads a block comment behind its first two characters. -/
def blockComment (cs : List Char) : Lexeme :=
  match Text.comment? cs with
  | some (body, rest) => ⟨.gap, '/' :: '*' :: body, rest⟩
  | none => ⟨.fault .unterminatedComment, '/' :: '*' :: cs, []⟩

/-- Reads a piece that is neither a comment nor a string. A character that starts no token is a
fault and stays unread. -/
def plain (c : Char) (cs : List Char) : Lexeme :=
  match Punct.ofChar? c with
  | some p => ⟨.token (.punct p), [c], cs⟩
  | none =>
    if c.isDigit || c == '-' || c == '.' then number c cs
    else if Text.isNameStart c then word c cs
    else ⟨.fault (.unidentifiedToken (String.singleton (leadByte c))), [], c :: cs⟩

/-- Reads the lexeme at the start of a text. -/
def read : List Char → Lexeme
  | [] => ⟨.fault .eof, [], []⟩
  | '/' :: '/' :: cs => ⟨.gap, '/' :: '/' :: (Text.line cs).1, (Text.line cs).2⟩
  | '/' :: '*' :: cs => blockComment cs
  | '"' :: cs => string cs
  | c :: cs => plain c cs

end Lexeme

/-! ## Captured blocks -/

/-- Where in a captured block the reader stands. -/
inductive Capture
  | plain | lineComment | blockComment | quoted
  deriving DecidableEq

namespace Capture

/-- Puts a character in front of a captured text. -/
def cons (c : Char) (r : Option (List Char × List Char)) : Option (List Char × List Char) :=
  r.map fun p => (c :: p.1, p.2)

/-- The text up to the brace that closes a block, with `depth` further braces open, and the text
behind that brace. Braces in comments and strings do not count; a string ends at its line. -/
def read : Capture → Nat → List Char → Option (List Char × List Char)
  | _, _, [] => none
  | plain, depth, '/' :: '/' :: cs => cons '/' (cons '/' (read lineComment depth cs))
  | plain, depth, '/' :: '*' :: cs => cons '/' (cons '*' (read blockComment depth cs))
  | plain, depth, c :: cs =>
    if c = '\x7d' then
      match depth with
      | 0 => some ([], cs)
      | depth + 1 => cons c (read plain depth cs)
    else if c = '\x7b' then cons c (read plain (depth + 1) cs)
    else cons c (read (if c = '"' then quoted else plain) depth cs)
  | lineComment, depth, c :: cs =>
    cons c (read (if c = '\n' then plain else lineComment) depth cs)
  | blockComment, depth, '*' :: '/' :: cs => cons '*' (cons '/' (read plain depth cs))
  | blockComment, depth, c :: cs => cons c (read blockComment depth cs)
  | quoted, depth, '\\' :: c :: cs => cons '\\' (cons c (read quoted depth cs))
  | quoted, depth, c :: cs =>
    cons c (read (if c = '"' ∨ c = '\n' then plain else quoted) depth cs)

end Capture

/-! ## What is used and what is left -/

theorem Text.comment?_append {cs body rest : List Char} (h : Text.comment? cs = some (body, rest)) :
    body ++ rest = cs := by
  induction cs using Text.comment?.induct generalizing body rest with
  | case1 => simp [Text.comment?] at h
  | case2 cs =>
    simp only [Text.comment?, Option.some.injEq, Prod.mk.injEq] at h
    simp [← h.1, ← h.2]
  | case3 c cs hne ih =>
    rw [Text.comment?] at h
    · obtain ⟨p, hp, hq⟩ := Option.map_eq_some_iff.1 h
      cases hq
      simp [ih hp]
    · exact hne

theorem Quoted.used_append_rest (cs : List Char) :
    (Quoted.read cs).used ++ (Quoted.read cs).rest = cs := by
  induction cs using Quoted.read.induct <;> simp_all [Quoted.read, Quoted.cons]

theorem Lexeme.used_append_rest (cs : List Char) :
    (Lexeme.read cs).used ++ (Lexeme.read cs).rest = cs := by
  unfold Lexeme.read
  split
  · rfl
  · simp [Text.line]
  · next cs =>
    unfold Lexeme.blockComment
    split
    · next h => simp [Text.comment?_append h]
    · simp
  · next cs => simp [Lexeme.string, Quoted.used_append_rest]
  · next c cs _ _ _ =>
    unfold Lexeme.plain
    split
    · rfl
    · split
      · simp [Lexeme.number]
      · split
        · simp [Lexeme.word]
        · rfl

/-- Only at a fault may nothing be used. -/
theorem Lexeme.used_ne_nil {cs : List Char} (h : ∀ cause, (Lexeme.read cs).reading ≠ .fault cause) :
    (Lexeme.read cs).used ≠ [] := by
  unfold Lexeme.read at *
  split at h
  · exact absurd rfl (h _)
  · simp
  · next cs =>
    unfold Lexeme.blockComment
    split <;> simp
  · simp [Lexeme.string]
  · next c cs _ _ _ =>
    revert h
    unfold Lexeme.plain
    split
    · simp
    · split
      · simp [Lexeme.number]
      · split
        · simp [Lexeme.word]
        · exact fun h => absurd rfl (h _)

/-- A character in front of a captured text stands in front of the text it was captured from. -/
theorem Capture.append_of_cons {c : Char} {r : Option (List Char × List Char)}
    {body rest cs : List Char} (hr : ∀ tail, r = some (tail, rest) → tail ++ '\x7d' :: rest = cs)
    (h : Capture.cons c r = some (body, rest)) : body ++ '\x7d' :: rest = c :: cs := by
  obtain ⟨⟨tail, rest'⟩, hp, hq⟩ := Option.map_eq_some_iff.1 h
  cases hq
  rw [List.cons_append, hr tail hp]

/-- The text of a block, the brace that closes it and the rest make up the text. -/
theorem Capture.read_append {m : Capture} {depth : Nat} {cs body rest : List Char}
    (h : Capture.read m depth cs = some (body, rest)) : body ++ '\x7d' :: rest = cs := by
  fun_induction Capture.read m depth cs generalizing body rest
  case case1 => cases h
  case case4 =>
    cases h
    rfl
  -- Two characters are put in front where a comment starts or ends, and behind a backslash.
  case case2 ih | case3 ih | case9 ih | case11 ih =>
    exact append_of_cons (fun _ => append_of_cons fun _ => ih) h
  case case5 ih | case6 ih | case7 ih | case8 ih | case10 ih | case12 ih =>
    exact append_of_cons (fun _ => ih) h

end ShaderLang
