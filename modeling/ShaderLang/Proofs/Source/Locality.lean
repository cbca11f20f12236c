import Mathlib.Data.List.TakeWhile
import ShaderLang.Source.Lexeme
/-!
# What stands behind a lexeme

A lexeme depends on its own text and at most on the character behind it, and a line break behind it
never matters. So it is read alike in front of any text that starts alike or that starts at the end
of a line.

## Main definitions

* `AtLineEnd` — nothing is left of a line
* `Follows` — a text can stand where another one stood

## Main results

* `Lexeme.read_append` — a lexeme is read alike in front of a text that follows
* `Capture.read_append_tail` — a captured block is read alike in front of every text
-/

namespace ShaderLang

/-- Nothing is left of the line. -/
def AtLineEnd (cs : List Char) : Prop := ∀ c, cs.head? = some c → c = '\n'

/-- The text `tail` can stand where `rest` stood: it starts alike, or at the end of a line. -/
def Follows (rest tail : List Char) : Prop := tail.head? = rest.head? ∨ AtLineEnd tail

theorem atLineEnd_nil : AtLineEnd [] := by
  intro c h
  cases h

theorem atLineEnd_cons_iff {c : Char} {cs : List Char} : AtLineEnd (c :: cs) ↔ c = '\n' := by
  simp [AtLineEnd]

theorem Follows.refl (rest : List Char) : Follows rest rest := .inl rfl

theorem Follows.append {rest tail : List Char} (h : AtLineEnd tail) :
    Follows rest (rest ++ tail) := by
  cases rest with
  | nil => exact .inr h
  | cons c cs => exact .inl rfl

theorem atLineEnd_line (cs : List Char) : AtLineEnd (Text.line cs).2 := by
  intro c h
  have hnot := List.head?_dropWhile_not (· != '\n') cs
  rw [Text.line] at h
  rw [h] at hnot
  simpa using hnot

theorem not_mem_line (cs : List Char) : '\n' ∉ (Text.line cs).1 := by
  intro h
  have hne := List.mem_takeWhile_imp h
  simp at hne

theorem line_append (cs : List Char) : (Text.line cs).1 ++ (Text.line cs).2 = cs :=
  List.takeWhile_append_dropWhile

section

variable {p : Char → Bool} {cs tail : List Char}

/-- A run of characters ends in front of a text that follows it. -/
theorem takeWhile_eq_nil_of_follows (hp : p '\n' = false) (h : Follows (cs.dropWhile p) tail) :
    ∀ c, tail.head? = some c → p c = false := by
  intro c hc
  rcases h with h | h
  · have hnot := List.head?_dropWhile_not p cs
    rw [← h, hc] at hnot
    simpa using hnot
  · rw [h c hc, hp]

theorem takeWhile_append_of_follows (hp : p '\n' = false) (h : Follows (cs.dropWhile p) tail) :
    (cs.takeWhile p ++ tail).takeWhile p = cs.takeWhile p := by
  have hhead := takeWhile_eq_nil_of_follows hp h
  rw [List.takeWhile_append_of_pos fun c hc => List.mem_takeWhile_imp hc]
  cases tail with
  | nil => simp
  | cons c tail => simp [hhead c rfl]

theorem dropWhile_append_of_follows (hp : p '\n' = false) (h : Follows (cs.dropWhile p) tail) :
    (cs.takeWhile p ++ tail).dropWhile p = tail := by
  have hhead := takeWhile_eq_nil_of_follows hp h
  rw [List.dropWhile_append_of_pos fun c hc => List.mem_takeWhile_imp hc]
  cases tail with
  | nil => rfl
  | cons c tail => simp [hhead c rfl]

end

theorem line_append_of_atLineEnd {line tail : List Char} (hline : '\n' ∉ line)
    (htail : AtLineEnd tail) : Text.line (line ++ tail) = (line, tail) := by
  have hne : ∀ c ∈ line, (c != '\n') = true := by
    intro c hc
    rw [bne_iff_ne]
    rintro rfl
    exact hline hc
  have hstart : ∀ c, tail.head? = some c → (c != '\n') = false := fun c hc => by simp [htail c hc]
  rw [Text.line, List.takeWhile_append_of_pos hne, List.dropWhile_append_of_pos hne]
  cases tail with
  | nil => simp
  | cons c tail => simp [hstart c rfl]

/-! ## Comments and strings -/

theorem Text.comment?_body_ne_nil {cs rest : List Char} : Text.comment? cs ≠ some ([], rest) := by
  intro h
  unfold Text.comment? at h
  split at h
  · cases h
  · cases h
  · obtain ⟨p, -, hq⟩ := Option.map_eq_some_iff.1 h
    cases hq

theorem Text.comment?_append_tail {cs body rest : List Char}
    (h : Text.comment? cs = some (body, rest)) (tail : List Char) :
    Text.comment? (body ++ tail) = some (body, tail) := by
  induction cs using Text.comment?.induct generalizing body rest with
  | case1 => cases h
  | case2 cs =>
    cases h
    rfl
  | case3 c cs hne ih =>
    rw [Text.comment?] at h
    · obtain ⟨⟨body, rest⟩, hp, hq⟩ := Option.map_eq_some_iff.1 h
      cases hq
      have happend := Text.comment?_append hp
      rw [List.cons_append, Text.comment?]
      · rw [ih hp]
        rfl
      · -- The comment goes on behind this character as it did before.
        rintro tail' rfl hslash
        cases body with
        | nil => exact absurd hp Text.comment?_body_ne_nil
        | cons d body =>
          cases hslash
          exact hne _ rfl happend.symm
    · exact hne

theorem Quoted.read_append {cs v : List Char} (h : (Quoted.read cs).value = some v)
    (tail : List Char) :
    Quoted.read ((Quoted.read cs).used ++ tail) = ⟨some v, (Quoted.read cs).used, tail⟩ := by
  fun_induction Quoted.read cs generalizing v with
  | case1 => cases h
  | case2 => cases h
  | case3 c cs ih =>
    obtain ⟨w, hw, rfl⟩ := Option.map_eq_some_iff.1 h
    simp only [Quoted.cons, List.cons_append, List.nil_append]
    rw [Quoted.read, ih hw]
    rfl
  | case4 =>
    cases h
    rfl
  | case5 => cases h
  | case6 c cs hend hmid hquote hbreak ih =>
    obtain ⟨w, hw, rfl⟩ := Option.map_eq_some_iff.1 h
    -- A backslash would have been read together with the character behind it.
    have hc : c ≠ '\\' := by
      rintro rfl
      cases cs with
      | nil => exact hend rfl rfl
      | cons d cs => exact hmid d cs rfl rfl
    simp only [Quoted.cons, List.cons_append, List.nil_append]
    rw [Quoted.read, if_neg hquote, if_neg hbreak, ih hw]
    · rfl
    · exact fun h => absurd h hc
    · exact fun _ _ h => absurd h hc

/-! ## Captured blocks -/

theorem Capture.cons_eq_some_iff {c : Char} {r : Option (List Char × List Char)}
    {body rest : List Char} :
    Capture.cons c r = some (body, rest) ↔ ∃ inner, body = c :: inner ∧ r = some (inner, rest) := by
  rw [Capture.cons, Option.map_eq_some_iff]
  constructor
  · rintro ⟨⟨inner, rest⟩, hr, ⟨⟩⟩
    exact ⟨inner, rfl, hr⟩
  · rintro ⟨inner, rfl, hr⟩
    exact ⟨_, hr, rfl⟩

/-- A character that forms no pair and closes nothing. -/
theorem Capture.read_plain_cons {depth : Nat} {c : Char} {cs : List Char}
    (hline : ∀ more, c = '/' → cs = '/' :: more → False)
    (hblock : ∀ more, c = '/' → cs = '*' :: more → False) (hclose : c ≠ '\x7d') :
    Capture.read .plain depth (c :: cs) =
      if c = '\x7b' then Capture.cons c (Capture.read .plain (depth + 1) cs)
      else Capture.cons c (Capture.read (if c = '"' then .quoted else .plain) depth cs) := by
  cases depth with
  | zero => rw [Capture.read, if_neg hclose] <;> assumption
  | succ depth => rw [Capture.read, if_neg hclose] <;> assumption

/-- What stands behind a character of a block is a character of the block or the brace that closes
it, so that the two form a pair whatever stands behind the block. -/
theorem Capture.pair_iff {m : Capture} {depth : Nat} {body rest cs : List Char} {second : Char}
    (h : Capture.read m depth cs = some (body, rest)) (tail : List Char) :
    (∃ more, body ++ '\x7d' :: tail = second :: more) ↔ ∃ more, cs = second :: more := by
  rw [← Capture.read_append h]
  cases body <;> simp

theorem Capture.no_pair {m : Capture} {depth : Nat} {body rest cs : List Char}
    {c first second : Char} (h : Capture.read m depth cs = some (body, rest)) (tail : List Char)
    (hnot : ∀ more, c = first → cs = second :: more → False) :
    ∀ more, c = first → body ++ '\x7d' :: tail = second :: more → False := by
  intro more hc hmore
  obtain ⟨more, hcs⟩ := (pair_iff h tail).1 ⟨more, hmore⟩
  exact hnot more hc hcs

/-- A captured block is read alike in front of every text. -/
theorem Capture.read_append_tail {m : Capture} {depth : Nat} {cs body rest : List Char}
    (h : Capture.read m depth cs = some (body, rest)) (tail : List Char) :
    Capture.read m depth (body ++ '\x7d' :: tail) = some (body, tail) := by
  fun_induction Capture.read m depth cs generalizing body rest
  case case1 => cases h
  case case2 ih | case3 ih | case9 ih | case11 ih =>
    -- Two characters at once.
    obtain ⟨_, rfl, hcons⟩ := Capture.cons_eq_some_iff.1 h
    obtain ⟨_, rfl, hinner⟩ := Capture.cons_eq_some_iff.1 hcons
    rw [List.cons_append, List.cons_append, Capture.read, ih hinner]
    rfl
  case case4 =>
    cases h
    rfl
  case case5 hline hblock ih =>
    obtain ⟨_, rfl, hinner⟩ := Capture.cons_eq_some_iff.1 h
    rw [List.cons_append, Capture.read, if_pos rfl, ih hinner]
    · rfl
    · exact no_pair hinner tail hline
    · exact no_pair hinner tail hblock
  case case6 hline hblock hclose ih =>
    obtain ⟨_, rfl, hinner⟩ := Capture.cons_eq_some_iff.1 h
    rw [List.cons_append,
      Capture.read_plain_cons (no_pair hinner tail hline) (no_pair hinner tail hblock) hclose,
      if_pos rfl, ih hinner]
    rfl
  case case7 hline hblock hclose hopen ih =>
    obtain ⟨_, rfl, hinner⟩ := Capture.cons_eq_some_iff.1 h
    rw [List.cons_append,
      Capture.read_plain_cons (no_pair hinner tail hline) (no_pair hinner tail hblock) hclose,
      if_neg hopen, ih hinner]
    rfl
  case case8 ih =>
    obtain ⟨_, rfl, hinner⟩ := Capture.cons_eq_some_iff.1 h
    rw [List.cons_append, Capture.read, ih hinner]
    rfl
  case case10 hend ih =>
    obtain ⟨_, rfl, hinner⟩ := Capture.cons_eq_some_iff.1 h
    rw [List.cons_append, Capture.read, ih hinner]
    · rfl
    · exact no_pair hinner tail hend
  case case12 hescape ih =>
    obtain ⟨_, rfl, hinner⟩ := Capture.cons_eq_some_iff.1 h
    rw [List.cons_append, Capture.read, ih hinner]
    · rfl
    · -- A backslash would have taken the character behind it along.
      intro d more hc hmore
      obtain ⟨more, hcs⟩ := (Capture.pair_iff hinner tail).1 ⟨more, hmore⟩
      exact hescape d more hc hcs

/-! ## Lexemes -/

theorem Lexeme.number_append {c : Char} {cs tail : List Char}
    (h : Follows (cs.dropWhile isNumberChar) tail) :
    Lexeme.number c (cs.takeWhile isNumberChar ++ tail) =
      { Lexeme.number c cs with rest := tail } := by
  -- No number goes on over a line break, so that the end of a line ends it as well.
  have hbreak : isNumberChar '\n' = false := by decide
  simp only [Lexeme.number, takeWhile_append_of_follows hbreak h,
    dropWhile_append_of_follows hbreak h]

theorem Lexeme.word_append {c : Char} {cs tail : List Char}
    (h : Follows (cs.dropWhile Text.isNameChar) tail) :
    Lexeme.word c (cs.takeWhile Text.isNameChar ++ tail) =
      { Lexeme.word c cs with rest := tail } := by
  have hbreak : Text.isNameChar '\n' = false := by decide
  simp only [Lexeme.word, takeWhile_append_of_follows hbreak h,
    dropWhile_append_of_follows hbreak h]

theorem Follows.atLineEnd {rest tail : List Char} (h : Follows rest tail) (hrest : AtLineEnd rest) :
    AtLineEnd tail := by
  rcases h with h | h
  · intro c hc
    exact hrest c (h ▸ hc)
  · exact h

theorem Lexeme.read_eq_plain {c : Char} (hslash : c ≠ '/') (hquote : c ≠ '"') (cs : List Char) :
    Lexeme.read (c :: cs) = Lexeme.plain c cs := by
  rw [Lexeme.read]
  · exact fun _ h => absurd h hslash
  · exact fun _ h => absurd h hslash
  · exact hquote

theorem Lexeme.plain_append {c : Char} {cs tail : List Char}
    (h : ∀ cause, (Lexeme.plain c cs).reading ≠ .fault cause)
    (htail : Follows (Lexeme.plain c cs).rest tail) :
    ∃ cs', (Lexeme.plain c cs).used = c :: cs' ∧
      Lexeme.plain c (cs' ++ tail) = { Lexeme.plain c cs with rest := tail } := by
  -- A mark is read by itself, a number and a word as far as their characters go.
  unfold Lexeme.plain at *
  cases hpunct : Punct.ofChar? c with
  | some p => exact ⟨[], rfl, rfl⟩
  | none =>
    simp only [hpunct] at h htail ⊢
    split at h
    · next hnumber =>
      rw [if_pos hnumber] at htail ⊢
      exact ⟨_, rfl, by rw [if_pos hnumber, Lexeme.number_append htail]⟩
    · next hnumber =>
      split at h
      · next hword =>
        rw [if_neg hnumber, if_pos hword] at htail ⊢
        exact ⟨_, rfl, by rw [if_neg hnumber, if_pos hword, Lexeme.word_append htail]⟩
      · exact absurd rfl (h _)

/-- A lexeme is read alike in front of a text that follows. -/
theorem Lexeme.read_append {cs tail : List Char}
    (h : ∀ cause, (Lexeme.read cs).reading ≠ .fault cause)
    (htail : Follows (Lexeme.read cs).rest tail) :
    Lexeme.read ((Lexeme.read cs).used ++ tail) = { Lexeme.read cs with rest := tail } := by
  fun_cases Lexeme.read cs with
  | case1 => exact absurd rfl (h .eof)
  | case2 cs =>
    -- A comment to the end of its line needs such an end behind it.
    have hend : AtLineEnd tail := htail.atLineEnd (atLineEnd_line cs)
    have hline := line_append_of_atLineEnd (not_mem_line cs) hend
    simp only [Lexeme.read, List.cons_append, hline]
  | case3 cs =>
    simp only [Lexeme.read] at h ⊢
    unfold Lexeme.blockComment at h ⊢
    cases hcomment : Text.comment? cs with
    | none => simp [hcomment] at h
    | some p =>
      obtain ⟨body, rest⟩ := p
      simp only [List.cons_append, Text.comment?_append_tail hcomment tail]
  | case4 cs =>
    simp only [Lexeme.read] at h ⊢
    unfold Lexeme.string at h ⊢
    cases hvalue : (Quoted.read cs).value with
    | none => simp [hvalue] at h
    | some v =>
      simp only [List.cons_append, Quoted.read_append hvalue tail, hvalue]
  | case5 c cs hline hblock hquote =>
    have hread : Lexeme.read (c :: cs) = Lexeme.plain c cs := by
      rw [Lexeme.read] <;> assumption
    rw [hread] at h htail
    -- A slash by itself starts nothing, and it must not come to start a comment.
    have hslash : c ≠ '/' := by
      rintro rfl
      exact h _ rfl
    obtain ⟨cs', hused, hplain⟩ := Lexeme.plain_append h htail
    rw [hused, List.cons_append, Lexeme.read_eq_plain hslash hquote, hplain]

/-- A lexeme that is read in front of one text is read in front of every text that follows. -/
theorem Lexeme.read_eq_of_follows {reading : Reading} {used rest tail : List Char}
    (h : Lexeme.read (used ++ rest) = ⟨reading, used, rest⟩)
    (hreading : ∀ cause, reading ≠ .fault cause) (htail : Follows rest tail) :
    Lexeme.read (used ++ tail) = ⟨reading, used, tail⟩ := by
  have happend := @Lexeme.read_append (used ++ rest) tail
  rw [h] at happend
  exact happend hreading htail

end ShaderLang
