import ShaderLang.Proofs.Number.Decimal
import ShaderLang.Proofs.Source.Move
import ShaderLang.Proofs.Text.Trim
/-!
# Tokens that are read back

Keywords, marks, truth values, integers, strings and identifiers each have a spelling, and their
spellings, with a space between any two of them, are read as these tokens again. A space ends a
word and a number, and is part of neither; what a string holds is kept by backslashes. Only the
brace that opens a block of code is more than a mark, as the block behind it is captured.

## Main definitions

* `Quoted.written` — a string in quotes
* `Token.spelling?` — how a token is spelled
* `Token.OpensNoBlock` — no brace in a list of tokens opens a block of code

## Main results

* `Quoted.read_written` — a string is read as it is written
* `Lexeme.read_spelling` — a token is read back in front of a space and at the end of a text
* `Scan.step_spelling`, `Scan.finishes_spellings` — one more token is read, and all of them
* `Scan.process_spellings` — a text of spellings is read as its tokens
-/

namespace ShaderLang

/-! ## Strings -/

namespace Quoted

/-- How a character of a string is written. -/
def escaped (c : Char) : List Char := if c = '"' ∨ c = '\\' ∨ c = '\n' then ['\\', c] else [c]

/-- A string in quotes. -/
def written (cs : List Char) : List Char := '"' :: (cs.flatMap escaped ++ ['"'])

theorem read_escaped (c : Char) (cs : List Char) :
    read (escaped c ++ cs) = (read cs).cons c (escaped c) := by
  unfold escaped
  split
  · rfl
  · next hplain =>
    obtain ⟨hquote, hslash, hbreak⟩ : c ≠ '"' ∧ c ≠ '\\' ∧ c ≠ '\n' := by simpa using hplain
    rw [List.singleton_append, read, if_neg hquote, if_neg hbreak]
    · exact fun h => absurd h hslash
    · exact fun _ _ h => absurd h hslash

/-- A string is read as it is written, whatever stands behind it. -/
theorem read_written (cs rest : List Char) :
    read (cs.flatMap escaped ++ '"' :: rest) = ⟨some cs, cs.flatMap escaped ++ ['"'], rest⟩ := by
  induction cs with
  | nil => rfl
  | cons c cs ih =>
    rw [List.flatMap_cons, List.append_assoc, read_escaped, ih, cons, List.append_assoc]
    rfl

end Quoted

/-! ## Spellings -/

namespace Token

/-- How a token is spelled, if it is read as it is spelled: an integer has 32 bits, and an
identifier is a name that stands for nothing else. A number with a point has many spellings, and
a captured block has none. -/
def spelling? : Token → Option String
  | keyword k => some k.spelling
  | punct p => some (String.singleton p.char)
  | bool b => some (if b then "true" else "false")
  | int n => if -2147483648 ≤ n ∧ n ≤ 2147483647 then some (toString n) else none
  | str s => some (String.ofList (Quoted.written s.toList))
  | identifier name =>
    if Text.isName name.toList = true ∧ Keyword.ofSpelling? name = none ∧
        name ≠ "true" ∧ name ≠ "false" then some name else none
  | float _ | rawBlock _ => none

/-- No opening brace in a list of tokens stands behind `code` or behind the name of a sub-shader,
where it would open a block of code. -/
structure OpensNoBlock (ts : List Token) : Prop where
  code : ¬ [keyword .code, punct .blockStart] <:+: ts
  subShader : ∀ name, ¬ [keyword .subShader, identifier name, punct .blockStart] <:+: ts

end Token

/-! ## Words and numbers -/

theorem Keyword.isName_spelling (k : Keyword) : Text.isName k.spelling.toList = true :=
  have h : ∀ k ∈ all, Text.isName k.spelling.toList = true := by decide +kernel
  h k k.mem_all

/-- An integer is written with the characters of a number, and is the value of that number. -/
theorem Token.ofNumber?_toString {n : Int} (hlow : -2147483648 ≤ n) (hhigh : n ≤ 2147483647) :
    ∃ c cs, (toString n).toList = c :: cs ∧ (c.isDigit || c == '-') = true ∧
      (∀ x ∈ cs, Lexeme.isNumberChar x = true) ∧ ofNumber? (c :: cs) = some (.int n) := by
  have hread := Number.read32_toString hlow hhigh
  obtain ⟨ds, hds, htext⟩ := Number.exists_toList_toString n
  obtain ⟨hne, hdigits, -⟩ := Number.natural?_eq_some_iff.1 hds
  have hchars : ∀ x ∈ ds, Lexeme.isNumberChar x = true := fun x hx => by
    simp [Lexeme.isNumberChar, Text.isNameChar, Char.isAlphanum, hdigits x hx]
  have hall : ds.all Char.isDigit = true := List.all_eq_true.2 hdigits
  rw [htext] at hread ⊢
  split at hread
  · next hneg =>
    refine ⟨'-', ds, if_pos hneg, by decide, hchars, ?_⟩
    simp [ofNumber?, hall, hread]
  · next hpos =>
    obtain ⟨c, cs, rfl⟩ := List.exists_cons_of_ne_nil hne
    have hc := hdigits c List.mem_cons_self
    refine ⟨c, cs, if_neg hpos, by simp [hc], fun x hx => hchars x (List.mem_cons_of_mem c hx), ?_⟩
    rw [ofNumber?, beq_false_of_ne (Number.head_of_natural? hds).1]
    simp [hall, hread]

/-- The reading of a word of number characters. -/
def Reading.ofNumber (word : List Char) : Reading :=
  match Token.ofNumber? word with
  | some t => .token t
  | none => .fault (.unidentifiedToken (String.ofList word))

/-! ## Lexemes in front of a space -/

namespace Lexeme

variable {c : Char} {cs rest : List Char} {t : Token} {word : String}

/-- No mark is written with a character of a word or of a number. -/
theorem punct_eq_none (h : isNumberChar c = true ∨ c = '-') : Punct.ofChar? c = none := by
  refine List.find?_eq_none.2 fun p _ hp => ?_
  obtain rfl : p.char = c := beq_iff_eq.1 hp
  revert h
  cases p <;> decide

theorem read_eq_plain_of_isNumberChar (h : isNumberChar c = true ∨ c = '-') (cs : List Char) :
    read (c :: cs) = plain c cs := by
  refine read_eq_plain ?_ ?_ cs <;>
  · rintro rfl
    revert h
    decide

/-- A number is read as far as its characters go. -/
theorem read_number (hstart : (c.isDigit || c == '-') = true)
    (hcs : ∀ x ∈ cs, isNumberChar x = true)
    (hrest : ∀ x, rest.head? = some x → isNumberChar x = false) :
    read (c :: cs ++ rest) = ⟨.ofNumber (c :: cs), c :: cs, rest⟩ := by
  have hc : isNumberChar c = true ∨ c = '-' := by
    rcases Bool.or_eq_true_iff.1 hstart with hdigit | hminus
    · exact .inl (by simp [isNumberChar, Text.isNameChar, Char.isAlphanum, hdigit])
    · exact .inr (beq_iff_eq.1 hminus)
  rw [List.cons_append, read_eq_plain_of_isNumberChar hc, plain, punct_eq_none hc]
  simp only [hstart, Bool.true_or, if_true, number, Text.takeWhile_append_of_head hcs hrest,
    Text.dropWhile_append_of_head hcs hrest]
  rfl

/-- Neither a digit nor a sign starts a name: they lie below the letters. -/
theorem not_startsNumber_of_isNameStart (h : Text.isNameStart c = true) :
    (c.isDigit || c == '-' || c == '.') = false := by
  have hcode : 65 ≤ c.toNat := by
    rcases Bool.or_eq_true_iff.1 h with halpha | hunderscore
    · exact (Text.toNat_of_isAlpha halpha).1
    · rw [beq_iff_eq.1 hunderscore]
      decide
  rw [← Bool.not_eq_true]
  intro hnumber
  rcases Bool.or_eq_true_iff.1 hnumber with hnumber | hpoint
  · rcases Bool.or_eq_true_iff.1 hnumber with hdigit | hminus
    · have hle : c.toNat ≤ 57 := (Char.isDigit_iff_toNat.1 hdigit).2
      omega
    · rw [beq_iff_eq.1 hminus] at hcode
      exact absurd hcode (by decide)
  · rw [beq_iff_eq.1 hpoint] at hcode
    exact absurd hcode (by decide)

/-- A word in front of a space. -/
theorem read_word (h : Text.isName cs = true) :
    read (cs ++ [' ']) = ⟨.token (Token.ofWord (String.ofList cs)), cs, [' ']⟩ := by
  cases cs with
  | nil => cases h
  | cons c cs =>
    obtain ⟨hstart, hall⟩ := Bool.and_eq_true_iff.1 h
    have hcs := List.all_eq_true.1 hall
    have hc : isNumberChar c = true ∨ c = '-' :=
      .inl (by simp [isNumberChar, Text.isNameChar_of_isNameStart hstart])
    have hspace : ∀ x, [' '].head? = some x → Text.isNameChar x = false := by simp; decide
    rw [List.cons_append, read_eq_plain_of_isNumberChar hc, plain, punct_eq_none hc]
    simp only [not_startsNumber_of_isNameStart hstart, hstart, Bool.false_eq_true, if_false,
      if_true, Lexeme.word, Text.takeWhile_append_of_head hcs hspace,
      Text.dropWhile_append_of_head hcs hspace]

/-- A string in front of a space. -/
theorem read_string (cs : List Char) :
    read (Quoted.written cs ++ [' ']) =
      ⟨.token (.str (String.ofList cs)), Quoted.written cs, [' ']⟩ := by
  have hquote : Quoted.written cs ++ [' '] =
      '"' :: (cs.flatMap Quoted.escaped ++ '"' :: [' ']) := by
    simp [Quoted.written]
  rw [hquote, read, string, Quoted.read_written]
  rfl

/-- A token is read back from its spelling. -/
theorem read_spelling (h : t.spelling? = some word) (hrest : Follows [' '] rest) :
    read (word.toList ++ rest) = ⟨.token t, word.toList, rest⟩ := by
  -- What follows ends the token like a space does, so a space may stand for it.
  suffices hspace : read (word.toList ++ [' ']) = ⟨.token t, word.toList, [' ']⟩ from
    read_eq_of_follows hspace nofun hrest
  cases t with
  | keyword k =>
    cases h
    rw [read_word k.isName_spelling, String.ofList_toList, Token.ofWord_spelling]
  | punct p =>
    cases h
    rw [String.toList_singleton]
    cases p <;> rfl
  | bool b =>
    cases h
    cases b <;> exact read_word (by decide)
  | int n =>
    obtain ⟨⟨hlow, hhigh⟩, hword⟩ := Option.ite_none_right_eq_some.1 h
    cases hword
    obtain ⟨c, cs, htext, hstart, hcs, hnumber⟩ := Token.ofNumber?_toString hlow hhigh
    rw [htext, read_number hstart hcs (by simp; decide), Reading.ofNumber, hnumber]
  | float => cases h
  | str s =>
    cases h
    rw [String.toList_ofList, read_string, String.ofList_toList]
  | identifier name =>
    obtain ⟨⟨hname, hkeyword, htrue, hfalse⟩, hword⟩ := Option.ite_none_right_eq_some.1 h
    cases hword
    rw [read_word hname, String.ofList_toList, Token.ofWord, if_neg htrue, if_neg hfalse, hkeyword]
  | rawBlock => cases h

/-- What starts a token neither is a blank nor starts a directive. -/
theorem startsText_of_read (h : (read (c :: cs)).reading = .token t) (s : Scan) :
    Scan.StartsText s c := by
  refine ⟨?_, ?_, ?_⟩
  · rintro rfl
    cases h
  · rw [← Bool.not_eq_true]
    intro hgap
    simp only [Scan.isGap, Bool.or_eq_true, beq_iff_eq] at hgap
    rcases hgap with (rfl | rfl) | rfl <;> cases h
  · rintro ⟨rfl, -⟩
    cases h

end Lexeme

/-! ## Scans -/

namespace Scan

open Token (OpensNoBlock)

variable {includes : Includes} {depth : Nat} {f : Frame} {s : Scan} {t : Token} {word : String}
  {rest : List Char} {done ts : List Token} {words : List String}

/-- One token is read from its spelling. -/
theorem step_spelling (hword : t.spelling? = some word) (hrest : f.rest = word.toList ++ rest)
    (hspace : Follows [' '] rest) (henabled : s.journal.isEnabled = true)
    (hblock : t = .punct .blockStart → s.blockKind? = none) :
    step includes depth f s =
      .moved (f.past word.toList rest) ({ s with atLineStart := false }.push f t) := by
  have hread := Lexeme.read_spelling hword hspace
  have hne : word.toList ≠ [] := by
    have hused := @Lexeme.used_ne_nil (word.toList ++ rest)
    rw [hread] at hused
    exact hused nofun
  obtain ⟨c, cs, hcs⟩ := List.exists_cons_of_ne_nil hne
  rw [hcs] at hread hrest ⊢
  have hc : StartsText s c := Lexeme.startsText_of_read (by rw [← List.cons_append, hread]) s
  have hoccurs : Occurs includes depth s (c :: cs) rest (.lexeme (some t)) := by
    refine .lexeme hc henabled (fun hbrace => hblock ?_) hread
    -- A brace is read as itself.
    subst hbrace
    exact (Reading.token.inj (congrArg Lexeme.reading hread)).symm
  exact step_of_occurs hrest hoccurs

/-- A brace behind the tokens `done` that opens no block is a mark. -/
theorem blockKind?_eq_none (hdone : s.tokens.map PlacedToken.token = done)
    (hblock : OpensNoBlock (done ++ .punct .blockStart :: ts)) : s.blockKind? = none := by
  have hrecent : s.recent.map PlacedToken.token = done.reverse := by
    rw [← hdone, tokens, List.map_reverse, List.reverse_reverse]
  -- What has been read last stands right in front of the brace.
  have hbefore {last more : List Token} (h : done.reverse.take 2 = last.reverse ++ more) :
      last ++ [.punct .blockStart] <:+: done ++ .punct .blockStart :: ts := by
    have hlast : last.reverse <+: done.reverse :=
      (List.prefix_append _ more).trans (h ▸ List.take_prefix 2 done.reverse)
    obtain ⟨front, rfl⟩ := List.reverse_prefix.1 hlast
    exact ⟨front, ts, by simp⟩
  unfold blockKind?
  rw [List.map_take, hrecent]
  split
  · next more hkind => exact absurd (@hbefore [.keyword .code] _ hkind) hblock.code
  · next name more hkind =>
    exact absurd (@hbefore [.keyword .subShader, .identifier name] _ hkind)
      (hblock.subShader name)
  · rfl

/-- Words with a space in front of each. -/
def spaced (words : List String) : List Char := words.flatMap fun word => ' ' :: word.toList

theorem follows_spaced (words : List String) : Follows [' '] (spaced words) := by
  cases words with
  | nil => exact .inr atLineEnd_nil
  | cons => exact .inl rfl

theorem toList_intercalate_cons (word : String) (words : List String) :
    (" ".intercalate (word :: words)).toList = word.toList ++ spaced words := by
  induction words generalizing word with
  | nil => simp [spaced]
  | cons next words ih =>
    have hspace : " ".toList = [' '] := rfl
    rw [String.intercalate_cons_cons, String.toList_append, String.toList_append, ih, hspace,
      List.append_assoc]
    rfl

/-- A token behind the tokens `done` is read from its spelling, and what follows it is read on. -/
theorem finishes_of_spelling (hword : t.spelling? = some word)
    (hblock : OpensNoBlock (done ++ t :: ts)) (hdone : s.tokens.map PlacedToken.token = done)
    (henabled : s.journal.isEnabled = true) (hrest : f.rest = word.toList ++ spaced words)
    (h : ∀ f' s', f'.rest = spaced words → s'.journal = s.journal →
      s'.tokens.map PlacedToken.token = done ++ [t] →
      ∃ g u, Finishes includes depth f' s' g u ∧ u.journal = s.journal ∧
        u.tokens.map PlacedToken.token = done ++ t :: ts) :
    ∃ g u, Finishes includes depth f s g u ∧ u.journal = s.journal ∧
      u.tokens.map PlacedToken.token = done ++ t :: ts := by
  have hstep := @step_spelling includes depth _ _ _ _ _ hword hrest (follows_spaced words) henabled
    (by rintro rfl; exact blockKind?_eq_none hdone hblock)
  obtain ⟨g, u, hlater, hjournal, htokens⟩ := h (f.past word.toList (spaced words))
    ({ s with atLineStart := false }.push f t) rfl rfl (by simp [tokens, push, ← hdone])
  exact ⟨g, u, .moved hstep hlater, hjournal, htokens⟩

/-- Behind the tokens `done`, spellings with a space in front of each are read as their tokens. -/
theorem finishes_spellings (hwords : ts.map Token.spelling? = words.map some)
    (hblock : OpensNoBlock (done ++ ts)) (hdone : s.tokens.map PlacedToken.token = done)
    (henabled : s.journal.isEnabled = true) (hrest : f.rest = spaced words) :
    ∃ g u, Finishes includes depth f s g u ∧ u.journal = s.journal ∧
      u.tokens.map PlacedToken.token = done ++ ts := by
  -- What has been read stands in front of what is still to be read.
  induction ts generalizing done words f s with
  | nil =>
    obtain rfl : words = [] := by simpa using hwords.symm
    exact ⟨f, s, .done hrest, rfl, by simpa using hdone⟩
  | cons t ts ih =>
    cases words with
    | nil => cases hwords
    | cons word words =>
      obtain ⟨hword, hwords⟩ := List.cons.inj hwords
      have hrest : f.rest = [' '] ++ (word.toList ++ spaced words) := hrest
      have hspace : step includes depth f s =
          .moved (f.past [' '] (word.toList ++ spaced words)) s :=
        step_of_occurs hrest (.blank rfl)
      obtain ⟨g, u, hlater, hend⟩ := @finishes_of_spelling includes depth
        (f.past [' '] (word.toList ++ spaced words)) _ _ _ _ _ _ hword hblock hdone henabled rfl
        fun f' s' hrest' hjournal' hdone' => by
          have hrun := @ih f' s' (done ++ [t]) words hwords (by simpa using hblock) hdone'
            (by rw [hjournal', henabled]) hrest'
          rwa [hjournal', List.append_assoc] at hrun
      exact ⟨g, u, .moved hspace hlater, hend⟩

/-- A text of spellings, with a space between any two of them, is read as its tokens, whatever is
defined. -/
theorem process_spellings (includes : Includes) (defines : Defines)
    (hwords : ts.map Token.spelling? = words.map some) (hblock : OpensNoBlock ts) :
    ∃ frames t, (fresh defines).process includes (" ".intercalate words) [] = .ok (frames, t) ∧
      t.tokens.map PlacedToken.token = ts := by
  obtain ⟨g, t, hrun, hjournal, htokens⟩ : ∃ g t,
      Finishes includes 0 (Frame.ofText none (" ".intercalate words)) (fresh defines) g t ∧
        t.journal = (fresh defines).journal ∧ t.tokens.map PlacedToken.token = ts := by
    cases ts with
    | nil =>
      obtain rfl : words = [] := by simpa using hwords.symm
      exact ⟨_, _, .done rfl, rfl, rfl⟩
    | cons first ts =>
      cases words with
      | nil => cases hwords
      | cons word words =>
        -- No space stands in front of the first spelling.
        obtain ⟨hword, hwords⟩ := List.cons.inj hwords
        have hrest : (Frame.ofText none (" ".intercalate (word :: words))).rest =
            word.toList ++ spaced words := toList_intercalate_cons word words
        refine @finishes_of_spelling _ _ _ _ _ _ [] _ _ hword hblock rfl rfl hrest
          fun f' s' hrest' hjournal' hdone' => ?_
        rw [← hjournal']
        exact @finishes_spellings _ _ _ _ [first] _ _ hwords hblock hdone' (by rw [hjournal']; rfl)
          hrest'
  exact ⟨[g], t, process_eq_ok_iff.2 ⟨g, hrun, by rw [hjournal]; rfl, rfl⟩, htokens⟩

/-- The name of a sub-shader is a string here, which holds a quote, a backslash, a line break and a
letter beyond ASCII; so the brace behind it opens no block. -/
def namedByString : List Token :=
  [.keyword .subShader, .str "\"\\\n\u00e9", .punct .blockStart, .identifier "x_1", .punct .eq,
    .int (-2147483648), .punct .blockEnd, .bool true, .keyword .code]

theorem process_spellings_namedByString :
    ∃ frames t,
      (fresh [⟨"x_1", none⟩]).process (fun _ => none)
        "subshader \"\\\"\\\\\\\n\u00e9\" \x7b x_1 = -2147483648 \x7d true code" [] =
        .ok (frames, t) ∧
      t.tokens.map PlacedToken.token = namedByString := by
  have hwords : namedByString.map Token.spelling? =
      ["subshader", "\"\\\"\\\\\\\n\u00e9\"", "\x7b", "x_1", "=", "-2147483648", "\x7d", "true",
        "code"].map some := by decide
  have hblock : OpensNoBlock namedByString := by
    refine ⟨by decide, fun name hpiece => ?_⟩
    simp [namedByString, List.infix_cons_iff] at hpiece
  have hprocess := process_spellings (fun _ => none) [⟨"x_1", none⟩] hwords hblock
  have hsource : " ".intercalate ["subshader", "\"\\\"\\\\\\\n\u00e9\"", "\x7b", "x_1", "=",
      "-2147483648", "\x7d", "true", "code"] =
      "subshader \"\\\"\\\\\\\n\u00e9\" \x7b x_1 = -2147483648 \x7d true code" := by decide
  rwa [hsource] at hprocess

end Scan
end ShaderLang
