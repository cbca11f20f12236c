import ShaderLang.Proofs.Hlsl.Balance
import ShaderLang.Proofs.Source.Zone
/-!
# Quiet texts

The reader of captured blocks knows strings, and a program text is searched for comments and braces
without any knowledge of them. The two agree on a text if its strings are quiet: none of them holds
a brace or the mark that starts a comment. Then a text that was captured has balanced braces for the
search as well.

## Main definitions

* `Zone.Quiet` — the strings of a text are quiet
* `Capture.resume?` — where the search goes on inside a captured text
* `Capture.Leaves` — the search leaves the braces of a text balanced, whatever follows it
* `Hlsl.Legible` — a quiet text that could have been captured

## Main results

* `Capture.leaves_of_read` — the braces of a quiet captured text balance without comments
* `Capture.Leaves.append` — and so do those of such texts one behind another
-/

namespace ShaderLang

open Hlsl (nest? withoutComments)

/-! ## Quiet strings -/

/-- No string in a text holds a brace or the mark that starts a comment, and the text ends in code,
though not with a slash. -/
def Zone.Quiet : Zone → List Char → Prop
  | z, [] => z = .code
  | z, c :: cs =>
    (z = .quoted ∨ z = .escaped →
      c ≠ '\x7b' ∧ c ≠ '\x7d' ∧ (c = '/' → cs.head? ≠ some '/' ∧ cs.head? ≠ some '*')) ∧
    Quiet (z.next c) cs

namespace Zone

instance decidableQuiet : (z : Zone) → (cs : List Char) → Decidable (z.Quiet cs)
  | z, [] => inferInstanceAs (Decidable (z = .code))
  | z, c :: cs =>
    have := decidableQuiet (z.next c) cs
    inferInstanceAs (Decidable (_ ∧ _))

variable {z : Zone} {cs : List Char}

theorem Quiet.ne_nil (h : z.Quiet cs) (hz : z ≠ code) : cs ≠ [] := by
  rintro rfl
  exact hz h

/-- A slash that starts no comment makes no difference. -/
theorem Quiet.of_slash (h : slash.Quiet cs) (hline : cs.head? ≠ some '/')
    (hblock : cs.head? ≠ some '*') : code.Quiet cs := by
  cases cs with
  | nil => cases h
  | cons c cs =>
    have hslash : c ≠ '/' := fun hc => hline (hc ▸ rfl)
    have hstar : c ≠ '*' := fun hc => hblock (hc ▸ rfl)
    refine ⟨by simp, ?_⟩
    simpa [Zone.next, hslash, hstar] using h.2

/-- A star that ends no comment makes no difference. -/
theorem Quiet.of_star (h : star.Quiet cs) (hend : cs.head? ≠ some '/') :
    blockComment.Quiet cs := by
  cases cs with
  | nil => cases h
  | cons c cs =>
    have hslash : c ≠ '/' := fun hc => hend (hc ▸ rfl)
    refine ⟨by simp, ?_⟩
    simpa [Zone.next, hslash] using h.2

end Zone

/-! ## Captured texts without comments -/

namespace Capture

/-- Where the search for comments goes on, inside a captured text: behind the comment that it is
in. -/
def resume? : Capture → List Char → Option (List Char)
  | plain, cs | quoted, cs => some cs
  | lineComment, cs => some (cs.dropWhile (· != '\n'))
  | blockComment, cs => (Text.comment? cs).map (·.2)

/-- Behind a captured text the search goes on as if it began there, and what it leaves of the text
closes the braces that are open. -/
def Leaves (m : Capture) (depth : Nat) (body : List Char) : Prop :=
  ∀ tail, ∃ left, (m.resume? (body ++ tail)).map withoutComments =
      some (left ++ withoutComments tail) ∧
    nest? depth left = some 0

variable {m : Capture} {depth : Nat} {c d : Char} {cs body rest : List Char}

theorem withoutComments_cons_of_head? (h : c = '/' → cs.head? ≠ some '/' ∧ cs.head? ≠ some '*') :
    withoutComments (c :: cs) = c :: withoutComments cs := by
  refine Hlsl.withoutComments_cons (fun more hc hcs => ?_) (fun more hc hcs => ?_)
  · exact (h hc).1 (by rw [hcs]; rfl)
  · exact (h hc).2 (by rw [hcs]; rfl)

/-- A character in front that starts no comment stays. -/
theorem Leaves.cons {m' : Capture} {depth' : Nat} (h : m'.Leaves depth' body)
    (hm : ∀ tail, m.resume? (c :: body ++ tail) = some (c :: body ++ tail))
    (hm' : ∀ tail, m'.resume? (body ++ tail) = some (body ++ tail))
    (hstart : c = '/' → ∀ tail, (body ++ tail).head? ≠ some '/' ∧ (body ++ tail).head? ≠ some '*')
    (hnest : ∀ left, nest? depth (c :: left) = nest? depth' left) : m.Leaves depth (c :: body) := by
  intro tail
  obtain ⟨left, hleft, hdepth⟩ := h tail
  rw [hm', Option.map_some, Option.some.injEq] at hleft
  refine ⟨c :: left, ?_, (hnest left).trans hdepth⟩
  rw [hm, Option.map_some, List.cons_append,
    withoutComments_cons_of_head? fun hc => hstart hc tail, hleft, List.cons_append]

/-- The search goes on alike behind a character that is passed over. -/
theorem Leaves.skip {m' : Capture} (h : m'.Leaves depth body)
    (hresume : ∀ tail, m.resume? (c :: body ++ tail) = m'.resume? (body ++ tail)) :
    m.Leaves depth (c :: body) := by
  intro tail
  rw [hresume]
  exact h tail

/-- The search goes on behind a comment, which leaves a space. -/
theorem Leaves.comment {m' : Capture} (h : m'.Leaves depth body)
    (hcomment : ∀ tail rest, m'.resume? (body ++ tail) = some rest →
      withoutComments ('/' :: c :: (body ++ tail)) = ' ' :: withoutComments rest) :
    plain.Leaves depth ('/' :: c :: body) := by
  intro tail
  obtain ⟨left, hleft, hnest⟩ := h tail
  obtain ⟨rest, hrest, hwithout⟩ := Option.map_eq_some_iff.1 hleft
  refine ⟨' ' :: left, ?_, ?_⟩
  · simp only [resume?, Option.map_some, List.cons_append, hcomment tail rest hrest, hwithout]
  · rw [Hlsl.nest?_cons_of_ne (by decide) (by decide), hnest]

/-- A character of a block comment that does not end it. -/
theorem resume?_blockComment_cons (h : c = '*' → cs.head? ≠ some '/') :
    blockComment.resume? (c :: cs) = blockComment.resume? cs := by
  rw [resume?, resume?, Text.comment?]
  · rw [Option.map_map]
    rfl
  · rintro more hc rfl
    exact h hc rfl

/-- Behind a captured text of which some is left, the same character comes first whatever follows
it. -/
theorem head?_of_read (h : Capture.read m depth cs = some (body, rest)) (hne : body ≠ [])
    (hnot : ∀ more, cs ≠ d :: more) (tail : List Char) : (body ++ tail).head? ≠ some d := by
  obtain ⟨x, xs, rfl⟩ := List.exists_cons_of_ne_nil hne
  rw [← Capture.read_append h] at hnot
  simp only [List.cons_append, List.head?_cons, ne_eq, Option.some.injEq]
  rintro rfl
  exact hnot _ rfl

/-- A slash that starts no comment stays. -/
theorem leaves_slash (h : Capture.read .plain depth cs = some (body, rest))
    (hline : ∀ more, cs ≠ '/' :: more) (hblock : ∀ more, cs ≠ '*' :: more)
    (hq : Zone.slash.Quiet body) (hleaves : Zone.code.Quiet body → plain.Leaves depth body) :
    plain.Leaves depth ('/' :: body) := by
  have hne := hq.ne_nil (by decide)
  have hhead (tail : List Char) :=
    And.intro (head?_of_read h hne hline tail) (head?_of_read h hne hblock tail)
  have hcode := hq.of_slash (by simpa using (hhead []).1) (by simpa using (hhead []).2)
  exact (hleaves hcode).cons (fun _ => rfl) (fun _ => rfl) (fun _ => hhead)
    fun _ => Hlsl.nest?_cons_of_ne (by decide) (by decide)

/-- A star that does not end the comment is passed over. -/
theorem leaves_star (h : Capture.read .blockComment depth cs = some (body, rest))
    (hend : ∀ more, cs ≠ '/' :: more) (hq : Zone.star.Quiet body)
    (hleaves : Zone.blockComment.Quiet body → blockComment.Leaves depth body) :
    blockComment.Leaves depth ('*' :: body) := by
  have hhead := head?_of_read h (hq.ne_nil (by decide)) hend
  exact (hleaves (hq.of_star (by simpa using hhead []))).skip fun tail =>
    resume?_blockComment_cons fun _ => hhead tail

/-- A character of a quiet string stays. -/
theorem Leaves.cons_quoted (h : quoted.Leaves depth body) (hne : body ≠ [])
    (hquiet : c ≠ '\x7b' ∧ c ≠ '\x7d' ∧
      (c = '/' → body.head? ≠ some '/' ∧ body.head? ≠ some '*')) :
    quoted.Leaves depth (c :: body) :=
  h.cons (fun _ => rfl) (fun _ => rfl)
    (fun hc tail => by simpa [List.head?_append_of_ne_nil _ hne] using hquiet.2.2 hc)
    fun _ => Hlsl.nest?_cons_of_ne hquiet.1 hquiet.2.1

/-- A character of code that is neither a brace nor a slash stays. A quote starts a string, and all
others leave the reader in code. -/
theorem leaves_other (hopen : c ≠ '\x7b') (hclose : c ≠ '\x7d') (hslash : c ≠ '/')
    (hq : (Zone.code.next c).Quiet body)
    (hleaves : (if c = '"' then quoted else plain).zone.Quiet body →
      (if c = '"' then quoted else plain).Leaves depth body) :
    plain.Leaves depth (c :: body) := by
  have hnext : (if c = '"' then quoted else plain).zone = Zone.code.next c := by
    split <;> simp [*, Zone.next, zone]
  refine (hleaves (hnext ▸ hq)).cons (fun _ => rfl) (fun _ => ?_) (fun h => absurd h hslash)
    fun _ => Hlsl.nest?_cons_of_ne hopen hclose
  split <;> rfl

/-- Behind the end of a string the reader is in code. -/
theorem leaves_quote (hend : c = '"' ∨ c = '\n') (hleaves : Zone.code.Quiet body →
    plain.Leaves depth body) (hq : (Zone.quoted.next c).Quiet body) :
    quoted.Leaves depth (c :: body) := by
  rcases hend with rfl | rfl
  all_goals
    exact (hleaves hq).cons (fun _ => rfl) (fun _ => rfl) (fun h => absurd h (by decide))
      fun _ => Hlsl.nest?_cons_of_ne (by decide) (by decide)

/-- The braces of a quiet captured text balance without its comments. -/
theorem leaves_of_read (h : Capture.read m depth cs = some (body, rest)) (hq : m.zone.Quiet body) :
    m.Leaves depth body := by
  -- The cases are the reader's: in code a comment, a brace or another character, then the insides
  -- of comments of either kind, then those of strings.
  fun_induction Capture.read m depth cs generalizing body rest with
  | case1 => cases h
  | case2 depth cs ih =>
    obtain ⟨_, rfl, hcons⟩ := Capture.cons_eq_some_iff.1 h
    obtain ⟨inner, rfl, hinner⟩ := Capture.cons_eq_some_iff.1 hcons
    refine (ih hinner hq.2.2).comment fun tail rest hrest => ?_
    cases hrest
    rw [withoutComments]
  | case3 depth cs ih =>
    obtain ⟨_, rfl, hcons⟩ := Capture.cons_eq_some_iff.1 h
    obtain ⟨inner, rfl, hinner⟩ := Capture.cons_eq_some_iff.1 hcons
    refine (ih hinner hq.2.2).comment fun tail rest hrest => ?_
    obtain ⟨⟨_, _⟩, hcomment, rfl⟩ := Option.map_eq_some_iff.1 hrest
    exact Hlsl.withoutComments_block hcomment
  | case4 cs hline hblock =>
    cases h
    exact fun tail => ⟨[], rfl, rfl⟩
  | case5 cs hline hblock depth ih =>
    obtain ⟨inner, rfl, hinner⟩ := Capture.cons_eq_some_iff.1 h
    exact (ih hinner hq.2).cons (fun _ => rfl) (fun _ => rfl) (fun h => absurd h (by decide))
      fun _ => Hlsl.nest?_close
  | case6 depth cs hline hblock hclose ih =>
    obtain ⟨inner, rfl, hinner⟩ := Capture.cons_eq_some_iff.1 h
    exact (ih hinner hq.2).cons (fun _ => rfl) (fun _ => rfl) (fun h => absurd h (by decide))
      fun _ => Hlsl.nest?_open
  | case7 depth c cs hline hblock hclose hopen ih =>
    obtain ⟨inner, rfl, hinner⟩ := Capture.cons_eq_some_iff.1 h
    by_cases hslash : c = '/'
    · subst hslash
      exact leaves_slash hinner (fun more => hline more rfl) (fun more => hblock more rfl) hq.2
        (ih hinner)
    · exact leaves_other hopen hclose hslash hq.2 (ih hinner)
  | case8 depth c cs ih =>
    obtain ⟨inner, rfl, hinner⟩ := Capture.cons_eq_some_iff.1 h
    by_cases hbreak : c = '\n'
    · subst hbreak
      exact (ih hinner hq.2).cons (fun _ => rfl) (fun _ => rfl) (fun h => absurd h (by decide))
        fun _ => Hlsl.nest?_cons_of_ne (by decide) (by decide)
    · rw [if_neg hbreak] at hinner ih
      have hinside : Zone.lineComment.Quiet inner := by simpa [Zone.next, hbreak, zone] using hq.2
      exact (ih hinner hinside).skip fun tail => by simp [resume?, hbreak]
  | case9 depth cs ih =>
    obtain ⟨_, rfl, hcons⟩ := Capture.cons_eq_some_iff.1 h
    obtain ⟨inner, rfl, hinner⟩ := Capture.cons_eq_some_iff.1 hcons
    exact ih hinner hq.2.2
  | case10 depth c cs hend ih =>
    obtain ⟨inner, rfl, hinner⟩ := Capture.cons_eq_some_iff.1 h
    by_cases hstar : c = '*'
    · subst hstar
      exact leaves_star hinner (fun more => hend more rfl) hq.2 (ih hinner)
    · have hcomment : Zone.blockComment.Quiet inner := by simpa [Zone.next, hstar, zone] using hq.2
      exact (ih hinner hcomment).skip fun tail =>
        resume?_blockComment_cons fun hc => absurd hc hstar
  | case11 depth c cs ih =>
    obtain ⟨_, rfl, hcons⟩ := Capture.cons_eq_some_iff.1 h
    obtain ⟨inner, rfl, hinner⟩ := Capture.cons_eq_some_iff.1 hcons
    have hinside : Zone.quoted.Quiet inner := hq.2.2
    have hlater : quoted.Leaves depth (c :: inner) :=
      (ih hinner hinside).cons_quoted (hinside.ne_nil (by decide)) (hq.2.1 (.inr rfl))
    exact hlater.cons_quoted (List.cons_ne_nil _ _) (by simp)
  | case12 depth c cs hescape ih =>
    obtain ⟨inner, rfl, hinner⟩ := Capture.cons_eq_some_iff.1 h
    have hquiet := hq.1 (.inl rfl)
    by_cases hend : c = '"' ∨ c = '\n'
    · rw [if_pos hend] at hinner ih
      exact leaves_quote hend (ih hinner) hq.2
    · rw [if_neg hend] at hinner ih
      -- A backslash would have been read together with the character behind it.
      have hbackslash : c ≠ '\\' := by
        rintro rfl
        cases cs with
        | nil => cases hinner
        | cons d cs => exact hescape d cs rfl rfl
      have hinside : Zone.quoted.Quiet inner := by
        simpa [Zone.next, hend, hbackslash, zone] using hq.2
      exact (ih hinner hinside).cons_quoted (hinside.ne_nil (by decide)) hquiet

theorem leaves_nil : plain.Leaves 0 [] := fun _ => ⟨[], rfl, rfl⟩

theorem Leaves.append {cs ds : List Char} (h : plain.Leaves 0 cs) (h' : plain.Leaves 0 ds) :
    plain.Leaves 0 (cs ++ ds) := by
  intro tail
  obtain ⟨left, hleft, hnest⟩ := h (ds ++ tail)
  obtain ⟨left', hleft', hnest'⟩ := h' tail
  simp only [resume?, Option.map_some, Option.some.injEq] at hleft hleft'
  refine ⟨left ++ left', ?_, ?_⟩
  · simp only [resume?, Option.map_some, List.append_assoc, hleft, hleft']
  · rw [Hlsl.nest?_append, hnest, Option.bind_some, hnest']

/-- The braces balance if nothing follows. -/
theorem Leaves.nest? {cs : List Char} (h : plain.Leaves 0 cs) :
    nest? 0 (withoutComments cs) = some 0 := by
  obtain ⟨left, hleft, hnest⟩ := h []
  have hnil : withoutComments [] = [] := by rw [withoutComments]
  simp only [resume?, Option.map_some, Option.some.injEq, List.append_nil, hnil] at hleft
  rw [hleft, hnest]

end Capture

/-! ## Legible texts -/

namespace Hlsl

/-- A text that could have been captured, with quiet strings. -/
structure Legible (text : List Char) : Prop where
  read : Capture.read .plain 0 (text ++ ['\x7d']) = some (text, [])
  quiet : Zone.code.Quiet text

instance (text : List Char) : Decidable (Legible text) :=
  decidable_of_iff (Capture.read .plain 0 (text ++ ['\x7d']) = some (text, []) ∧
    Zone.code.Quiet text) ⟨fun h => ⟨h.1, h.2⟩, fun h => ⟨h.read, h.quiet⟩⟩

theorem Legible.leaves {text : List Char} (h : Legible text) : Capture.plain.Leaves 0 text :=
  Capture.leaves_of_read h.read h.quiet

end Hlsl
end ShaderLang
