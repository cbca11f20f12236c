import ShaderLang.Hlsl.Declaration
import ShaderLang.Proofs.Source.Locality
import ShaderLang.Proofs.Text.Greedy
/-!
# Texts without comments

Comments are taken out of a program text by a pattern, which is tried at every point of the text.
What this comes to is told by a recursion on the text: a line comment goes to the end of its line, a
block comment to its first closing mark, and one that is never closed is no comment.

## Main definitions

* `Hlsl.withoutComments` — a text with a space for each comment

## Main results

* `Hlsl.replace_comment` — the pattern takes out just these comments
* `Hlsl.withoutComments_cons` — a character that starts no comment stays
-/

namespace ShaderLang

/-! ## Repetitions of characters -/

namespace Pattern

/-- What follows a repetition starts behind its last character, if it goes on from everywhere. -/
theorem first?_run {p : Char → Bool} {go : Cursor → Option Found} (h : ∀ d, (go d).isSome)
    (c : Cursor) : ∃ d, (run p).first? c go = go d ∧ d.rest = c.rest.dropWhile p := by
  have happend : c.rest = c.rest.takeWhile p ++ c.rest.dropWhile p :=
    List.takeWhile_append_dropWhile.symm
  obtain ⟨d, hspan, hd⟩ := Cursor.exists_spans happend
  obtain ⟨f, hf⟩ := Option.isSome_iff_exists.1 (h d)
  refine ⟨d, ?_, hd⟩
  rw [hf]
  refine first?_run_of_spans hspan (fun x => List.mem_takeWhile_imp) (fun x hx => ?_) hf
  have hnot := List.head?_dropWhile_not p c.rest
  rw [← hd, Option.mem_def.1 hx] at hnot
  simpa using hnot

/-- A later point has less text behind it, and more before it. -/
theorem offset_lt_of_length_lt {c d : Cursor} (h : d ∈ c.points)
    (hlength : d.rest.length < c.rest.length) : c.offset < d.offset := by
  obtain ⟨u, hu⟩ := Cursor.exists_spans_of_mem_points h
  refine hu.offset_lt ?_
  rintro rfl
  exact absurd (hu.rest ▸ hlength) (Nat.lt_irrefl _)

end Pattern

namespace Hlsl

open Pattern

/-- A text with a space for each comment. -/
def withoutComments : List Char → List Char
  | [] => []
  | '/' :: '/' :: cs => ' ' :: withoutComments (cs.dropWhile (· != '\n'))
  | '/' :: '*' :: cs =>
    match _h : Text.comment? cs with
    | some (_, rest) => ' ' :: withoutComments rest
    | none => '/' :: withoutComments ('*' :: cs)
  | c :: cs => c :: withoutComments cs
termination_by cs => cs.length
decreasing_by
  · have hline := (List.dropWhile_sublist (l := cs) (· != '\n')).length_le
    simp only [List.length_cons]
    omega
  · have happend := congrArg List.length (Text.comment?_append _h)
    simp only [List.length_append, List.length_cons] at happend ⊢
    omega
  · simp
  · simp

theorem withoutComments_block {cs body rest : List Char}
    (h : Text.comment? cs = some (body, rest)) :
    withoutComments ('/' :: '*' :: cs) = ' ' :: withoutComments rest := by
  rw [withoutComments]
  split
  · next h' =>
    rw [h] at h'
    cases h'
    rfl
  · next h' =>
    rw [h] at h'
    cases h'

theorem withoutComments_open {cs : List Char} (h : Text.comment? cs = none) :
    withoutComments ('/' :: '*' :: cs) = '/' :: withoutComments ('*' :: cs) := by
  rw [withoutComments]
  split
  · next h' =>
    rw [h] at h'
    cases h'
  · rfl

/-- A character that starts no comment stays. -/
theorem withoutComments_cons {x : Char} {cs : List Char}
    (hline : ∀ more, x = '/' → cs ≠ '/' :: more) (hblock : ∀ more, x = '/' → cs ≠ '*' :: more) :
    withoutComments (x :: cs) = x :: withoutComments cs := by
  rw [withoutComments]
  · exact fun more hx hcs => hline more hx hcs
  · exact fun more hx hcs => hblock more hx hcs

/-! ## Where a comment matches -/

variable {c : Cursor} {cs rest body : List Char}

/-- A pattern of two characters leads on behind them. -/
theorem first?_lit_pair {x y : Char} (go : Cursor → Option Found) :
    (lit (String.ofList [x, y])).first? c go =
      match c.rest with
      | a :: b :: cs => if a = x ∧ b = y then go ((c.past a (b :: cs)).past b cs) else none
      | _ => none := by
  simp only [lit, String.toList_ofList, List.foldr_cons, List.foldr_nil, first?, empty, beq_iff_eq]
  rcases c.rest with _ | ⟨a, _ | ⟨b, cs⟩⟩
  · rfl
  · by_cases ha : a = x <;> simp [ha, Cursor.past]
  · by_cases ha : a = x <;> by_cases hb : b = y <;> simp [ha, hb, Cursor.past]

/-- What stands behind the opening mark of a block comment. -/
def commentEnd : Pattern := seqs [lazyRun fun _ => true, lit "*/"]

/-- The closing mark stands here, or it is looked for behind the next character. -/
theorem at?_commentEnd_eq (c : Cursor) :
    commentEnd.at? c = ((lit "*/").at? c).or
      (match c.rest with
      | [] => none
      | x :: xs => commentEnd.at? (c.past x xs)) := by
  simp only [at?, commentEnd, seqs, List.foldr_cons, List.foldr_nil, lazyRun]
  rw [first?, first?, repeatThen]
  rcases hc : c.rest with _ | ⟨x, xs⟩
  · simp [first?, hc, prefer, empty]
  · simp [first?, hc, prefer, empty, Cursor.past]

/-- A block comment goes to its first closing mark. -/
theorem at?_commentEnd (c : Cursor) :
    match Text.comment? c.rest with
    | some (_, rest) => ∃ f, commentEnd.at? c = some f ∧ f.stop.rest = rest
    | none => commentEnd.at? c = none := by
  induction hc : c.rest using Text.comment?.induct generalizing c with
  | case1 =>
    rw [Text.comment?, at?_commentEnd_eq, hc, at?, first?_lit_pair, hc]
    rfl
  | case2 cs =>
    rw [Text.comment?, at?_commentEnd_eq, hc, at?, first?_lit_pair, hc]
    exact ⟨_, rfl, rfl⟩
  | case3 x cs hend ih =>
    have hnext := ih (c.past x cs) rfl
    -- No mark stands here, so the lazy repetition takes one more character.
    have hhere : (lit "*/").at? c = none := by
      rw [at?, first?_lit_pair, hc]
      cases cs with
      | nil => rfl
      | cons y ys => exact if_neg fun h => hend ys h.1 (by rw [h.2])
    rw [at?_commentEnd_eq, hhere, hc, Option.none_or, Text.comment?]
    · cases hcomment : Text.comment? cs with
      | none => simpa [Cursor.past, hcomment] using hnext
      | some r => simpa [Cursor.past, hcomment] using hnext
    · exact hend

/-- The rest of a line is always there. -/
def lineRest : Pattern := seqs [inLine]

theorem at?_comment (c : Cursor) :
    comment.at? c =
      match c.rest with
      | a :: b :: cs =>
        (if a = '/' ∧ b = '/' then lineRest.at? ((c.past a (b :: cs)).past b cs) else none).or
          (if a = '/' ∧ b = '*' then commentEnd.at? ((c.past a (b :: cs)).past b cs) else none)
      | _ => none := by
  have hparts : comment.at? c =
      ((lit "//").first? c fun d => lineRest.at? d).or
        ((lit "/*").first? c fun d => commentEnd.at? d) := rfl
  rw [hparts, first?_lit_pair, first?_lit_pair]
  rcases c.rest with _ | ⟨a, _ | ⟨b, cs⟩⟩ <;> rfl

theorem exists_at?_lineRest (c : Cursor) :
    ∃ f, lineRest.at? c = some f ∧ f.stop.rest = c.rest.dropWhile (· != '\n') := by
  obtain ⟨d, hrun, hd⟩ : ∃ d, (run (· != '\n')).first? c (fun d => some ⟨[], d⟩) = some ⟨[], d⟩ ∧
      d.rest = c.rest.dropWhile (· != '\n') := first?_run (fun _ => rfl) c
  exact ⟨⟨[], d⟩, hrun, hd⟩

/-- A line comment goes to the end of its line. -/
theorem exists_at?_line (h : c.rest = '/' :: '/' :: cs) :
    ∃ f, comment.at? c = some f ∧ f.stop.rest = cs.dropWhile (· != '\n') := by
  obtain ⟨f, hf, hstop⟩ := exists_at?_lineRest ((c.past '/' ('/' :: cs)).past '/' cs)
  refine ⟨f, ?_, hstop⟩
  rw [at?_comment, h]
  simp [hf]

theorem exists_at?_block (h : c.rest = '/' :: '*' :: cs)
    (hcomment : Text.comment? cs = some (body, rest)) :
    ∃ f, comment.at? c = some f ∧ f.stop.rest = rest := by
  have hend := at?_commentEnd ((c.past '/' ('*' :: cs)).past '*' cs)
  simp only [Cursor.past, hcomment] at hend
  obtain ⟨f, hf, hstop⟩ := hend
  refine ⟨f, ?_, hstop⟩
  rw [at?_comment, h]
  simp [Cursor.past, hf]

theorem at?_comment_eq_none (hline : ∀ cs, c.rest ≠ '/' :: '/' :: cs)
    (hblock : ∀ cs, c.rest = '/' :: '*' :: cs → Text.comment? cs = none) :
    comment.at? c = none := by
  rw [at?_comment]
  rcases hc : c.rest with _ | ⟨a, _ | ⟨b, cs⟩⟩
  · rfl
  · rfl
  · have hnotLine : ¬(a = '/' ∧ b = '/') := fun h => hline cs (by rw [hc, h.1, h.2])
    simp only [hnotLine, if_false, Option.none_or]
    split
    · next h =>
      have hend := at?_commentEnd ((c.past a (b :: cs)).past b cs)
      simp only [Cursor.past, hblock cs (by rw [hc, h.1, h.2])] at hend
      exact hend
    · rfl

/-! ## What is taken out -/

/-- The text from a point on, without comments. -/
def replaceFrom (c : Cursor) : List Char :=
  (comment.scan c).flatMap fun
    | .found _ => [' ']
    | .plain x => [x]

theorem replaceFrom_of_at? {f : Found} (h : comment.at? c = some f)
    (hlength : f.stop.rest.length < c.rest.length) :
    replaceFrom c = ' ' :: replaceFrom f.stop :=
  Pattern.replaceFrom_of_at? h (offset_lt_of_length_lt (stop_mem_points h) hlength)

theorem replaceFrom_of_none {x : Char} (h : comment.at? c = none) (hc : c.rest = x :: cs) :
    replaceFrom c = x :: replaceFrom (c.past x cs) :=
  Pattern.replaceFrom_of_none h hc

/-- Each comment is one match, and what is left depends on the text alone. -/
theorem replaceFrom_eq (c : Cursor) : replaceFrom c = withoutComments c.rest := by
  induction hc : c.rest using withoutComments.induct generalizing c with
  | case1 =>
    rw [replaceFrom, scan_of_nil hc, withoutComments]
    rfl
  | case2 cs ih =>
    obtain ⟨f, hf, hstop⟩ := exists_at?_line hc
    have hline := (List.dropWhile_sublist (l := cs) (· != '\n')).length_le
    rw [replaceFrom_of_at? hf (by rw [hstop, hc, List.length_cons, List.length_cons]; omega),
      ih f.stop hstop, withoutComments]
  | case3 cs body rest hcomment ih =>
    obtain ⟨f, hf, hstop⟩ := exists_at?_block hc hcomment
    have happend := congrArg List.length (Text.comment?_append hcomment)
    rw [List.length_append] at happend
    rw [replaceFrom_of_at? hf (by rw [hstop, hc, List.length_cons, List.length_cons]; omega),
      ih f.stop hstop, withoutComments_block hcomment]
  | case4 cs hcomment ih =>
    have hnone := at?_comment_eq_none (c := c) (by simp [hc]) (by simpa [hc] using hcomment)
    rw [replaceFrom_of_none hnone hc, ih _ rfl, withoutComments_open hcomment]
  | case5 x cs hline hblock ih =>
    have hnone := at?_comment_eq_none (c := c) (by simpa [hc] using hline)
      (by simpa [hc] using fun more hx hcs => (hblock more hx hcs).elim)
    rw [replaceFrom_of_none hnone hc, ih _ rfl, withoutComments] <;> assumption

theorem replace_comment (text : List Char) :
    comment.replace (fun _ => [' ']) text = withoutComments text :=
  replaceFrom_eq (.start text)

end Hlsl
end ShaderLang
