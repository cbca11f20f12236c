import ShaderLang.Conversion
import ShaderLang.Proofs.Hlsl.Comment
import ShaderLang.Proofs.Outcome
import ShaderLang.Proofs.Text.Shift
/-!
# Lines in front of a program

A converter gets a program behind a line that defines its target. The line is a directive, so that
the reflection does not read it; all that is left of it is a line break, behind which the program is
read as if it were all there is.

## Main definitions

* `Hlsl.Declared.SameIn` — a declaration in a text and further on

## Main results

* `Hlsl.uncommented_line` — a directive line in front of a program leaves a line break
* `Hlsl.reflect?_line` — a directive line in front of a program makes no difference
* `Hlsl.reflect?_defineLine` — the line of a target makes no difference
-/

namespace ShaderLang.Hlsl

open Pattern

variable {line code : List Char}

/-! ## Directive lines -/

theorem withoutComments_append (hline : '/' ∉ line) (text : List Char) :
    withoutComments (line ++ text) = line ++ withoutComments text := by
  induction line with
  | nil => rfl
  | cons x line ih =>
    have hx : x ≠ '/' := fun h => hline (h ▸ List.mem_cons_self)
    rw [List.cons_append, withoutComments_cons (fun _ h => absurd h hx) fun _ h => absurd h hx,
      ih fun h => hline (List.mem_cons_of_mem x h), List.cons_append]

theorem steady_directiveLine : directiveLine.Steady := by
  refine steady_seqs ?_
  simp [inLine, steady_lineStart, steady_lineEnd, (untested_lit _).steady, (untested_run _).steady]

/-- A directive goes to the end of its line. -/
theorem spans_of_way_directiveLine {c d : Cursor} {ms : List Mark} (hline : '\n' ∉ line)
    (hc : c.rest = '#' :: (line ++ '\n' :: text)) (hway : directiveLine.Way c ms d) :
    c.Spans ('#' :: line) d := by
  obtain ⟨_, c₁, _, hstart, h, -⟩ := way_seqs_cons hway
  obtain ⟨_, c₂, _, hblanks, h, -⟩ := way_seqs_cons h
  obtain ⟨_, c₃, _, hsign, h, -⟩ := way_seqs_cons h
  obtain ⟨_, c₄, _, hbehind, h, -⟩ := way_seqs_cons h
  obtain ⟨_, c₅, _, hend, h, -⟩ := way_seqs_cons h
  obtain ⟨rfl, -⟩ := way_point hstart
  obtain rfl := way_seqs_nil h
  obtain ⟨rfl, hend⟩ := way_point hend
  obtain ⟨b, hb, hspan⟩ := spans_of_way_run hblanks
  obtain ⟨s, hs, hsign⟩ := hsign.exists_mem_language
  obtain ⟨u, hu, hbehind⟩ := spans_of_way_run hbehind
  obtain rfl := (mem_language_lit _).1 hs
  have htext := (hspan.append (hsign.append hbehind)).rest
  rw [hc] at htext
  -- The sign is the first character, so no blanks are in front of it.
  cases b with
  | cons x b =>
    obtain ⟨rfl, -⟩ := List.cons.inj htext
    exact absurd (hb _ List.mem_cons_self) (by decide)
  | nil =>
    cases hspan
    have hlines : line ++ '\n' :: text = u ++ d.rest := by simpa using htext
    have hbreak : ∀ x ∈ d.rest.head?, (x != '\n') = false := by
      rw [Cursor.isLineEnd] at hend
      cases hd : d.rest <;> simp_all
    obtain ⟨rfl, -⟩ := append_inj_of_head hlines (p := (· != '\n'))
      (fun x hx => by simpa using fun h : x = '\n' => hline (h ▸ hx)) hu (by simp) hbreak
    exact hsign.append hbehind

theorem exists_way_directiveLine {c d : Cursor} (hstart : c.isLineStart = true)
    (hline : '\n' ∉ line) (hspan : c.Spans ('#' :: line) d) (hd : d.rest = '\n' :: text) :
    ∃ ms, directiveLine.Way c ms d := by
  rw [← List.singleton_append] at hspan
  obtain ⟨e, hsign, hbehind⟩ := Cursor.spans_append_iff.1 hspan
  obtain ⟨ms, hsign⟩ := exists_way_of_mem_language (untested_lit "#")
    ((mem_language_lit _).2 rfl) hsign
  obtain ⟨ns, hbehind⟩ := exists_way_of_mem_language (untested_run (· != '\n'))
    ((mem_language_run _).2 fun x hx => by simpa using fun h : x = '\n' => hline (h ▸ hx)) hbehind
  have hend : d.isLineEnd = true := by simp [Cursor.isLineEnd, hd]
  exact ⟨_, .seq (.point hstart) (.seq .done (.seq hsign (.seq hbehind (.seq (.point hend)
    (.point rfl)))))⟩

/-- A directive line leaves its line break. -/
theorem replace_directiveLine (hline : '\n' ∉ line) :
    directiveLine.replace (fun _ => []) ('#' :: (line ++ '\n' :: text)) =
      '\n' :: directiveLine.replace (fun _ => []) text := by
  generalize hc : Cursor.start ('#' :: (line ++ '\n' :: text)) = c
  have htext : c.rest = '#' :: line ++ '\n' :: text := hc ▸ rfl
  obtain ⟨d, hspan, hd⟩ := Cursor.exists_spans htext
  obtain ⟨ms, hway⟩ := exists_way_directiveLine (hc ▸ rfl) hline hspan hd
  obtain ⟨f, hf⟩ := Option.isSome_iff_exists.1 <|
    @isSome_first?_of_way _ _ _ _ (fun d => some ⟨[], d⟩) hway rfl
  -- There may be several ways through the pattern, but all of them end where the line does.
  have hstop := spans_of_way_directiveLine hline htext (way_of_at? hf)
  have hrest : f.stop.rest = '\n' :: text :=
    List.append_cancel_left (hstop.rest.symm.trans htext)
  have hbreak := scan_of_not_startsBy (p := directiveLine) (by decide +kernel) hrest
  calc directiveLine.replace (fun _ => []) ('#' :: (line ++ '\n' :: text))
      = directiveLine.replaceFrom (fun _ => []) c := by rw [← hc]; rfl
    _ = directiveLine.replaceFrom (fun _ => []) f.stop :=
      Pattern.replaceFrom_of_at? hf (hstop.offset_lt (List.cons_ne_nil _ _))
    _ = '\n' :: directiveLine.replaceFrom (fun _ => []) (f.stop.past '\n' text) := by
      rw [Pattern.replaceFrom, hbreak]
      rfl
    _ = '\n' :: directiveLine.replace (fun _ => []) text :=
      congrArg _ (replaceFrom_alike steady_directiveLine (Cursor.alike_start _ text) [])

/-- A directive line in front of a program leaves a line break. -/
theorem uncommented_line (hline : '\n' ∉ line) (hslash : '/' ∉ line) :
    uncommented ('#' :: (line ++ '\n' :: code)) = '\n' :: uncommented code := by
  have hcomments : withoutComments ('#' :: (line ++ '\n' :: code)) =
      '#' :: (line ++ '\n' :: withoutComments code) := by
    have hfree : '/' ∉ '#' :: (line ++ ['\n']) := by simp [hslash]
    simpa using withoutComments_append hfree code
  rw [uncommented, uncommented, replace_comment, replace_comment, hcomments,
    replace_directiveLine hline]

/-! ## Texts behind a line break -/

theorem blankScopes?_newline (text : List Char) :
    blankScopes? ('\n' :: text) = (blankScopes? text).map ('\n' :: ·) := by
  rw [blankScopes?, blankFrom?, if_neg (by decide), if_neg (by decide), if_pos (.inl rfl)]
  rfl

theorem steady_functionHead : functionHead.Steady := by
  simp [functionHead, typeArguments, opt, ident, blanks, blanks1, run1, run, seqs, Steady,
    steady_wordBoundary, (untested_lit _).steady, Pattern.empty]

theorem steady_declaration : declaration.Steady := by
  simp [declaration, typeArguments, opt, ident, blanks, blanks1, run1, lazyRun1, lazyRun, run, seqs,
    alts, Steady, (untested_lit _).steady, Pattern.empty, qualifiers]

theorem functions_newline (text : List Char) : functions ('\n' :: text) = functions text :=
  map_eq_map_of_forall₂ (findAll_newline steady_functionHead (by decide +kernel) text)
    fun m n hm => by rw [hm.get]

/-- What is cut out of a text is the same behind a line break. -/
theorem slice_newline (text : List Char) (start stop : Nat) :
    slice ('\n' :: text) (start + 1) stop = slice text start (stop - 1) := by
  have hdrop : Text.dropBytes (start + 1) ('\n' :: text) = Text.dropBytes start text := by
    rw [Text.dropBytes]
    · rfl
    · exact Nat.succ_ne_zero start
  rw [slice, slice, hdrop, Nat.sub_sub, Nat.add_comm 1]

/-- A declaration that is read off a text, and again further on. It says the same, and its block has
the same text. -/
structure Declared.SameIn (text text' : List Char) (d d' : Declared) : Prop where
  parts : d' = { d with block? := d'.block? }
  block : (d'.block?.map fun b => slice text' b.1 b.2) = d.block?.map fun b => slice text b.1 b.2

theorem sameIn_of_alike {m n : Match} (h : Match.Alike 1 m n) (text : List Char) :
    (Declared.ofMatch m).SameIn text ('\n' :: text) (Declared.ofMatch n) where
  parts := by simp only [Declared.ofMatch, h.get, h.get?]
  block := by
    simp only [Declared.ofMatch, h.span?, Option.map_map]
    exact congrArg (Option.map · _) (funext fun s => slice_newline text (s.start + 1) s.stop)

theorem declarations_newline (text top : List Char) :
    (declarations top).Forall₂ (Declared.SameIn text ('\n' :: text))
      (declarations ('\n' :: top)) := by
  rw [declarations, declarations, List.forall₂_map_left_iff, List.forall₂_map_right_iff]
  exact (findAll_newline steady_declaration (by decide +kernel) top).imp fun m n h =>
    sameIn_of_alike h text

theorem Reader.declare_sameIn {text text' : List Char} {d d' : Declared}
    (h : d.SameIn text text' d') (r : Reader) : declare text' r d' = declare text r d := by
  obtain ⟨attributes, qualifiers, type, name, arraySize, slot?, initializer?, block?⟩ := d
  obtain ⟨attributes', qualifiers', type', name', arraySize', slot?', initializer?', block?'⟩ := d'
  obtain ⟨hparts, hblock⟩ := h
  cases hparts
  dsimp only at hblock
  unfold declare
  dsimp only
  rw [hblock]
  rfl

theorem Reader.foldl_declare_sameIn {text text' : List Char} {ds ds' : List Declared}
    (h : ds.Forall₂ (Declared.SameIn text text') ds') (r : Reader) :
    ds'.foldl (declare text') r = ds.foldl (declare text) r := by
  induction h generalizing r with
  | nil => rfl
  | cons hd _ ih => rw [List.foldl_cons, List.foldl_cons, declare_sameIn hd, ih]

/-! ## Programs behind a line -/

/-- A directive line in front of a program makes no difference. -/
theorem reflect?_line (hline : '\n' ∉ line) (hslash : '/' ∉ line) {code code' : String}
    (hcode : code'.toList = '#' :: (line ++ '\n' :: code.toList)) (start : Nat) :
    reflect? code' start = reflect? code start := by
  simp only [reflect?, hcode, uncommented_line hline hslash]
  generalize uncommented code.toList = text
  rw [blankScopes?_newline]
  cases blankScopes? text with
  | none => rfl
  | some top =>
    simp only [Option.map_some, functions_newline,
      Reader.foldl_declare_sameIn (declarations_newline text top)]

theorem exists_defineLine (target : Target) :
    ∃ line, target.defineLine.toList = '#' :: (line ++ ['\n']) ∧ '\n' ∉ line ∧ '/' ∉ line := by
  cases target with
  | glsl41 | glsl45 => exact ⟨"define OPENGL 1".toList, by decide⟩
  | vksl45 => exact ⟨"define VULKAN 1".toList, by decide⟩
  | mvksl => exact ⟨"define METAL 1".toList, by decide⟩

/-- A program is reflected behind the line that defines a target as if it were all there is. -/
theorem reflect?_defineLine (target : Target) (code : String) (start : Nat) :
    reflect? (target.defineLine ++ code) start = reflect? code start := by
  obtain ⟨line, htarget, hline, hslash⟩ := exists_defineLine target
  exact reflect?_line hline hslash (by simp [htarget]) start

end ShaderLang.Hlsl
