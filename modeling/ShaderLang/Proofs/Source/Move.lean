import ShaderLang.Proofs.Source.Directive
import ShaderLang.Proofs.Source.Locality
import ShaderLang.Source.Scan
/-!
# Moves and runs

What one move in a frame does, as rules on the text that it uses and on the text behind it, and
whole runs of a frame with all files included in it.

## Main definitions

* `Scan.Move`, `Scan.Move.apply` — what a move does to a scan
* `Scan.Occurs` — the move that a text gives rise to
* `Scan.Enters` — the directive with which a file is entered
* `Scan.Finishes` — a frame is read to its end

## Main results

* `Scan.step_eq_moved_iff`, `Scan.step_eq_entered_iff` — a step follows the rules
* `Scan.step_induction` — what is handed on by moves and files holds at every point
* `Scan.finish_eq_ok_iff`, `Scan.process_eq_ok_iff` — reading succeeds exactly on whole runs
-/

namespace ShaderLang
namespace Scan

/-- What a move does. -/
inductive Move
  | lineBreak
  | blank
  /-- A directive leaves defines and conditionals. -/
  | obeyed (defines : Defines) (conditionals : Conditionals)
  /-- A line is skipped. -/
  | skipped
  /-- A lexeme is a token or a comment. -/
  | lexeme (t? : Option Token)
  | block (kind : BlockKind) (body : List Char)

/-- The reading of a comment or a token. -/
def readingOf : Option Token → Reading
  | none => .gap
  | some t => .token t

/-- The scan after a move that starts at the place of a frame. -/
def Move.apply (f : Frame) (s : Scan) : Move → Scan
  | lineBreak => { s with atLineStart := true }
  | blank => s
  | obeyed defines conditionals =>
    { s with journal := { s.journal with defines, conditionals } }
  | skipped => { s with atLineStart := false }
  | lexeme none => { s with atLineStart := false }
  | lexeme (some t) => { s with atLineStart := false }.push f t
  | block kind body =>
    let journal := (s.journal.beginBlock kind).appendBlock kind (String.ofList body)
    { s with journal, atLineStart := false }.push f (.rawBlock (s.journal.nextIndex kind))

theorem pushes_apply (m : Move) (f : Frame) (s : Scan) :
    (m.apply f s).journal.pushes = s.journal.pushes := by
  cases m with
  | lexeme t? => cases t? <;> rfl
  | _ => rfl

theorem defines_apply (m : Move) {f F : Frame} {s S : Scan}
    (h : S.journal.defines = s.journal.defines) :
    (m.apply F S).journal.defines = (m.apply f s).journal.defines := by
  cases m with
  | obeyed => rfl
  | lexeme t? => cases t? <;> exact h
  | _ => exact h

theorem nextIndex_congr {s S : Scan} (h : S.journal.blocks = s.journal.blocks) (kind : BlockKind) :
    S.journal.nextIndex kind = s.journal.nextIndex kind := by
  unfold Journal.nextIndex
  rw [h]

theorem blocks_apply (m : Move) {f F : Frame} {s S : Scan}
    (hdefines : S.journal.defines = s.journal.defines)
    (hblocks : S.journal.blocks = s.journal.blocks) :
    (m.apply F S).journal.blocks = (m.apply f s).journal.blocks := by
  cases m with
  | lexeme t? => cases t? <;> exact hblocks
  | block kind body =>
    have hindex := nextIndex_congr hblocks kind
    simp only [Move.apply, push, Journal.beginBlock, Journal.appendBlock, hindex, hblocks, hdefines]
  | _ => exact hblocks

theorem atLineStart_apply (m : Move) {f F : Frame} {s S : Scan}
    (h : S.atLineStart = s.atLineStart) :
    (m.apply F S).atLineStart = (m.apply f s).atLineStart := by
  cases m with
  | blank | obeyed => exact h
  | lexeme t? => cases t? <;> rfl
  | _ => rfl

/-- A character starts neither a gap nor a directive. -/
structure StartsText (s : Scan) (c : Char) : Prop where
  ne_break : c ≠ '\n'
  not_gap : isGap c = false
  not_directive : ¬ (c = '#' ∧ s.atLineStart = true)

theorem ne_of_isGap {c d : Char} (h : isGap c = true) (hd : isGap d = false) : c ≠ d := by
  rintro rfl
  exact Bool.false_ne_true (hd.symm.trans h)

theorem startsText_brace (s : Scan) : StartsText s '\x7b' :=
  ⟨by decide, by decide, fun h => absurd h.1 (by decide)⟩

/-- The move that the text `used` gives rise to where `rest` stands behind it. -/
inductive Occurs (includes : Includes) (depth : Nat) (s : Scan) :
    List Char → List Char → Move → Prop
  | lineBreak {rest} : Occurs includes depth s ['\n'] rest .lineBreak
  | blank {c rest} (h : isGap c = true) : Occurs includes depth s [c] rest .blank
  | obeyed {line rest defines conditionals} (hstart : s.atLineStart = true) (hline : '\n' ∉ line)
      (hrest : AtLineEnd rest)
      (h : Directive.obey includes depth s.journal (Text.trim (Directive.uncommented line)) =
        .went { s.journal with defines, conditionals }) :
      Occurs includes depth s ('#' :: line) rest (.obeyed defines conditionals)
  | skipped {c line rest} (hc : StartsText s c) (henabled : s.journal.isEnabled = false)
      (hline : '\n' ∉ line) (hrest : AtLineEnd rest) :
      Occurs includes depth s (c :: line) rest .skipped
  | lexeme {c cs rest t?} (hc : StartsText s c) (henabled : s.journal.isEnabled = true)
      (hblock : c = '\x7b' → s.blockKind? = none)
      (h : Lexeme.read (c :: cs ++ rest) = ⟨readingOf t?, c :: cs, rest⟩) :
      Occurs includes depth s (c :: cs) rest (.lexeme t?)
  | block {kind body rest} (henabled : s.journal.isEnabled = true)
      (hblock : s.blockKind? = some kind)
      (h : Capture.read .plain 0 (body ++ '\x7d' :: rest) = some (body, rest)) :
      Occurs includes depth s ('\x7b' :: body ++ ['\x7d']) rest (.block kind body)

/-- The line `line` behind a number sign enters a file. -/
structure Enters (includes : Includes) (depth : Nat) (s : Scan) (line rest : List Char)
    (j : Journal) (child : Frame) : Prop where
  start : s.atLineStart = true
  not_mem : '\n' ∉ line
  atLineEnd : AtLineEnd rest
  obey : Directive.obey includes depth s.journal (Text.trim (Directive.uncommented line)) =
    .entered j child

variable {includes : Includes} {depth : Nat} {f f' child : Frame} {s s' : Scan}

/-- At the end of a line nothing but its break is left. -/
theorem Occurs.eq_lineBreak {used rest : List Char} {m : Move}
    (h : Occurs includes depth s used rest m) (hend : AtLineEnd (used ++ rest)) :
    m = .lineBreak := by
  cases h with
  | lineBreak => rfl
  | blank hgap => exact absurd (atLineEnd_cons_iff.1 hend) (ne_of_isGap hgap rfl)
  | obeyed => exact absurd (atLineEnd_cons_iff.1 hend) (by decide)
  | skipped hc => exact absurd (atLineEnd_cons_iff.1 hend) hc.ne_break
  | lexeme hc => exact absurd (atLineEnd_cons_iff.1 hend) hc.ne_break
  | block => exact absurd (atLineEnd_cons_iff.1 hend) (by decide)

theorem Occurs.used_ne_nil {used rest : List Char} {m : Move}
    (h : Occurs includes depth s used rest m) : used ≠ [] := by
  cases h <;> exact List.cons_ne_nil _ _

theorem Enters.pushes {line rest : List Char} {j : Journal}
    (h : Enters includes depth s line rest j child) : j.pushes = s.journal.pushes + 1 := by
  obtain ⟨-, name, -, henter⟩ := Directive.obey_eq_entered_iff.1 h.obey
  obtain ⟨-, text, -, rfl, -⟩ := Journal.enter_eq_ok.1 henter
  rfl

/-! ## Steps follow the rules -/

/-- The outcomes of a step. -/
inductive Steps (includes : Includes) (depth : Nat) (f : Frame) (s : Scan) : Step → Prop
  | finished (h : f.rest = []) : Steps includes depth f s .finished
  | moved {used rest m} (h : f.rest = used ++ rest) (ho : Occurs includes depth s used rest m) :
      Steps includes depth f s (.moved (f.past used rest) (m.apply f s))
  | entered {line rest j child} (h : f.rest = '#' :: line ++ rest)
      (he : Enters includes depth s line rest j child) :
      Steps includes depth f s
        (.entered child (f.past ('#' :: line) rest) { s with journal := j, atLineStart := true })
  | failed (cause : Cause) (place : Place) (f' : Frame) (s' : Scan) :
      Steps includes depth f s (.failed cause place f' s')

theorem steps_directive {cs : List Char} (hrest : f.rest = '#' :: cs)
    (hstart : s.atLineStart = true) :
    Steps includes depth f s (directive includes depth f s cs) := by
  have happend : f.rest = '#' :: (Text.line cs).1 ++ (Text.line cs).2 := by
    rw [List.cons_append, line_append, hrest]
  unfold directive
  simp only
  split
  · next j hobey =>
    have hj := Directive.eq_of_obey_eq_went hobey
    rw [hj] at hobey ⊢
    exact .moved (m := .obeyed _ _) happend
      (.obeyed hstart (not_mem_line cs) (atLineEnd_line cs) hobey)
  · next hobey => exact .entered happend ⟨hstart, not_mem_line cs, atLineEnd_line cs, hobey⟩
  · exact .failed ..

theorem steps_lexeme {c : Char} {cs : List Char} (hrest : f.rest = c :: cs) (hc : StartsText s c)
    (henabled : s.journal.isEnabled = true) (hblock : c = '\x7b' → s.blockKind? = none) :
    Steps includes depth f s (lexeme f { s with atLineStart := false }) := by
  have happend := Lexeme.used_append_rest f.rest
  -- The lexeme uses the first character, which is known to start text.
  have hread : ∀ t?, (Lexeme.read f.rest).reading = readingOf t? →
      Occurs includes depth s (Lexeme.read f.rest).used (Lexeme.read f.rest).rest (.lexeme t?) := by
    intro t? hreading
    have hne : (Lexeme.read f.rest).used ≠ [] := by
      refine Lexeme.used_ne_nil fun cause h => ?_
      rw [hreading] at h
      cases t? <;> cases h
    obtain ⟨d, ds, hused⟩ := List.exists_cons_of_ne_nil hne
    obtain rfl : d = c := by
      rw [hused, hrest] at happend
      exact (List.cons.inj happend).1
    rw [hused]
    refine .lexeme hc henabled hblock ?_
    rw [← hused, happend, ← hreading]
  unfold lexeme
  simp only
  split
  · next hgap => exact .moved happend.symm (hread none hgap)
  · next t htoken => exact .moved happend.symm (hread (some t) htoken)
  · exact .failed ..

theorem steps_capture {kind : BlockKind} {cs : List Char} (hrest : f.rest = '\x7b' :: cs)
    (henabled : s.journal.isEnabled = true) (hblock : s.blockKind? = some kind) :
    Steps includes depth f s (capture kind f { s with atLineStart := false } cs) := by
  unfold capture
  simp only
  split
  · next body rest hread =>
    have happend := Capture.read_append hread
    refine .moved (m := .block kind body) ?_ (.block henabled hblock ?_)
    · rw [hrest, ← happend]
      simp
    · rw [happend, hread]
  · exact .failed ..

theorem steps_step (includes : Includes) (depth : Nat) (f : Frame) (s : Scan) :
    Steps includes depth f s (step includes depth f s) := by
  -- The cases follow the tests of a step: line break, blank, directive, text that is read or not.
  unfold step
  split
  · next hrest => exact .finished hrest
  · next c cs hrest =>
    split
    · next hbreak =>
      subst hbreak
      exact .moved (m := .lineBreak) hrest .lineBreak
    · next hbreak =>
      split
      · next hgap => exact .moved (m := .blank) hrest (.blank hgap)
      · next hgap =>
        split
        · next hdirective =>
          obtain ⟨rfl, hstart⟩ := hdirective
          exact steps_directive hrest hstart
        · next hdirective =>
          have hc : StartsText s c := ⟨hbreak, by simpa using hgap, hdirective⟩
          split
          · next henabled =>
            unfold piece
            split
            · next hbrace =>
              subst hbrace
              split
              · next kind hblock => exact steps_capture hrest henabled hblock
              · next hblock => exact steps_lexeme hrest hc henabled fun _ => hblock
            · next hbrace => exact steps_lexeme hrest hc henabled fun h => absurd h hbrace
          · next henabled =>
            refine .moved (m := .skipped) ?_
              (.skipped hc (by simpa using henabled) (not_mem_line cs) (atLineEnd_line cs))
            rw [List.cons_append, line_append, hrest]

/-! ## Where the same move is made -/

theorem readingOf_ne_fault (t? : Option Token) (cause : Cause) : readingOf t? ≠ .fault cause := by
  cases t? <;> simp [readingOf]

/-- A text that is no directive gives rise to the same move in every scan that agrees on the start
of the line, on whether text is read, and on the block that a brace opens. -/
theorem Occurs.congr {includes' : Includes} {depth' : Nat} {S : Scan} {used rest tail : List Char}
    {m : Move} (h : Occurs includes depth s used rest m) (hm : ∀ ds cs, m ≠ .obeyed ds cs)
    (htail : Follows rest tail) (hstart : S.atLineStart = s.atLineStart)
    (henabled : S.journal.isEnabled = s.journal.isEnabled)
    (hblock : S.blockKind? = s.blockKind?) : Occurs includes' depth' S used tail m := by
  cases h with
  | lineBreak => exact .lineBreak
  | blank hgap => exact .blank hgap
  | obeyed => exact absurd rfl (hm _ _)
  | skipped hc hs hline hend =>
    refine .skipped ⟨hc.ne_break, hc.not_gap, ?_⟩ (henabled.trans hs) hline (htail.atLineEnd hend)
    -- A number sign is text here only if it does not start the line in this scan either.
    rw [hstart]
    exact hc.not_directive
  | lexeme hc hs hopen hread =>
    refine .lexeme ⟨hc.ne_break, hc.not_gap, ?_⟩ (henabled.trans hs)
      (fun hbrace => hblock.trans (hopen hbrace))
      (Lexeme.read_eq_of_follows hread (readingOf_ne_fault _) htail)
    rw [hstart]
    exact hc.not_directive
  | block hs hopen hread =>
    exact .block (henabled.trans hs) (hblock.trans hopen) (Capture.read_append_tail hread tail)

theorem step_eq_finished_iff : step includes depth f s = .finished ↔ f.rest = [] := by
  constructor
  · intro h
    have hsteps := steps_step includes depth f s
    rw [h] at hsteps
    cases hsteps with
    | finished hrest => exact hrest
  · intro h
    unfold step
    rw [h]

/-- A number sign at the start of a line is that of a directive, whether text is read there or
not. -/
theorem step_of_atLineStart {cs : List Char} (hrest : f.rest = '#' :: cs)
    (hstart : s.atLineStart = true) :
    step includes depth f s = directive includes depth f s cs := by
  unfold step
  rw [hrest]
  simp only
  rw [if_neg (by decide), if_neg (by decide), if_pos ⟨trivial, hstart⟩]

theorem step_of_enters {line rest : List Char} {j : Journal} (hrest : f.rest = '#' :: line ++ rest)
    (h : Enters includes depth s line rest j child) :
    step includes depth f s =
      .entered child (f.past ('#' :: line) rest) { s with journal := j, atLineStart := true } := by
  rw [List.cons_append] at hrest
  rw [step_of_atLineStart hrest h.start, directive,
    line_append_of_atLineEnd h.not_mem h.atLineEnd]
  simp only [h.obey]

theorem step_of_startsText {c : Char} {cs : List Char} (hrest : f.rest = c :: cs)
    (hc : StartsText s c) :
    step includes depth f s =
      if s.journal.isEnabled then piece f { s with atLineStart := false } c cs
      else .moved (f.past (c :: (Text.line cs).1) (Text.line cs).2)
        { s with atLineStart := false } := by
  unfold step
  rw [hrest]
  simp only
  rw [if_neg hc.ne_break, if_neg (by simp [hc.not_gap]), if_neg hc.not_directive]

theorem step_of_occurs {used rest : List Char} {m : Move} (hrest : f.rest = used ++ rest)
    (h : Occurs includes depth s used rest m) :
    step includes depth f s = .moved (f.past used rest) (m.apply f s) := by
  cases h with
  | lineBreak =>
    unfold step
    rw [hrest]
    rfl
  | @blank c rest hgap =>
    have hne : c ≠ '\n' := ne_of_isGap hgap rfl
    unfold step
    rw [hrest]
    simp only [List.singleton_append]
    rw [if_neg hne, if_pos hgap]
    rfl
  | obeyed hstart hline hend hobey =>
    rw [List.cons_append] at hrest
    rw [step_of_atLineStart hrest hstart, directive, line_append_of_atLineEnd hline hend]
    simp only [hobey]
    rfl
  | skipped hc henabled hline hend =>
    rw [List.cons_append] at hrest
    rw [step_of_startsText hrest hc, henabled, line_append_of_atLineEnd hline hend]
    rfl
  | @lexeme c cs _ t? hc henabled hblock hread =>
    -- A brace is a lexeme as well unless it opens a block.
    have hlexeme : Scan.lexeme f { s with atLineStart := false } =
        .moved (f.past (c :: cs) rest) (Move.apply f s (.lexeme t?)) := by
      unfold Scan.lexeme
      rw [hrest, hread]
      cases t? <;> rfl
    rw [step_of_startsText hrest hc, if_pos henabled, piece]
    split
    · next hbrace =>
      have hnone : blockKind? { s with atLineStart := false } = none := hblock hbrace
      rw [hnone]
      exact hlexeme
    · exact hlexeme
  | @block kind body _ henabled hblock hread =>
    have hc := startsText_brace s
    have hkind : blockKind? { s with atLineStart := false } = some kind := hblock
    have hbody : f.rest = '\x7b' :: (body ++ '\x7d' :: rest) := by simpa using hrest
    rw [step_of_startsText hbody hc, if_pos henabled, piece, if_pos rfl, hkind]
    simp only [capture, hread]
    rfl

theorem step_eq_moved_iff :
    step includes depth f s = .moved f' s' ↔
      ∃ used rest m, f.rest = used ++ rest ∧ Occurs includes depth s used rest m ∧
        f' = f.past used rest ∧ s' = m.apply f s := by
  constructor
  · intro h
    have hsteps := steps_step includes depth f s
    rw [h] at hsteps
    cases hsteps with
    | moved hrest hoccurs => exact ⟨_, _, _, hrest, hoccurs, rfl, rfl⟩
  · rintro ⟨used, rest, m, hrest, hoccurs, rfl, rfl⟩
    exact step_of_occurs hrest hoccurs

theorem step_eq_entered_iff :
    step includes depth f s = .entered child f' s' ↔
      ∃ line rest j, f.rest = '#' :: line ++ rest ∧ Enters includes depth s line rest j child ∧
        f' = f.past ('#' :: line) rest ∧ s' = { s with journal := j, atLineStart := true } := by
  constructor
  · intro h
    have hsteps := steps_step includes depth f s
    rw [h] at hsteps
    cases hsteps with
    | entered hrest henters => exact ⟨_, _, _, hrest, henters, rfl, rfl⟩
  · rintro ⟨line, rest, j, hrest, henters, rfl, rfl⟩
    exact step_of_enters hrest henters

/-! ## Whole runs -/

/-- The scan behind a file that has been read to its end. -/
def resumed (s : Scan) : Scan := { s with journal := s.journal.leave, atLineStart := true }

/-- A frame that lies `depth` deep is read to its end, with all files included in it. -/
inductive Finishes (includes : Includes) : Nat → Frame → Scan → Frame → Scan → Prop
  | done {depth : Nat} {f : Frame} {s : Scan} (h : f.rest = []) : Finishes includes depth f s f s
  | moved {depth : Nat} {f f' g : Frame} {s s' t : Scan}
      (h : step includes depth f s = .moved f' s') (hs : Finishes includes depth f' s' g t) :
      Finishes includes depth f s g t
  | entered {depth : Nat} {f child f' c g : Frame} {s s' t u : Scan}
      (h : step includes depth f s = .entered child f' s')
      (hc : Finishes includes (depth + 1) child s' c t)
      (hs : Finishes includes depth f' t.resumed g u) : Finishes includes depth f s g u

/-- What holds where a frame ends or a fault stands, and holds at a point if it holds behind its
move, within the file that it enters and behind that file, holds at every point. -/
theorem step_induction (includes : Includes) {motive : List Frame → Frame → Scan → Prop}
    (finished : ∀ below f s, step includes below.length f s = .finished → motive below f s)
    (moved : ∀ below f s f' s', step includes below.length f s = .moved f' s' →
      motive below f' s' → motive below f s)
    (entered : ∀ below f s child f' s', step includes below.length f s = .entered child f' s' →
      motive (f' :: below) child s' → (∀ t, motive below f' t) → motive below f s)
    (failed : ∀ below f s cause place f' s',
      step includes below.length f s = .failed cause place f' s' → motive below f s)
    (below : List Frame) (f : Frame) (s : Scan) : motive below f s := by
  cases hstep : step includes below.length f s with
  | finished => exact finished _ _ _ hstep
  | moved f' s' =>
    have hrest := rest_lt_of_moved hstep
    exact moved _ _ _ _ _ hstep (step_induction includes finished moved entered failed ..)
  | entered child f' s' =>
    obtain ⟨hrest, hdepth⟩ := lt_of_entered hstep
    exact entered _ _ _ _ _ _ hstep (step_induction includes finished moved entered failed ..)
      fun t => step_induction includes finished moved entered failed ..
  | failed cause place f' s' => exact failed _ _ _ _ _ _ _ hstep
termination_by (includeLimit - below.length, f.rest.length)
decreasing_by
  · exact Prod.Lex.right _ hrest
  · exact Prod.Lex.left _ _ (by rw [List.length_cons]; omega)
  · exact Prod.Lex.right _ hrest

theorem finish_eq_ok_iff {below : List Frame} {g : Frame} {t : Scan} :
    finish includes below f s = .ok (g, t) ↔ Finishes includes below.length f s g t := by
  constructor
  · intro h
    -- The frames below matter only by their number, which is the depth.
    induction below, f, s using step_induction includes generalizing g t with
    | finished below f s hstep =>
      rw [finish_eq, hstep] at h
      cases h
      exact .done (step_eq_finished_iff.1 hstep)
    | moved below f s f' s' hstep ih =>
      rw [finish_eq, hstep] at h
      exact .moved hstep (ih h)
    | entered below f s child f' s' hstep ihchild ih =>
      simp only [finish_eq includes below f s, hstep] at h
      cases hchild : finish includes (f' :: below) child s' with
      | error failure =>
        rw [hchild] at h
        cases h
      | ok r =>
        rw [hchild] at h
        exact .entered hstep (ihchild hchild) (ih _ h)
    | failed below f s cause place f' s' hstep =>
      rw [finish_eq, hstep] at h
      cases h
  · intro h
    generalize hdepth : below.length = depth at h
    induction h generalizing below with
    | done hrest =>
      subst hdepth
      rw [finish_eq, step_eq_finished_iff.2 hrest]
    | moved hstep _ ih =>
      subst hdepth
      rw [finish_eq, hstep]
      exact ih rfl
    | @entered depth f child f' c g s s' t u hstep _ _ ihc ihs =>
      subst hdepth
      have hchild := @ihc (f' :: below) rfl
      simp only [finish_eq includes below f s, hstep, hchild]
      exact ihs rfl

/-- Files are entered and never forgotten. -/
theorem Finishes.pushes_le {g : Frame} {t : Scan} (h : Finishes includes depth f s g t) :
    s.journal.pushes ≤ t.journal.pushes := by
  induction h with
  | done => exact Nat.le_refl _
  | moved hstep _ ih =>
    obtain ⟨used, rest, m, -, -, rfl, rfl⟩ := step_eq_moved_iff.1 hstep
    rwa [pushes_apply] at ih
  | entered hstep _ _ ihc ihs =>
    obtain ⟨line, rest, j, -, henters, rfl, rfl⟩ := step_eq_entered_iff.1 hstep
    have hpushes := henters.pushes
    have hchild := ihc.trans ihs
    simp only [hpushes] at hchild
    exact (Nat.le_succ _).trans hchild

/-- A further source above nothing is read exactly if it is read to its end with all conditionals
closed. -/
theorem process_eq_ok_iff {source : String} {frames : List Frame} {t : Scan} :
    s.process includes source [] = .ok (frames, t) ↔
      ∃ g, Finishes includes 0 (Frame.ofText none source) { s with atLineStart := true } g t ∧
        t.journal.conditionals = [] ∧ frames = [g] := by
  rw [process, finishAll]
  cases hfinish : finish includes [] (Frame.ofText none source) { s with atLineStart := true } with
  | error failure =>
    constructor
    · rintro ⟨⟩
    · rintro ⟨g, hg, -⟩
      rw [finish_eq_ok_iff.2 hg] at hfinish
      cases hfinish
  | ok r =>
    obtain ⟨g, t'⟩ := r
    have hruns := finish_eq_ok_iff.1 hfinish
    -- A run has one end, so that the conditionals that are open there are decided.
    have hunique : ∀ {g' u}, Finishes includes 0 (Frame.ofText none source)
        { s with atLineStart := true } g' u → g' = g ∧ u = t' := by
      intro g' u h
      have hok : finish includes [] _ _ = .ok (g', u) := finish_eq_ok_iff.2 h
      rw [hfinish] at hok
      cases hok
      exact ⟨rfl, rfl⟩
    by_cases hopen : t'.journal.conditionals = []
    · have hclosed : t'.journal.hasConditional = false := by simp [Journal.hasConditional, hopen]
      simp only [hclosed, Bool.false_eq_true, if_false]
      constructor
      · rintro ⟨⟩
        exact ⟨g, hruns, hopen, rfl⟩
      · rintro ⟨g', hg', -, rfl⟩
        obtain ⟨rfl, rfl⟩ := hunique hg'
        rfl
    · have hclosed : t'.journal.hasConditional = true := by simp [Journal.hasConditional, hopen]
      simp only [hclosed, if_true]
      constructor
      · rintro ⟨⟩
      · rintro ⟨g', hg', hempty, -⟩
        obtain ⟨rfl, rfl⟩ := hunique hg'
        exact absurd hempty hopen

end Scan
end ShaderLang
