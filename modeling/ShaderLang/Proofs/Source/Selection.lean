import ShaderLang.Proofs.Outcome
import ShaderLang.Proofs.Source.Directive
import ShaderLang.Proofs.Source.Move
import ShaderLang.Proofs.Source.Place
/-!
# Conditionals select lines

A run without inclusions drops lines: those where no text is read, and those of the directives on
conditionals. The same source with these lines emptied has no conditionals at all, and it is read
alike.

The two runs are compared move by move. On a dropped line the second run waits at the line break. On
every other line both runs make the same moves, since no move that reads text touches a dropped
line.

## Main definitions

* `Scan.drops` — the line that is reached is dropped
* `Scan.moments`, `Scan.droppedLines` — the states of a run, and the lines dropped in it
* `Scan.emptied`, `Scan.selected` — a text with given lines emptied, and with those dropped
* `Scan.Alongside` — the states of the two runs

## Main results

* `Scan.lt_of_mem_droppedLines_of_quiet` — behind text that was read, no drop is left on the line
* `Scan.finishes_alongside` — the second run follows the first one
* `Scan.selected_reads_alike` — a source with its dropped lines emptied is read alike
-/

namespace ShaderLang
namespace Scan

/-- The line that is reached is dropped: no text is read here, or a directive on conditionals is
obeyed. -/
def drops (f : Frame) (s : Scan) : Bool :=
  match f.rest with
  | [] => false
  | c :: cs =>
    c != '\n' && (!s.journal.isEnabled || (c == '#' && s.atLineStart &&
      Directive.isConditional (Text.trim (Directive.uncommented (Text.line cs).1))))

/-- The states that are passed before a frame ends, enters a file or fails. -/
def moments (includes : Includes) (f : Frame) (s : Scan) : List (Frame × Scan) :=
  match _h : step includes 0 f s with
  | .moved f' s' => (f, s) :: moments includes f' s'
  | _ => [(f, s)]
termination_by f.rest.length
decreasing_by exact rest_lt_of_moved _h

/-- The lines that are dropped while a frame is read. -/
def droppedLines (includes : Includes) (f : Frame) (s : Scan) : List Nat :=
  ((moments includes f s).filter fun m => drops m.1 m.2).map fun m => m.1.place.line

/-- A text that starts in line `n`, with given lines emptied. -/
def emptied (lines : List Nat) : Nat → List Char → List Char
  | _, [] => []
  | n, c :: cs =>
    if c = '\n' then '\n' :: emptied lines (n + 1) cs
    else if n ∈ lines then emptied lines n cs
    else c :: emptied lines n cs

/-- A source with the lines emptied that are dropped when it is read. -/
def selected (includes : Includes) (source : String) (s : Scan) : String :=
  String.ofList
    (emptied (droppedLines includes (Frame.ofText none source) s) 1 source.toList)

variable {includes : Includes} {depth : Nat} {f f' g : Frame} {s s' t : Scan} {m : Move}
  {used rest : List Char} {lines : List Nat}

/-! ## Lines -/

theorem line_past (f : Frame) (used rest : List Char) :
    (f.past used rest).place.line = f.place.line + used.count '\n' :=
  Place.line_pastAll _ _

theorem count_break_of_not_mem {cs : List Char} (h : '\n' ∉ cs) : cs.count '\n' = 0 :=
  List.count_eq_zero.2 h

/-- Lines and columns behind a text depend on those in front of it alone. -/
theorem pastAll_congr {p q : Place} (hline : p.line = q.line) (hcol : p.col = q.col)
    (cs : List Char) :
    (p.pastAll cs).line = (q.pastAll cs).line ∧ (p.pastAll cs).col = (q.pastAll cs).col := by
  induction cs generalizing p q with
  | nil => exact ⟨hline, hcol⟩
  | cons c cs ih =>
    refine ih ?_ ?_ <;> unfold Place.past <;> split <;> simp [hline, hcol]

/-! ## Emptied texts -/

theorem emptied_append (lines : List Nat) (n : Nat) (cs ds : List Char) :
    emptied lines n (cs ++ ds) = emptied lines n cs ++ emptied lines (n + cs.count '\n') ds := by
  induction cs generalizing n with
  | nil => rfl
  | cons c cs ih =>
    by_cases hc : c = '\n'
    · subst hc
      have hcount : n + ('\n' :: cs).count '\n' = n + 1 + cs.count '\n' := by
        rw [List.count_cons_self]
        omega
      rw [List.cons_append, emptied, emptied, if_pos rfl, if_pos rfl, ih, hcount, List.cons_append]
    · rw [List.cons_append, emptied, emptied, if_neg hc, if_neg hc, ih, List.count_cons_of_ne hc]
      split <;> simp

/-- A text that touches none of the lines stays as it is. -/
theorem emptied_eq_self {n : Nat} {cs : List Char}
    (h : ∀ k, n ≤ k → k ≤ n + cs.count '\n' → k ∉ lines) : emptied lines n cs = cs := by
  induction cs generalizing n with
  | nil => rfl
  | cons c cs ih =>
    by_cases hc : c = '\n'
    · subst hc
      -- The text goes on in the next line, and that is still one of those it touches.
      rw [emptied, if_pos rfl, ih]
      intro k hle hge
      refine h k (by omega) ?_
      rw [List.count_cons_self]
      omega
    · rw [List.count_cons_of_ne hc] at h
      rw [emptied, if_neg hc, if_neg (h n (Nat.le_refl n) (Nat.le_add_right _ _)), ih h]

/-- A piece of an emptied line vanishes. -/
theorem emptied_eq_nil {n : Nat} {cs : List Char} (hcs : '\n' ∉ cs) (hn : n ∈ lines) :
    emptied lines n cs = [] := by
  induction cs with
  | nil => rfl
  | cons c cs ih =>
    rw [List.mem_cons, not_or] at hcs
    rw [emptied, if_neg (Ne.symm hcs.1), if_pos hn, ih hcs.2]

theorem head?_emptied {n : Nat} (hn : n ∉ lines) (cs : List Char) :
    (emptied lines n cs).head? = cs.head? := by
  cases cs with
  | nil => rfl
  | cons c cs =>
    rw [emptied]
    split
    · next hc => rw [hc]; rfl
    · rfl

/-! ## Where lines are dropped -/

theorem moments_of_moved (h : step includes 0 f s = .moved f' s') :
    moments includes f s = (f, s) :: moments includes f' s' := by
  rw [moments]
  split
  · next g t hstep =>
    rw [h] at hstep
    cases hstep
    rfl
  · next hnot => exact absurd h (hnot f' s')

theorem moments_of_not_moved (h : ∀ f' s', step includes 0 f s ≠ .moved f' s') :
    moments includes f s = [(f, s)] := by
  rw [moments]
  split
  · next g t hstep => exact absurd hstep (h g t)
  · rfl

theorem droppedLines_of_moved (h : step includes 0 f s = .moved f' s') :
    droppedLines includes f s =
      (if drops f s then [f.place.line] else []) ++ droppedLines includes f' s' := by
  rw [droppedLines, moments_of_moved h, List.filter_cons, droppedLines]
  split <;> rfl

/-- Text was read up to here on this line, or nothing of the line is left. -/
def Quiet (f : Frame) (s : Scan) : Prop :=
  s.journal.isEnabled = true ∧ (s.atLineStart = false ∨ AtLineEnd f.rest)

/-- No text is read any more on this line. -/
def Dead (f : Frame) (s : Scan) : Prop := s.journal.isEnabled = false ∨ AtLineEnd f.rest

theorem not_drops_of_atLineEnd (h : AtLineEnd f.rest) : drops f s = false := by
  unfold drops
  cases hrest : f.rest with
  | nil => rfl
  | cons c cs =>
    rw [hrest] at h
    simp [atLineEnd_cons_iff.1 h]

/-- A blank is dropped where no text is read. -/
theorem drops_of_isGap {c : Char} {cs : List Char} (hrest : f.rest = c :: cs)
    (hgap : isGap c = true) : drops f s = !s.journal.isEnabled := by
  have hbreak : (c != '\n') = true := bne_iff_ne.2 (ne_of_isGap hgap rfl)
  have hsign : (c == '#') = false := beq_eq_false_iff_ne.2 (ne_of_isGap hgap rfl)
  unfold drops
  rw [hrest]
  simp [hbreak, hsign]

/-- So is all other text, but for directives. -/
theorem drops_of_startsText {c : Char} {cs : List Char} (hrest : f.rest = c :: cs)
    (hc : StartsText s c) : drops f s = !s.journal.isEnabled := by
  have hbreak := hc.ne_break
  have hdirective : (c == '#' && s.atLineStart) = false := by simpa using hc.not_directive
  unfold drops
  rw [hrest]
  simp [hbreak, hdirective]

/-- A directive is dropped where no text is read, and one on conditionals everywhere. -/
theorem drops_of_directive {line : List Char} (hrest : f.rest = '#' :: line ++ rest)
    (hstart : s.atLineStart = true) (hline : '\n' ∉ line) (hend : AtLineEnd rest) :
    drops f s = (!s.journal.isEnabled ||
      Directive.isConditional (Text.trim (Directive.uncommented line))) := by
  rw [List.cons_append] at hrest
  unfold drops
  simp [hrest, hstart, line_append_of_atLineEnd hline hend]

theorem not_drops_of_quiet (h : Quiet f s) : drops f s = false := by
  obtain ⟨henabled, hstart | hend⟩ := h
  · unfold drops
    cases f.rest <;> simp [henabled, hstart]
  · exact not_drops_of_atLineEnd hend

/-- Moves go on along the lines. -/
theorem le_of_mem_droppedLines {n : Nat} (h : n ∈ droppedLines includes f s) :
    f.place.line ≤ n := by
  fun_induction moments includes f s with
  | case1 f s f' s' hstep ih =>
    rw [droppedLines_of_moved hstep, List.mem_append] at h
    obtain ⟨used, rest, m, -, -, rfl, -⟩ := step_eq_moved_iff.1 hstep
    have hline := line_past f used rest
    -- A line is dropped where the run is, or further on.
    rcases h with h | h
    · split at h
      · exact (List.mem_singleton.1 h).ge
      · cases h
    · have hle := ih h
      omega
  | case2 f s hnot =>
    rw [droppedLines, moments_of_not_moved hnot] at h
    obtain ⟨p, hp, rfl⟩ := List.mem_map.1 h
    rw [List.mem_singleton.1 (List.mem_filter.1 hp).1]

theorem line_le_past (f : Frame) (used rest : List Char) :
    f.place.line ≤ (f.past used rest).place.line := by
  rw [line_past]
  exact Nat.le_add_right _ _

/-- A move that drops nothing passes a line break or a blank, or it reads text. -/
theorem quiet_of_not_drops (hrest : f.rest = used ++ rest) (h : Occurs includes depth s used rest m)
    (hdrops : drops f s = false) :
    m = .lineBreak ∨ s.journal.isEnabled = true ∧
      (m = .blank ∨ Quiet (f.past used rest) (m.apply f s)) := by
  cases h with
  | lineBreak => exact .inl rfl
  | blank hgap =>
    rw [drops_of_isGap hrest hgap, Bool.not_eq_false'] at hdrops
    exact .inr ⟨hdrops, .inl rfl⟩
  | @obeyed line rest ds cs hstart hline hend hobey =>
    rw [drops_of_directive hrest hstart hline hend] at hdrops
    have hboth : s.journal.isEnabled = true ∧
        Directive.isConditional (Text.trim (Directive.uncommented line)) = false := by
      simpa using hdrops
    -- A directive that is not on conditionals leaves them open as they were.
    obtain ⟨hj, -⟩ := Directive.obey_of_enabled hboth.2 hboth.1 hobey
    have hcs : cs = s.journal.conditionals := congrArg Journal.conditionals hj
    have henabled : Conditionals.isEnabled cs = true := by
      rw [hcs]
      exact hboth.1
    exact .inr ⟨hboth.1, .inr ⟨henabled, .inr hend⟩⟩
  | skipped hc hdisabled =>
    rw [drops_of_startsText hrest hc, hdisabled] at hdrops
    cases hdrops
  | @lexeme c cs rest t? hc henabled =>
    refine .inr ⟨henabled, .inr ?_⟩
    cases t? <;> exact ⟨henabled, .inl rfl⟩
  | block henabled => exact .inr ⟨henabled, .inr ⟨henabled, .inl rfl⟩⟩

/-- Behind text that was read, no drop is left on the line. -/
theorem lt_of_mem_droppedLines_of_quiet {n : Nat} (hq : Quiet f s)
    (h : n ∈ droppedLines includes f s) : f.place.line < n := by
  fun_induction moments includes f s with
  | case1 f s f' s' hstep ih =>
    rw [droppedLines_of_moved hstep, not_drops_of_quiet hq] at h
    obtain ⟨used, rest, m, hrest, hoccurs, rfl, rfl⟩ := step_eq_moved_iff.1 hstep
    have hle := line_le_past f used rest
    rw [if_neg (by simp), List.nil_append] at h
    -- The line is left at its break; blanks and text keep it quiet.
    rcases quiet_of_not_drops hrest hoccurs (not_drops_of_quiet hq) with rfl | ⟨-, rfl | hquiet⟩
    · cases hoccurs
      have hline := line_past f ['\n'] rest
      have hmem := le_of_mem_droppedLines h
      rw [List.count_cons_self] at hline
      omega
    · have hquiet : Quiet (f.past used rest) s := by
        refine ⟨hq.1, .inl (hq.2.resolve_right fun hend => ?_)⟩
        cases hoccurs.eq_lineBreak (hrest ▸ hend)
      exact Nat.lt_of_le_of_lt hle (ih hquiet h)
    · exact Nat.lt_of_le_of_lt hle (ih hquiet h)
  | case2 f s hnot =>
    rw [droppedLines, moments_of_not_moved hnot] at h
    obtain ⟨p, hp, rfl⟩ := List.mem_map.1 h
    obtain ⟨hp, hdrops⟩ := List.mem_filter.1 hp
    rw [List.mem_singleton.1 hp, not_drops_of_quiet hq] at hdrops
    cases hdrops

/-! ## Dropped lines and kept ones -/

/-- What is dropped from here on is given, and the given lines that lie behind are done with. -/
structure Sweeps (lines : List Nat) (includes : Includes) (f : Frame) (s : Scan) : Prop where
  ahead : ∀ n ∈ droppedLines includes f s, n ∈ lines
  behind : ∀ n ∈ lines,
    n ∈ droppedLines includes f s ∨ n < f.place.line ∨ n = f.place.line ∧ Dead f s

theorem line_past_of_not_mem (f : Frame) (rest : List Char) (h : '\n' ∉ used) :
    (f.past used rest).place.line = f.place.line := by
  rw [line_past, count_break_of_not_mem h, Nat.add_zero]

theorem not_mem_singleton_of_isGap {c : Char} (h : isGap c = true) : '\n' ∉ [c] := by
  intro hmem
  exact ne_of_isGap h rfl (List.mem_singleton.1 hmem).symm

/-- A lexeme or a block is read only where text is read and something is left of the line. -/
theorem not_dead_of_startsText {c : Char} {cs : List Char} (hrest : f.rest = c :: cs)
    (hc : StartsText s c) (henabled : s.journal.isEnabled = true) :
    ¬ (Dead f s ∨ drops f s = true) := by
  rintro ((hdisabled | hend) | hdrops)
  · exact Bool.false_ne_true (hdisabled.symm.trans henabled)
  · rw [hrest] at hend
    exact hc.ne_break (atLineEnd_cons_iff.1 hend)
  · rw [drops_of_startsText hrest hc, henabled] at hdrops
    cases hdrops

/-- What is dropped, and what follows on its line, is not read. -/
theorem dead_past (hrest : f.rest = used ++ rest) (h : Occurs includes depth s used rest m)
    (hdead : Dead f s ∨ drops f s = true) :
    f.place.line < (f.past used rest).place.line ∨
      (f.past used rest).place.line = f.place.line ∧ Dead (f.past used rest) (m.apply f s) := by
  cases h with
  | lineBreak =>
    rw [line_past, List.count_cons_self]
    exact .inl (Nat.lt_add_of_pos_right (Nat.succ_pos _))
  | blank hgap =>
    have hdisabled : s.journal.isEnabled = false := by
      rcases hdead with (hdisabled | hend) | hdrops
      · exact hdisabled
      · rw [hrest] at hend
        exact absurd (atLineEnd_cons_iff.1 hend) (ne_of_isGap hgap rfl)
      · rwa [drops_of_isGap hrest hgap, Bool.not_eq_true'] at hdrops
    exact .inr ⟨line_past_of_not_mem f _ (not_mem_singleton_of_isGap hgap), .inl hdisabled⟩
  | obeyed _ hline hend =>
    have hused := List.not_mem_cons_of_ne_of_not_mem (by decide : '\n' ≠ '#') hline
    exact .inr ⟨line_past_of_not_mem f _ hused, .inr hend⟩
  | skipped hc _ hline hend =>
    have hused := List.not_mem_cons_of_ne_of_not_mem hc.ne_break.symm hline
    exact .inr ⟨line_past_of_not_mem f _ hused, .inr hend⟩
  | lexeme hc henabled => exact absurd hdead (not_dead_of_startsText hrest hc henabled)
  | block henabled =>
    exact absurd hdead (not_dead_of_startsText hrest (startsText_brace s) henabled)

theorem Sweeps.moved (h : Sweeps lines includes f s) (hrest : f.rest = used ++ rest)
    (ho : Occurs includes 0 s used rest m) :
    Sweeps lines includes (f.past used rest) (m.apply f s) := by
  have hdropped := droppedLines_of_moved (step_of_occurs hrest ho)
  have hle := line_le_past f used rest
  obtain ⟨hahead, hbehind⟩ := h
  rw [hdropped] at hahead hbehind
  refine ⟨fun n hn => hahead n (List.mem_append_right _ hn), fun n hn => ?_⟩
  -- A line that is dropped here, or was, is left or stays unread behind the move.
  have hdone : n = f.place.line ∧ (Dead f s ∨ drops f s = true) →
      n < (f.past used rest).place.line ∨
        n = (f.past used rest).place.line ∧ Dead (f.past used rest) (m.apply f s) := by
    rintro ⟨rfl, hdead⟩
    rcases dead_past hrest ho hdead with hlt | ⟨heq, hdead⟩
    · exact .inl hlt
    · exact .inr ⟨heq.symm, hdead⟩
  rcases hbehind n hn with hmem | hlt | ⟨heq, hdead⟩
  · rcases List.mem_append.1 hmem with hmem | hmem
    · split at hmem
      · next hdrops => exact .inr (hdone ⟨List.mem_singleton.1 hmem, .inr hdrops⟩)
      · cases hmem
    · exact .inl hmem
  · exact .inr (.inl (Nat.lt_of_lt_of_le hlt hle))
  · exact .inr (hdone ⟨heq, .inl hdead⟩)

/-- Behind text that was read, none of the lines is left on this line. -/
theorem Sweeps.lt_of_quiet (h : Sweeps lines includes f s) (hrest : f.rest = used ++ rest)
    (ho : Occurs includes 0 s used rest m) (henabled : s.journal.isEnabled = true)
    (hm : m ≠ .lineBreak) (hdrops : drops f s = false)
    (hq : Quiet (f.past used rest) (m.apply f s)) {n : Nat} (hn : n ∈ lines) :
    n < f.place.line ∨ (f.past used rest).place.line < n := by
  rcases h.behind n hn with hmem | hlt | ⟨-, hdisabled | hend⟩
  · rw [droppedLines_of_moved (step_of_occurs hrest ho), hdrops] at hmem
    exact .inr (lt_of_mem_droppedLines_of_quiet hq (by simpa using hmem))
  · exact .inl hlt
  · simp [henabled] at hdisabled
  · exact absurd (ho.eq_lineBreak (hrest ▸ hend)) hm

/-- A move on one line that reads no text. -/
structure Idle (used : List Char) (s s' : Scan) : Prop where
  not_mem : '\n' ∉ used
  defines : s'.journal.defines = s.journal.defines
  blocks : s'.journal.blocks = s.journal.blocks
  recent : s'.recent = s.recent

theorem idle_of_drops (hrest : f.rest = used ++ rest) (h : Occurs includes depth s used rest m)
    (hm : m ≠ .lineBreak) (hdrops : drops f s = true ∨ m = .blank) : Idle used s (m.apply f s) := by
  cases h with
  | lineBreak => exact absurd rfl hm
  | blank hgap => exact ⟨not_mem_singleton_of_isGap hgap, rfl, rfl, rfl⟩
  | @obeyed line rest ds cs hstart hline hend hobey =>
    have hused := List.not_mem_cons_of_ne_of_not_mem (by decide : '\n' ≠ '#') hline
    refine ⟨hused, ?_, rfl, rfl⟩
    -- A directive on conditionals leaves the defines, and so does every one that is not obeyed.
    cases htext : Directive.isConditional (Text.trim (Directive.uncommented line)) with
    | true =>
      have hdefines := congrArg Journal.defines (Directive.eq_of_obey_conditional htext hobey)
      exact hdefines
    | false =>
      have hdisabled : s.journal.isEnabled = false := by
        simpa [drops_of_directive hrest hstart hline hend, htext] using hdrops
      rw [Directive.obey_of_disabled htext hdisabled] at hobey
      exact (congrArg Journal.defines (Directive.Effect.went.inj hobey)).symm
  | skipped hc _ hline =>
    exact ⟨List.not_mem_cons_of_ne_of_not_mem hc.ne_break.symm hline, rfl, rfl, rfl⟩
  | lexeme hc henabled => simp [drops_of_startsText hrest hc, henabled] at hdrops
  | block henabled => simp [drops_of_startsText hrest (startsText_brace s), henabled] at hdrops

/-- No text is read on a dropped line. -/
theorem Sweeps.idle (h : Sweeps lines includes f s) (hrest : f.rest = used ++ rest)
    (ho : Occurs includes 0 s used rest m) (hm : m ≠ .lineBreak) (hline : f.place.line ∈ lines) :
    Idle used s (m.apply f s) := by
  by_cases hdrops : drops f s = true
  · exact idle_of_drops hrest ho hm (.inl hdrops)
  · have hkept : drops f s = false := by simpa using hdrops
    rcases quiet_of_not_drops hrest ho hkept with hbreak | ⟨henabled, hblank | hq⟩
    · exact absurd hbreak hm
    · exact idle_of_drops hrest ho hm (.inr hblank)
    · have hle := line_le_past f used rest
      have hlt := h.lt_of_quiet hrest ho henabled hm hkept hq hline
      omega

/-- On a kept line a move drops nothing, and it goes on along kept lines. -/
theorem Sweeps.kept (h : Sweeps lines includes f s) (hrest : f.rest = used ++ rest)
    (ho : Occurs includes 0 s used rest m) (hm : m ≠ .lineBreak) (hline : f.place.line ∉ lines) :
    drops f s = false ∧ s.journal.isEnabled = true ∧
      ∀ n, f.place.line ≤ n → n ≤ (f.past used rest).place.line → n ∉ lines := by
  -- A drop would put the line among those given.
  have hkept : drops f s = false := by
    by_contra hdrops
    refine hline (h.ahead _ ?_)
    rw [droppedLines_of_moved (step_of_occurs hrest ho), if_pos (by simpa using hdrops)]
    exact List.mem_append_left _ (List.mem_singleton_self _)
  obtain ⟨henabled, hquiet⟩ := (quiet_of_not_drops hrest ho hkept).resolve_left hm
  refine ⟨hkept, henabled, fun n hle hge hn => ?_⟩
  rcases hquiet with rfl | hq
  · cases ho with
    | blank hgap =>
      rw [line_past_of_not_mem f rest (not_mem_singleton_of_isGap hgap)] at hge
      exact hline (Nat.le_antisymm hle hge ▸ hn)
  · have hlt := h.lt_of_quiet hrest ho henabled hm hkept hq hn
    omega

/-! ## The second run -/

/-- The second scan has read what the first one has, without conditionals. -/
structure Level (s s₂ : Scan) : Prop where
  conditionals : s₂.journal.conditionals = []
  defines : s₂.journal.defines = s.journal.defines
  blocks : s₂.journal.blocks = s.journal.blocks
  recent : s₂.recent = s.recent

/-- The frames have reached the same line and the scans are level. On a dropped line the second run
has read on to the end of the line. -/
structure Alongside (lines : List Nat) (f : Frame) (s : Scan) (f₂ : Frame) (s₂ : Scan) : Prop where
  rest : f₂.rest = emptied lines f.place.line f.rest
  file : f₂.file = f.file
  line : f₂.place.line = f.place.line
  level : Level s s₂
  kept : f.place.line ∉ lines → f₂.place.col = f.place.col ∧ s₂.atLineStart = s.atLineStart

variable {includes' : Includes} {f₂ : Frame} {s₂ : Scan}

theorem Level.isEnabled (h : Level s s₂) : s₂.journal.isEnabled = true := by
  rw [Journal.isEnabled, h.conditionals, Conditionals.isEnabled_nil]

theorem Level.blockKind? (h : Level s s₂) : s₂.blockKind? = s.blockKind? := by
  unfold Scan.blockKind?
  rw [h.recent]

theorem Level.apply (h : Level s s₂) (hm : ∀ ds cs, m ≠ .obeyed ds cs) (hfile : f₂.file = f.file)
    (hline : f₂.place.line = f.place.line) (hcol : f₂.place.col = f.place.col) :
    Level (m.apply f s) (m.apply f₂ s₂) := by
  obtain ⟨hconditionals, hdefines, hblocks, hrecent⟩ := h
  have hplaced : ∀ t, (⟨f₂.file, f₂.place.line, f₂.place.col, t⟩ : PlacedToken) =
      ⟨f.file, f.place.line, f.place.col, t⟩ := fun t => by rw [hfile, hline, hcol]
  refine ⟨?_, defines_apply m hdefines, blocks_apply m hdefines hblocks, ?_⟩
  · cases m with
    | obeyed => exact absurd rfl (hm _ _)
    | lexeme t? => cases t? <;> exact hconditionals
    | _ => exact hconditionals
  · cases m with
    | lexeme t? =>
      cases t? with
      | none => exact hrecent
      | some t => exact congrArg₂ List.cons (hplaced t) hrecent
    | block kind body =>
      refine congrArg₂ List.cons ?_ hrecent
      rw [hplaced, nextIndex_congr hblocks]
    | _ => exact hrecent

/-- On a dropped line the second run waits. -/
theorem Alongside.wait (ha : Alongside lines f s f₂ s₂) (hs : Sweeps lines includes f s)
    (hrest : f.rest = used ++ rest) (ho : Occurs includes 0 s used rest m) (hm : m ≠ .lineBreak)
    (hline : f.place.line ∈ lines) : Alongside lines (f.past used rest) (m.apply f s) f₂ s₂ := by
  -- The move uses a piece of one line, and nothing is left of it in the second text.
  have hidle := hs.idle hrest ho hm hline
  have hsame := line_past_of_not_mem f rest hidle.not_mem
  obtain ⟨hconditionals, hdefines, hblocks, hrecent⟩ := ha.level
  refine ⟨?_, ha.file, hsame ▸ ha.line, ?_, fun hnot => absurd hline (hsame ▸ hnot)⟩
  · rw [hsame, ha.rest, hrest, emptied_append, emptied_eq_nil hidle.not_mem hline,
      count_break_of_not_mem hidle.not_mem]
    rfl
  · exact ⟨hconditionals, hdefines.trans hidle.defines.symm, hblocks.trans hidle.blocks.symm,
      hrecent.trans hidle.recent.symm⟩

/-- Both runs break a line. -/
theorem Alongside.lineBreak (ha : Alongside lines f s f₂ s₂) (hrest : f.rest = ['\n'] ++ rest) :
    ∃ f₂' s₂', step includes' 0 f₂ s₂ = .moved f₂' s₂' ∧
      Alongside lines (f.past ['\n'] rest) (Move.lineBreak.apply f s) f₂' s₂' := by
  have htail : f₂.rest = ['\n'] ++ emptied lines (f.place.line + 1) rest := by
    rw [ha.rest, hrest, List.singleton_append, emptied, if_pos rfl]
    rfl
  obtain ⟨hconditionals, hdefines, hblocks, hrecent⟩ := ha.level
  refine ⟨_, _, step_of_occurs htail .lineBreak, rfl, ha.file, congrArg (· + 1) ha.line, ?_, ?_⟩
  · exact ⟨hconditionals, hdefines, hblocks, hrecent⟩
  · exact fun _ => ⟨rfl, rfl⟩

/-- A move on a kept line is made in the second run as well. -/
theorem Alongside.occurs (ha : Alongside lines f s f₂ s₂) (hkept : drops f s = false)
    (henabled : s.journal.isEnabled = true) (hline : f.place.line ∉ lines)
    (hrest : f.rest = used ++ rest) (ho : Occurs includes 0 s used rest m) {tail : List Char}
    (htail : Follows rest tail) :
    ∃ m₂, Occurs includes' 0 s₂ used tail m₂ ∧ Level (m.apply f s) (m₂.apply f₂ s₂) ∧
      (m₂.apply f₂ s₂).atLineStart = (m.apply f s).atLineStart := by
  obtain ⟨hcol, hstart⟩ := ha.kept hline
  by_cases hm : ∃ ds cs, m = .obeyed ds cs
  · obtain ⟨ds, cs, rfl⟩ := hm
    cases ho with
    | @obeyed l _ _ _ hflag hl hend hobey =>
      -- The directive is none on conditionals, since the line is kept.
      have htext : Directive.isConditional (Text.trim (Directive.uncommented l)) = false := by
        simpa [drops_of_directive hrest hflag hl hend, henabled] using hkept
      have hobey₂ := (Directive.obey_of_enabled htext henabled hobey).2 includes' 0 _
        ha.level.isEnabled ha.level.defines
      refine ⟨_, .obeyed (hstart.trans hflag) hl (htail.atLineEnd hend) hobey₂, ?_, hstart⟩
      exact ⟨ha.level.conditionals, rfl, ha.level.blocks, ha.level.recent⟩
  · have hm : ∀ ds cs, m ≠ .obeyed ds cs := fun ds cs h => hm ⟨ds, cs, h⟩
    have ho₂ : Occurs includes' 0 s₂ used tail m := ho.congr hm htail hstart
      (ha.level.isEnabled.trans henabled.symm) ha.level.blockKind?
    exact ⟨m, ho₂, ha.level.apply hm ha.file ha.line hcol, atLineStart_apply m hstart⟩

/-- On a kept line both runs make the same move. -/
theorem Alongside.keep (ha : Alongside lines f s f₂ s₂) (hs : Sweeps lines includes f s)
    (hrest : f.rest = used ++ rest) (ho : Occurs includes 0 s used rest m) (hm : m ≠ .lineBreak)
    (hline : f.place.line ∉ lines) :
    ∃ f₂' s₂', step includes' 0 f₂ s₂ = .moved f₂' s₂' ∧
      Alongside lines (f.past used rest) (m.apply f s) f₂' s₂' := by
  obtain ⟨hkept, henabled, hlines⟩ := hs.kept hrest ho hm hline
  have hpast := line_past f used rest
  have hle := line_le_past f used rest
  rw [hpast] at hlines hle
  -- All that the move touches lies on kept lines, and so does the head of what follows.
  have hrest₂ : f₂.rest = used ++ emptied lines (f.place.line + used.count '\n') rest := by
    rw [ha.rest, hrest, emptied_append, emptied_eq_self hlines]
  have htail : Follows rest (emptied lines (f.place.line + used.count '\n') rest) :=
    .inl (head?_emptied (hlines _ hle (Nat.le_refl _)) rest)
  obtain ⟨m₂, ho₂, hlevel, hstart⟩ := ha.occurs hkept henabled hline hrest ho htail
  have hplace := pastAll_congr ha.line (ha.kept hline).1 used
  refine ⟨_, _, step_of_occurs hrest₂ ho₂, ?_, ha.file, hplace.1, hlevel, ?_⟩
  · rw [hpast]
    rfl
  · exact fun _ => ⟨hplace.2, hstart⟩

/-! ## Whole runs -/

/-- The second run follows the first one as long as that enters no file. -/
theorem finishes_alongside (includes' : Includes) (h : Finishes includes 0 f s g t)
    (hpushes : t.journal.pushes = s.journal.pushes) (hs : Sweeps lines includes f s)
    (ha : Alongside lines f s f₂ s₂) :
    ∃ g₂ t₂, Finishes includes' 0 f₂ s₂ g₂ t₂ ∧ Level t t₂ := by
  generalize hdepth : 0 = depth at h
  induction h generalizing f₂ s₂ with
  | done hrest =>
    refine ⟨f₂, s₂, .done ?_, ha.level⟩
    rw [ha.rest, hrest]
    rfl
  | @moved depth f f' g s s' t hstep _ ih =>
    subst hdepth
    obtain ⟨used, rest, m, hrest, ho, rfl, rfl⟩ := step_eq_moved_iff.1 hstep
    have hgoOn := fun f₂ s₂ => @ih f₂ s₂ (hpushes.trans (pushes_apply m f s).symm)
      (hs.moved hrest ho)
    -- The second run waits, or it makes a move as well.
    have hmove : ∀ {f₂' s₂'}, step includes' 0 f₂ s₂ = .moved f₂' s₂' →
        Alongside lines (f.past used rest) (m.apply f s) f₂' s₂' →
        ∃ g₂ t₂, Finishes includes' 0 f₂ s₂ g₂ t₂ ∧ Level t t₂ := by
      intro f₂' s₂' hstep₂ ha₂
      obtain ⟨g₂, t₂, hfinishes, hlevel⟩ := hgoOn _ _ ha₂ rfl
      exact ⟨g₂, t₂, .moved hstep₂ hfinishes, hlevel⟩
    by_cases hm : m = .lineBreak
    · subst hm
      cases ho
      obtain ⟨f₂', s₂', hstep₂, ha₂⟩ := ha.lineBreak hrest
      exact hmove hstep₂ ha₂
    · by_cases hline : f.place.line ∈ lines
      · exact hgoOn _ _ (ha.wait hs hrest ho hm hline) rfl
      · obtain ⟨f₂', s₂', hstep₂, ha₂⟩ := ha.keep hs hrest ho hm hline
        exact hmove hstep₂ ha₂
  | entered hstep hc hnext =>
    -- A file that is entered is counted, and the count says that there is none.
    obtain ⟨line, rest, j, -, henters, rfl, rfl⟩ := step_eq_entered_iff.1 hstep
    have hle := hc.pushes_le.trans hnext.pushes_le
    simp only [henters.pushes, hpushes] at hle
    omega

/-- Conditionals select lines: when a source is read from nothing and enters no file, the source
with its dropped lines emptied is read as well, to the same tokens at the same places, the same
blocks and the same defines. It has no use for the files that can be included. -/
theorem selected_reads_alike (includes includes' : Includes) (source : String) (defines : Defines)
    (frames : List Frame) (t : Scan)
    (h : (fresh defines).process includes source [] = .ok (frames, t))
    (hpushes : t.journal.pushes = 0) :
    ∃ frames' t', (fresh defines).process includes' (selected includes source (fresh defines)) [] =
        .ok (frames', t') ∧
      t'.tokens = t.tokens ∧ t'.journal.blocks = t.journal.blocks ∧
      t'.journal.defines = t.journal.defines := by
  obtain ⟨g, hfinishes, -, -⟩ := process_eq_ok_iff.1 h
  -- At the start nothing lies behind, and both scans are fresh.
  have hsweeps : Sweeps (droppedLines includes (Frame.ofText none source) (fresh defines)) includes
      (Frame.ofText none source) (fresh defines) := ⟨fun _ => id, fun _ => .inl⟩
  have halongside : Alongside (droppedLines includes (Frame.ofText none source) (fresh defines))
      (Frame.ofText none source) (fresh defines)
      (Frame.ofText none (selected includes source (fresh defines))) (fresh defines) := by
    refine ⟨?_, rfl, rfl, ⟨rfl, rfl, rfl, rfl⟩, fun _ => ⟨rfl, rfl⟩⟩
    exact String.toList_ofList
  obtain ⟨g', t', hfinishes', hlevel⟩ :=
    finishes_alongside includes' hfinishes hpushes hsweeps halongside
  refine ⟨_, _, process_eq_ok_iff.2 ⟨g', hfinishes', hlevel.conditionals, rfl⟩, ?_, hlevel.blocks,
    hlevel.defines⟩
  rw [tokens, hlevel.recent, tokens]

theorem selected_reads_alike_branches :
    ∃ frames t, (fresh []).process (fun _ => none) "#ifdef A\n\"#if\n#else\n;\n#endif\n" [] =
        .ok (frames, t) ∧
      t.journal.pushes = 0 ∧ t.tokens = [⟨none, 4, 1, .punct .break⟩] ∧
      ∃ frames' t', (fresh []).process (fun _ => none)
          (selected (fun _ => none) "#ifdef A\n\"#if\n#else\n;\n#endif\n" (fresh [])) [] =
          .ok (frames', t') ∧
        t'.tokens = t.tokens ∧ t'.journal.blocks = t.journal.blocks ∧
        t'.journal.defines = t.journal.defines := by
  have hread : ((fresh []).process (fun _ => none)
      "#ifdef A\n\"#if\n#else\n;\n#endif\n" []).toOption.any (fun r =>
        r.2.journal.pushes == 0 && r.2.tokens == [⟨none, 4, 1, .punct .break⟩]) = true := by
    decide +kernel
  obtain ⟨⟨frames, t⟩, h, hexpected⟩ := Outcome.exists_eq_ok_of_any hread
  obtain ⟨hpushes, htokens⟩ := Bool.and_eq_true_iff.1 hexpected
  have hpushes := beq_iff_eq.1 hpushes
  exact ⟨frames, t, h, hpushes, beq_iff_eq.1 htokens,
    selected_reads_alike _ _ _ _ _ _ h hpushes⟩

end Scan
end ShaderLang
