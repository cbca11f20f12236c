import ShaderLang.Proofs.Source.Ending
/-!
# The turns of a reading

What one move of a reading does to the texts under reading, also where it fails, and how one lexer
reads one source after another.

## Main definitions

* `Scan.Point.Goes` — a move uses text, enters a file or leaves one
* `Scan.Fails` — a directive, a lexeme or a captured block is at fault
* `Scan.Point.Rests` — where a reading comes to rest, at the end or at a fault
* `Scan.Call`, `Scan.afterCalls` — the calls on one lexer and what it keeps

## Main results

* `Directive.refusal_of_obey` — a directive that is refused changes at most the conditionals
* `Scan.Point.goes_of_turn`, `Scan.Point.fails_of_turn` — every move does one of these things
* `Scan.exists_leads_rests` — reading a source is a run to where it rests
-/

namespace ShaderLang

/-- The faults of directives. -/
inductive Cause.OfDirective : Cause → Prop
  | notFound (name : String) : OfDirective (.includeNotFound name)
  | tooDeep (name : String) : OfDirective (.includeDepth name)
  | invalid (line : String) : OfDirective (.invalidDirective line)
  | unmatched (directive : String) : OfDirective (.unmatchedConditional directive)

namespace Directive

/-- A refused directive has a fault of its own and leaves all but the conditionals as it was. -/
structure Refusal (j j' : Journal) (cause : Cause) : Prop where
  cause : cause.OfDirective
  journal : j' = { j with conditionals := j'.conditionals }

variable {includes : Includes} {depth : Nat} {j j' : Journal} {text rest : List Char}
  {cause : Cause}

theorem refusal_invalid (j : Journal) (line : String) : Refusal j j (.invalidDirective line) :=
  ⟨.invalid line, rfl⟩

theorem refusal_of_openNamed {test : Test} (h : openNamed j test text rest = .refused j' cause) :
    Refusal j j' cause := by
  unfold openNamed at h
  split at h <;> cases h
  exact refusal_invalid ..

theorem refusal_of_openCondition (h : openCondition j rest = .refused j' cause) :
    Refusal j j' cause := by
  unfold openCondition at h
  split at h <;> cases h
  exact ⟨.invalid _, rfl⟩

theorem refusal_of_continueWith (h : continueWith j rest = .refused j' cause) :
    Refusal j j' cause := by
  unfold continueWith at h
  split at h <;> cases h
  exact refusal_invalid ..

theorem refusal_of_needsOpen {d : Directive} {act : Unit → Effect}
    (hact : act () = .refused j' cause → Refusal j j' cause)
    (h : needsOpen j d act = .refused j' cause) : Refusal j j' cause := by
  unfold needsOpen at h
  split at h
  · exact hact h
  · cases h
    exact ⟨.unmatched _, rfl⟩

theorem refusal_of_enter {name : String} (h : j.enter includes depth name = .error cause) :
    Refusal j j cause := by
  unfold Journal.enter at h
  split at h
  · cases h
    exact ⟨.tooDeep name, rfl⟩
  · split at h <;> cases h
    exact ⟨.notFound name, rfl⟩

/-- A directive that is refused changes at most the conditionals. -/
theorem refusal_of_obey (h : obey includes depth j text = .refused j' cause) :
    Refusal j j' cause := by
  unfold obey at h
  simp only at h
  split at h
  · exact refusal_of_openNamed h
  · exact refusal_of_openNamed h
  · exact refusal_of_openCondition h
  · exact refusal_of_needsOpen refusal_of_continueWith h
  · exact refusal_of_needsOpen (fun h => by cases h) h
  · exact refusal_of_needsOpen (fun h => by cases h) h
  · -- An inclusion is refused without a name, and where its file cannot be entered.
    split at h
    · cases h
    · split at h
      · cases h
        exact refusal_invalid ..
      · split at h
        · cases h
        · next henter =>
          cases h
          exact refusal_of_enter henter
  · split at h
    · cases h
    · split at h <;> cases h
      exact refusal_invalid ..
  · split at h
    · cases h
    · split at h <;> cases h
      exact refusal_invalid ..
  · split at h <;> cases h
    exact refusal_invalid ..

end Directive

namespace Scan

/-! ## Moves that fail -/

/-- What is at fault at the start of a frame: a directive, a lexeme, or a block without an end. -/
inductive Fails (f : Frame) (s : Scan) : Cause → Frame → Scan → Prop
  | directive {line rest : List Char} {cause : Cause} {j : Journal}
      (hrest : f.rest = '#' :: line ++ rest) (h : Directive.Refusal s.journal j cause) :
      Fails f s cause (f.past ('#' :: line) rest) { s with journal := j }
  | lexeme {cause : Cause} (hne : f.rest ≠ [])
      (h : (Lexeme.read f.rest).reading = .fault cause) :
      Fails f s cause (f.past (Lexeme.read f.rest).used (Lexeme.read f.rest).rest)
        { s with atLineStart := false }
  | block {kind : BlockKind} {cs : List Char} (hrest : f.rest = '\x7b' :: cs)
      (h : Capture.read .plain 0 cs = none) :
      Fails f s .unterminatedCodeBlock (f.past ('\x7b' :: cs) [])
        { s with journal := s.journal.beginBlock kind, atLineStart := false }

variable {includes : Includes} {depth : Nat} {f f' : Frame} {s s' : Scan} {cause : Cause}
  {p q : Point}

theorem fails_of_lexeme {place : Place} (hne : f.rest ≠ [])
    (h : lexeme f { s with atLineStart := false } = .failed cause place f' s') :
    place = f.place ∧ Fails f s cause f' s' := by
  unfold lexeme at h
  simp only at h
  split at h
  · cases h
  · cases h
  · next hreading =>
    cases h
    exact ⟨rfl, .lexeme hne hreading⟩

theorem fails_of_piece {place : Place} {c : Char} {cs : List Char} (hrest : f.rest = c :: cs)
    (h : piece f { s with atLineStart := false } c cs = .failed cause place f' s') :
    place = f.place ∧ Fails f s cause f' s' := by
  have hne : f.rest ≠ [] := hrest ▸ List.cons_ne_nil c cs
  unfold piece at h
  split at h
  · next hbrace =>
    subst hbrace
    split at h
    · unfold capture at h
      simp only at h
      split at h
      · cases h
      · next hread =>
        cases h
        exact ⟨rfl, .block hrest hread⟩
    · exact fails_of_lexeme hne h
  · exact fails_of_lexeme hne h

/-- A move that fails is at fault where it starts. -/
theorem fails_of_step {place : Place} (h : step includes depth f s = .failed cause place f' s') :
    place = f.place ∧ Fails f s cause f' s' := by
  -- Breaks, blanks and lines that are skipped cannot fail.
  unfold step at h
  split at h
  · cases h
  · next c cs hrest =>
    split at h
    · cases h
    · split at h
      · cases h
      · split at h
        · next hdirective =>
          obtain ⟨rfl, -⟩ := hdirective
          unfold directive at h
          simp only at h
          split at h
          · cases h
          · cases h
          · next hobey =>
            cases h
            refine ⟨rfl, .directive ?_ (Directive.refusal_of_obey hobey)⟩
            rw [List.cons_append, line_append, hrest]
        · split at h
          · exact fails_of_piece hrest h
          · cases h

/-- Some of the frame is used where it fails, but not always. -/
theorem Fails.exists_used (h : Fails f s cause f' s') :
    ∃ used rest, f.rest = used ++ rest ∧ f' = f.past used rest := by
  cases h with
  | directive hrest => exact ⟨_, _, hrest, rfl⟩
  | lexeme => exact ⟨_, _, (Lexeme.used_append_rest f.rest).symm, rfl⟩
  | block hrest => exact ⟨_, [], hrest.trans (List.append_nil _).symm, rfl⟩

/-- A fault adds no token, and no file is entered or left. -/
structure Unmoved (s s' : Scan) : Prop where
  recent : s'.recent = s.recent
  pushes : s'.journal.pushes = s.journal.pushes
  pops : s'.journal.pops = s.journal.pops

theorem Fails.unmoved (h : Fails f s cause f' s') : Unmoved s s' := by
  cases h with
  | directive _ hrefusal =>
    rw [hrefusal.journal]
    exact ⟨rfl, rfl, rfl⟩
  | lexeme | block => exact ⟨rfl, rfl, rfl⟩

/-! ## Moves of a reading -/

/-- A move uses text of the innermost frame, enters a file behind its directive, or leaves a text
that is at its end for the one below it. -/
inductive Point.Goes (includes : Includes) (p : Point) : Point → Prop
  | uses {used rest : List Char} {m : Move} (hrest : p.frame.rest = used ++ rest)
      (h : Occurs includes p.depth p.scan used rest m) :
      Goes includes p ⟨p.frame.past used rest, p.below, m.apply p.frame p.scan⟩
  | enters {line rest : List Char} {name text : String}
      (hrest : p.frame.rest = '#' :: line ++ rest) (htext : includes name = some text) :
      Goes includes p ⟨Frame.ofText (some name) text, p.frame.past ('#' :: line) rest :: p.below,
        { p.scan with
          journal := { p.scan.journal with
            files := Journal.noteFile p.scan.journal.files name
            pushes := p.scan.journal.pushes + 1 }
          atLineStart := true }⟩
  | leaves {g : Frame} {gs : List Frame} (hrest : p.frame.rest = []) (hbelow : p.below = g :: gs) :
      Goes includes p ⟨g, gs, p.scan.resumed⟩

theorem Point.goes_of_turn {entered? : Option String} (h : p.turn includes = .on entered? q) :
    p.Goes includes q := by
  cases proceeds_of_turn h with
  | uses hrest hoccurs => exact .uses hrest hoccurs
  | enters hrest _ _ htext => exact .enters hrest htext
  | leaves hrest hbelow => exact .leaves hrest hbelow

/-- A reading that stops does so at its innermost frame. -/
theorem Point.fails_of_turn {failure : Failure} (h : p.turn includes = .stopped failure) :
    ∃ cause f s, Fails p.frame p.scan cause f s ∧
      failure =
        ⟨⟨p.frame.file, p.frame.place.line, p.frame.place.col, cause⟩, f :: p.below, s⟩ := by
  unfold Point.turn at h
  split at h
  · cases h
  · cases h
  · split at h <;> cases h
  · next cause place f s hstep =>
    obtain ⟨rfl, hfails⟩ := fails_of_step hstep
    cases h
    exact ⟨cause, f, s, hfails, rfl⟩

theorem Point.of_ended (h : p.turn includes = .ended) : p.frame.rest = [] ∧ p.below = [] := by
  unfold Point.turn at h
  split at h
  · cases h
  · cases h
  · next hstep =>
    split at h
    · next hbelow => exact ⟨step_eq_finished_iff.1 hstep, hbelow⟩
    · cases h
  · cases h

/-- The point that so many moves lead to. -/
def Point.turns? (includes : Includes) : Nat → Point → Option Point
  | 0, p => some p
  | n + 1, p =>
    match p.turn includes with
    | .on _ q => turns? includes n q
    | _ => none

theorem leads_of_turns? {n : Nat} (h : p.turns? includes n = some q) : Leads includes p q := by
  fun_induction Point.turns? includes n p with
  | case1 =>
    cases h
    exact .refl _
  | case2 n p entered? r hturn ih => exact (ih h).after hturn
  | case3 => cases h

/-! ## One source after another -/

/-- The frames and the scan that a reading leaves, also when it fails. -/
def kept : Except Failure (List Frame × Scan) → List Frame × Scan
  | .ok r => r
  | .error failure => (failure.frames, failure.scan)

/-- The last point of a reading, with the frames and the scan that are kept there. -/
inductive Point.Rests (includes : Includes) (p : Point) : List Frame → Scan → Prop
  | ended (h : p.turn includes = .ended) : Rests includes p [p.frame] p.scan
  | stopped {failure : Failure} (h : p.turn includes = .stopped failure) :
      Rests includes p failure.frames failure.scan

theorem Ends.rests {result : Except Failure (List Frame × Scan)} (h : Ends includes p result) :
    p.Rests includes (kept result).1 (kept result).2 := by
  cases h with
  | stopped h => exact .stopped h
  | unclosed h | read h => exact .ended h

/-- Reading a source is a run to where it rests. -/
theorem exists_leads_rests (includes : Includes) (frames : List Frame) (s : Scan)
    (source : String) :
    ∃ last, Leads includes (Point.startAbove frames s source) last ∧
      last.Rests includes (kept (s.process includes source frames)).1
        (kept (s.process includes source frames)).2 := by
  obtain ⟨last, hends, hleads⟩ := exists_leads_ends_above includes frames s source
  exact ⟨last, hleads, hends.rests⟩

/-- A call on a lexer: a name is defined, or a source is read. -/
inductive Call
  | define (name : String) (expr : Option String)
  | read (source : String)
  deriving DecidableEq, Inhabited

/-- The source that a call reads. -/
def Call.source? : Call → Option String
  | .define .. => none
  | .read source => some source

/-- A scan with other defines. -/
def withDefines (s : Scan) (defines : Defines) : Scan :=
  { s with journal := { s.journal with defines } }

/-- What a call does to the frames and the scan that a lexer keeps. -/
def Call.apply (includes : Includes) : List Frame × Scan → Call → List Frame × Scan
  | (frames, s), .define name expr =>
    (frames, s.withDefines (s.journal.defines.define name expr))
  | (frames, s), .read source => kept (s.process includes source frames)

/-- What a lexer keeps after some calls, whether or not the sources could be read. -/
def afterCalls (includes : Includes) (calls : List Call) : List Frame × Scan :=
  calls.foldl (Call.apply includes) ([], .empty)

/-- The sources that some calls read. -/
def sources (calls : List Call) : List String := calls.filterMap Call.source?

theorem afterCalls_append_singleton (includes : Includes) (calls : List Call) (call : Call) :
    afterCalls includes (calls ++ [call]) = Call.apply includes (afterCalls includes calls) call :=
  List.foldl_append

theorem sources_append_singleton (calls : List Call) (call : Call) :
    sources (calls ++ [call]) = sources calls ++ call.source?.toList := by
  rw [sources, List.filterMap_append]
  cases call <;> rfl

end Scan
end ShaderLang
