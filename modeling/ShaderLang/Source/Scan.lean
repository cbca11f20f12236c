import ShaderLang.Source.Lexeme
import ShaderLang.Source.Directive
/-!
# Scanning

The tokens of a source. A frame is read lexeme by lexeme; a directive that includes a file reads
the whole file before the line below it. The scan keeps its tokens and its session when a further
source is read, also after a fault.

## Main definitions

* `PlacedToken` — a token with its place
* `Scan` — what has been read so far
* `Scan.step` — one move in a frame
* `Scan.finish` — a frame read to its end, with all files included in it
* `Scan.process` — a further source read

## Main results

* `Scan.rest_lt_of_moved`, `Scan.lt_of_entered` — every move but the last shortens the frame
* `Scan.finish_eq` — a frame is read move by move, and each file where it is included
-/

namespace ShaderLang

/-- A token with its place. -/
structure PlacedToken where
  file : Option String
  line : Nat
  col : Nat
  token : Token
  deriving DecidableEq, Inhabited

/-- What has been read so far, apart from the frames. -/
structure Scan where
  journal : Journal
  /-- The tokens, the last one first. -/
  recent : List PlacedToken
  /-- Nothing but blanks stands between the last line break and this point. -/
  atLineStart : Bool
  deriving Inhabited

namespace Scan

/-- Nothing has been read. -/
def empty : Scan := ⟨.empty, [], true⟩

/-- Nothing has been read, and some names are defined. -/
def fresh (defines : Defines) : Scan := { empty with journal := { Journal.empty with defines } }

/-- The tokens in their order. -/
def tokens (s : Scan) : List PlacedToken := s.recent.reverse

/-- Adds a token that starts at the place of a frame. -/
def push (s : Scan) (f : Frame) (t : Token) : Scan :=
  { s with recent := ⟨f.file, f.place.line, f.place.col, t⟩ :: s.recent }

/-- The kind of block that an opening brace starts here: one of code behind `code`, and one of a
sub-shader behind its name. -/
def blockKind? (s : Scan) : Option BlockKind :=
  match (s.recent.take 2).map PlacedToken.token with
  | .keyword .code :: _ => some .code
  | .identifier _ :: .keyword .subShader :: _ => some .subShader
  | _ => none

/-- One move in a frame. -/
inductive Step
  | finished
  | moved (f : Frame) (s : Scan)
  | entered (child f : Frame) (s : Scan)
  | failed (cause : Cause) (place : Place) (f : Frame) (s : Scan)

/-- Blanks between tokens other than the line break. -/
def isGap (c : Char) : Bool := c == ' ' || c == '\t' || c == '\r'

/-- Obeys the directive of a line, behind its number sign. -/
def directive (includes : Includes) (depth : Nat) (f : Frame) (s : Scan) (cs : List Char) : Step :=
  let line := (Text.line cs).1
  let f' := f.past ('#' :: line) (Text.line cs).2
  match Directive.obey includes depth s.journal (Text.trim (Directive.uncommented line)) with
  | .went j => .moved f' { s with journal := j }
  | .entered j child => .entered child f' { s with journal := j, atLineStart := true }
  | .refused j cause => .failed cause f.place f' { s with journal := j }

/-- Captures a block behind its opening brace. -/
def capture (kind : BlockKind) (f : Frame) (s : Scan) (cs : List Char) : Step :=
  let j := s.journal.beginBlock kind
  match Capture.read .plain 0 cs with
  | some (body, rest) =>
    let s' := { s with journal := j.appendBlock kind (String.ofList body) }
    .moved (f.past ('\x7b' :: body ++ ['\x7d']) rest)
      (s'.push f (.rawBlock (s.journal.nextIndex kind)))
  | none => .failed .unterminatedCodeBlock f.place (f.past ('\x7b' :: cs) []) { s with journal := j }

/-- Reads one lexeme. -/
def lexeme (f : Frame) (s : Scan) : Step :=
  let x := Lexeme.read f.rest
  let f' := f.past x.used x.rest
  match x.reading with
  | .gap => .moved f' s
  | .token t => .moved f' (s.push f t)
  | .fault cause => .failed cause f.place f' s

/-- Reads on where text is read. -/
def piece (f : Frame) (s : Scan) (c : Char) (cs : List Char) : Step :=
  if c = '\x7b' then
    match s.blockKind? with
    | some kind => capture kind f s cs
    | none => lexeme f s
  else lexeme f s

/-- One move in a frame that lies `depth` deep. Where no text is read, lines without a directive
are skipped whole. -/
def step (includes : Includes) (depth : Nat) (f : Frame) (s : Scan) : Step :=
  match f.rest with
  | [] => .finished
  | c :: cs =>
    if c = '\n' then .moved (f.past [c] cs) { s with atLineStart := true }
    else if isGap c then .moved (f.past [c] cs) s
    else if c = '#' ∧ s.atLineStart then directive includes depth f s cs
    else if s.journal.isEnabled then piece f { s with atLineStart := false } c cs
    else
      .moved (f.past (c :: (Text.line cs).1) (Text.line cs).2) { s with atLineStart := false }

/-! ## Every move shortens the frame -/

theorem line_rest_length_le (cs : List Char) : (Text.line cs).2.length ≤ cs.length :=
  (List.dropWhile_sublist _).length_le

variable {includes : Includes} {depth : Nat} {f f' child : Frame} {s s' : Scan} {c : Char}
  {cs : List Char}

/-- A lexeme that is no fault uses at least one character. -/
theorem rest_lt_of_lexeme (h : lexeme f s = .moved f' s') :
    f'.rest.length < f.rest.length := by
  -- A word, a number, a string or a comment: the text moves by what the lexeme uses.
  have hused : (Lexeme.read f.rest).used ≠ [] ∧ f' = f.past (Lexeme.read f.rest).used
      (Lexeme.read f.rest).rest := by
    unfold lexeme at h
    simp only at h
    split at h
    · next hr =>
      cases h
      exact ⟨Lexeme.used_ne_nil (by simp [hr]), rfl⟩
    · next hr =>
      cases h
      exact ⟨Lexeme.used_ne_nil (by simp [hr]), rfl⟩
    · cases h
  obtain ⟨hne, rfl⟩ := hused
  have hpos := List.length_pos_iff.2 hne
  have hlength := congrArg List.length (Lexeme.used_append_rest f.rest)
  rw [List.length_append] at hlength
  rw [Frame.rest_past]
  omega

/-- A captured block uses its body and the brace behind it. -/
theorem rest_lt_of_capture {kind : BlockKind} (h : capture kind f s cs = .moved f' s') :
    f'.rest.length < cs.length := by
  unfold capture at h
  simp only at h
  split at h
  · next hread =>
    cases h
    have hlength := congrArg List.length (Capture.read_append hread)
    rw [List.length_append, List.length_cons] at hlength
    rw [Frame.rest_past]
    omega
  · cases h

theorem rest_lt_of_piece (hrest : f.rest = c :: cs) (h : piece f s c cs = .moved f' s') :
    f'.rest.length < f.rest.length := by
  unfold piece at h
  split at h
  · split at h
    · rw [hrest, List.length_cons]
      exact Nat.lt_succ_of_lt (rest_lt_of_capture h)
    · exact rest_lt_of_lexeme h
  · exact rest_lt_of_lexeme h

/-- A directive uses its line. -/
theorem rest_of_directive (h : directive includes depth f s cs = .moved f' s') :
    f'.rest = (Text.line cs).2 := by
  unfold directive at h
  simp only at h
  split at h <;> cases h
  exact Frame.rest_past ..

/-- A directive that enters a file uses its line as well. -/
theorem rest_of_directive_entered (h : directive includes depth f s cs = .entered child f' s') :
    f'.rest = (Text.line cs).2 ∧ depth < includeLimit := by
  unfold directive at h
  simp only at h
  split at h
  · cases h
  · next hobey =>
    cases h
    exact ⟨Frame.rest_past .., Directive.depth_lt_of_entered hobey⟩
  · cases h

/-- A move uses some of the text. -/
theorem rest_lt_of_moved (h : step includes depth f s = .moved f' s') :
    f'.rest.length < f.rest.length := by
  unfold step at h
  split at h
  · cases h
  · next c cs hrest =>
    have hline := Nat.lt_succ_of_le (line_rest_length_le cs)
    split at h
    · -- A line break.
      cases h
      simp [hrest]
    · split at h
      · -- A blank.
        cases h
        simp [hrest]
      · split at h
        · rw [hrest, rest_of_directive h]
          exact hline
        · split at h
          · exact rest_lt_of_piece hrest h
          · -- A line that is skipped.
            cases h
            rw [hrest, Frame.rest_past]
            exact hline

theorem lexeme_ne_entered : lexeme f s ≠ .entered child f' s' := by
  unfold lexeme
  simp only
  split <;> simp

theorem piece_ne_entered : piece f s c cs ≠ .entered child f' s' := by
  unfold piece
  split
  · split
    · unfold capture
      simp only
      split <;> simp
    · exact lexeme_ne_entered
  · exact lexeme_ne_entered

/-- A file is entered only below the greatest depth, and behind its directive. -/
theorem lt_of_entered (h : step includes depth f s = .entered child f' s') :
    f'.rest.length < f.rest.length ∧ depth < includeLimit := by
  unfold step at h
  split at h
  · cases h
  · next c cs hrest =>
    split at h
    · cases h
    · split at h
      · cases h
      · split at h
        · -- Only a directive enters a file, and its line has been used by then.
          obtain ⟨hused, hdepth⟩ := rest_of_directive_entered h
          rw [hrest, hused]
          exact ⟨Nat.lt_succ_of_le (line_rest_length_le cs), hdepth⟩
        · split at h
          · exact absurd h piece_ne_entered
          · cases h

/-! ## Whole texts -/

/-- A fault, the frames as it found them, innermost first, and what had been read. -/
structure Failure where
  fault : Fault
  frames : List Frame
  scan : Scan

/-- Reads a frame to its end, above the frames `below`. An included file is read to its end, by
`readFile`, before the frame goes on. -/
def finishBy (readFile : List Frame → Frame → Scan → Except Failure (Frame × Scan))
    (includes : Includes) (below : List Frame) (f : Frame) (s : Scan) :
    Except Failure (Frame × Scan) :=
  match _h : step includes below.length f s with
  | .finished => .ok (f, s)
  | .moved f' s' => finishBy readFile includes below f' s'
  | .entered child f' s' =>
    match readFile (f' :: below) child s' with
    | .error failure => .error failure
    | .ok (_, s'') =>
      finishBy readFile includes below f'
        { s'' with journal := s''.journal.leave, atLineStart := true }
  | .failed cause place f' s' => .error ⟨⟨f.file, place.line, place.col, cause⟩, f' :: below, s'⟩
termination_by f.rest.length
decreasing_by
  · exact rest_lt_of_moved _h
  · exact (lt_of_entered _h).1

/-- Reads a frame to its end where so many files may still be entered one within another. No file
is entered when none may. -/
def finishTo (includes : Includes) :
    Nat → List Frame → Frame → Scan → Except Failure (Frame × Scan)
  | 0 => finishBy (fun _ child s => .ok (child, s)) includes
  | room + 1 => finishBy (finishTo includes room) includes

/-- Reads a frame to its end, above the frames `below`. -/
def finish (includes : Includes) (below : List Frame) (f : Frame) (s : Scan) :
    Except Failure (Frame × Scan) :=
  finishTo includes (includeLimit - below.length) below f s

/-- A frame goes on by its moves, and behind an included file when that has been read to its end.
There is always room for a file that is entered. -/
theorem finish_eq (includes : Includes) (below : List Frame) (f : Frame) (s : Scan) :
    finish includes below f s =
      match step includes below.length f s with
      | .finished => .ok (f, s)
      | .moved f' s' => finish includes below f' s'
      | .entered child f' s' =>
        match finish includes (f' :: below) child s' with
        | .error failure => .error failure
        | .ok (_, s'') =>
          finish includes below f' { s'' with journal := s''.journal.leave, atLineStart := true }
      | .failed cause place f' s' =>
        .error ⟨⟨f.file, place.line, place.col, cause⟩, f' :: below, s'⟩ := by
  unfold finish
  cases hroom : includeLimit - below.length with
  | zero =>
    rw [finishTo, finishBy]
    split
    · next h => rw [h]
    · next h => rw [h]
    · next h =>
      have hdepth := (lt_of_entered h).2
      omega
    · next h => rw [h]
  | succ room =>
    rw [finishTo, finishBy]
    split
    · next h => rw [h]
    · next h => rw [h]
    · next h =>
      simp only [h, List.length_cons, Nat.sub_add_eq, hroom, Nat.add_one_sub_one]
    · next h => rw [h]

/-- Reads a frame and then those below it to their ends. -/
def finishAll (includes : Includes) (f : Frame) (below : List Frame) (s : Scan) :
    Except Failure (Frame × Scan) :=
  match finish includes below f s with
  | .error failure => .error failure
  | .ok (f', s') =>
    match below with
    | [] => .ok (f', s')
    | g :: gs =>
      finishAll includes g gs { s' with journal := s'.journal.leave, atLineStart := true }

/-- Reads a further source above the frames that faults have left. A frame stays at the bottom of
the stack. All conditionals must be closed in the end. -/
def process (includes : Includes) (source : String) (frames : List Frame) (s : Scan) :
    Except Failure (List Frame × Scan) :=
  match finishAll includes (Frame.ofText none source) frames { s with atLineStart := true } with
  | .error failure => .error failure
  | .ok (f, s') =>
    if s'.journal.hasConditional then
      .error ⟨⟨f.file, f.place.line, f.place.col, .unterminatedConditional⟩, [f], s'⟩
    else .ok ([f], s')

end Scan
end ShaderLang
