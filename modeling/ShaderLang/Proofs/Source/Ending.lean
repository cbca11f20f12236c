import ShaderLang.Proofs.Source.Move
/-!
# Reading comes to an end

A source is read move by move, with the texts under reading on a stack. A move may put a whole file
on the stack, so that the text left to read can grow; but the stack has a greatest height, and a
text that is read on never grows. So every reading ends, whatever the files are and however they
include one another.

## Main definitions

* `Scan.Point` — the texts under reading and what has been read
* `Scan.Point.turn` — one move of a reading
* `Scan.Point.Proceeds` — a move uses text, enters a file or leaves a text for the one below it
* `Scan.Run` — a number of moves, with the files that they enter
* `Scan.Balanced` — the stack holds the files that were entered and not left
* `Scan.Point.ReadsTo` — a run goes as the reading of a text does

## Main results

* `Scan.Point.proceeds_of_turn` — what a move does that the reading goes on behind
* `Scan.Balanced.turn`, `Scan.Run.balanced` — a move, and so every run, keeps the balance
* `Scan.readsTo_finish`, `Scan.readsTo_finishAll` — reading a text to its end is a run, and so is
  reading those below it
* `Scan.Leads.to_last` — every run goes on to the last point
* `Scan.reading_ends` — a source is read in a bounded number of moves, never deeper than the limit,
  to what the reading gives
-/

namespace ShaderLang
namespace Scan

/-- A point of a reading: the innermost text, the texts below it, and what has been read. -/
structure Point where
  frame : Frame
  below : List Frame
  scan : Scan

/-- What a move comes to. -/
inductive Turn
  /-- The reading goes on, perhaps in a file that was entered. -/
  | on (entered? : Option String) (p : Point)
  /-- The lowest text is at its end. -/
  | ended
  | stopped (failure : Failure)

namespace Point

/-- The point in front of a source. -/
def start (defines : Defines) (source : String) : Point :=
  ⟨Frame.ofText none source, [], fresh defines⟩

/-- The point in front of a further source, above the texts that faults have left. -/
def startAbove (frames : List Frame) (s : Scan) (source : String) : Point :=
  ⟨Frame.ofText none source, frames, { s with atLineStart := true }⟩

/-- The number of texts above the lowest one. -/
def depth (p : Point) : Nat := p.below.length

/-- One move. A text that is at its end is left for the one below it. -/
def turn (includes : Includes) (p : Point) : Turn :=
  match step includes p.depth p.frame p.scan with
  | .moved f s => .on none ⟨f, p.below, s⟩
  | .entered child f s => .on child.file ⟨child, f :: p.below, s⟩
  | .finished =>
    match p.below with
    | [] => .ended
    | g :: gs => .on none ⟨g, gs, p.scan.resumed⟩
  | .failed cause place f s =>
    .stopped ⟨⟨p.frame.file, place.line, place.col, cause⟩, f :: p.below, s⟩

end Point

/-- What has been read, at the start of a file that is entered. -/
def inFile (s : Scan) (name : String) : Scan :=
  { s with
    journal := { s.journal with
      files := Journal.noteFile s.journal.files name
      pushes := s.journal.pushes + 1 }
    atLineStart := true }

/-- What a move does that the reading goes on behind: it uses text of the innermost frame, enters the
file that a line names, or leaves a text that is at its end for the one below it. -/
inductive Point.Proceeds (includes : Includes) (p : Point) : Option String → Point → Prop
  | uses {used rest : List Char} {m : Move} (hrest : p.frame.rest = used ++ rest)
      (h : Occurs includes p.depth p.scan used rest m) :
      Proceeds includes p none ⟨p.frame.past used rest, p.below, m.apply p.frame p.scan⟩
  | enters {line rest : List Char} {name text : String}
      (hrest : p.frame.rest = '#' :: line ++ rest)
      (h : Enters includes p.depth p.scan line rest (p.scan.inFile name).journal
        (Frame.ofText (some name) text))
      (hname : Directive.included? (Text.trim (Directive.uncommented line)) = some name)
      (htext : includes name = some text) (hdepth : p.depth < includeLimit) :
      Proceeds includes p (some name)
        ⟨Frame.ofText (some name) text, p.frame.past ('#' :: line) rest :: p.below,
          p.scan.inFile name⟩
  | leaves {g : Frame} {gs : List Frame} (hrest : p.frame.rest = []) (hbelow : p.below = g :: gs) :
      Proceeds includes p none ⟨g, gs, p.scan.resumed⟩

/-- So many moves lead from one point to another, and enter these files. -/
inductive Run (includes : Includes) : Nat → Point → List String → Point → Prop
  | stay {p : Point} : Run includes 0 p [] p
  | on {n : Nat} {p q r : Point} {entered? : Option String} {names : List String}
      (h : p.turn includes = .on entered? q) (hr : Run includes n q names r) :
      Run includes (n + 1) p (entered?.toList ++ names) r

variable {includes : Includes} {n k : Nat} {p q r : Point} {names others : List String}

/-! ## Moves -/

/-- Every move that the reading goes on behind does one of these things. -/
theorem Point.proceeds_of_turn {entered? : Option String} (h : p.turn includes = .on entered? q) :
    p.Proceeds includes entered? q := by
  unfold Point.turn at h
  -- One case for each result of a step.
  split at h
  · next f s hstep =>
    obtain ⟨used, rest, m, hrest, hoccurs, rfl, rfl⟩ := step_eq_moved_iff.1 hstep
    obtain ⟨rfl, rfl⟩ := Turn.on.inj h
    exact .uses hrest hoccurs
  · next child f s hstep =>
    obtain ⟨line, rest, j, hrest, henters, rfl, rfl⟩ := step_eq_entered_iff.1 hstep
    obtain ⟨-, name, hname, henter⟩ := Directive.obey_eq_entered_iff.1 henters.obey
    obtain ⟨hdepth, text, htext, rfl, rfl⟩ := Journal.enter_eq_ok.1 henter
    obtain ⟨rfl, rfl⟩ := Turn.on.inj h
    exact .enters hrest henters hname htext hdepth
  · next hstep =>
    split at h
    · cases h
    · next hbelow =>
      obtain ⟨rfl, rfl⟩ := Turn.on.inj h
      exact .leaves (step_eq_finished_iff.1 hstep) hbelow
  · cases h

/-! ## Runs -/

theorem Run.trans (h : Run includes n p names q) (h' : Run includes k q others r) :
    Run includes (n + k) p (names ++ others) r := by
  induction h with
  | stay => simpa using h'
  | @on n p q r' entered? names hturn _ ih =>
    rw [Nat.add_right_comm, List.append_assoc]
    exact .on hturn (ih h')

/-- Some run leads from one point to another. -/
def Leads (includes : Includes) (p q : Point) : Prop := ∃ n names, Run includes n p names q

theorem Leads.refl (p : Point) : Leads includes p p := ⟨0, [], .stay⟩

theorem Leads.trans (h : Leads includes p q) (h' : Leads includes q r) : Leads includes p r := by
  obtain ⟨n, names, hrun⟩ := h
  obtain ⟨k, others, hrun'⟩ := h'
  exact ⟨n + k, _, hrun.trans hrun'⟩

theorem Leads.after {entered? : Option String} (h : Leads includes q r)
    (hturn : p.turn includes = .on entered? q) : Leads includes p r := by
  obtain ⟨n, names, hrun⟩ := h
  exact ⟨n + 1, _, .on hturn hrun⟩

/-- A move comes to one thing, so that no run goes beyond a point from which there is no move. -/
theorem Run.le_of_not_on (h : Run includes n p names r)
    (hr : ∀ entered? q, r.turn includes ≠ .on entered? q) (h' : Run includes k p others q) :
    k ≤ n := by
  induction h generalizing k others with
  | stay =>
    cases h' with
    | stay => exact Nat.le_refl 0
    | on hturn => exact absurd hturn (hr _ _)
  | on hturn _ ih =>
    cases h' with
    | stay => exact Nat.zero_le _
    | on hturn' hrun' =>
      obtain ⟨-, rfl⟩ := Turn.on.inj (hturn.symm.trans hturn')
      exact Nat.succ_le_succ (ih hr hrun')

/-! ## What every point keeps -/

/-- The stack holds the files that were entered and not left, no more than the limit, and every file
that was entered is listed once, in order of first entry. -/
structure Balanced (names : List String) (p : Point) : Prop where
  depth_le : p.depth ≤ includeLimit
  pushes : p.scan.journal.pushes = names.length
  balance : p.scan.journal.pushes = p.scan.journal.pops + p.depth
  files : p.scan.journal.files = names.eraseDups

theorem balanced_start (defines : Defines) (source : String) :
    Balanced [] (Point.start defines source) :=
  ⟨Nat.zero_le _, rfl, rfl, rfl⟩

theorem noteFile_eraseDups (names : List String) (name : String) :
    Journal.noteFile names.eraseDups name = (names ++ [name]).eraseDups := by
  rw [Journal.noteFile, List.eraseDups_append]
  by_cases h : name ∈ names
  · rw [if_pos (List.mem_eraseDups.2 h)]
    simp [List.removeAll, h]
  · rw [if_neg (mt List.mem_eraseDups.1 h)]
    simp [List.removeAll, h, List.eraseDups_cons]

theorem pops_apply (m : Move) (f : Frame) (s : Scan) :
    (m.apply f s).journal.pops = s.journal.pops := by
  cases m with
  | lexeme t? => cases t? <;> rfl
  | _ => rfl

theorem files_apply (m : Move) (f : Frame) (s : Scan) :
    (m.apply f s).journal.files = s.journal.files := by
  cases m with
  | lexeme t? => cases t? <;> rfl
  | _ => rfl

/-- A move keeps the balance. -/
theorem Balanced.turn {entered? : Option String} (h : Balanced names p)
    (hturn : p.turn includes = .on entered? q) : Balanced (names ++ entered?.toList) q := by
  obtain ⟨hdepth, hpushes, hbalance, hfiles⟩ := h
  cases Point.proceeds_of_turn hturn with
  | uses =>
    rw [Option.toList_none, List.append_nil]
    refine ⟨hdepth, ?_, ?_, ?_⟩
    · exact (pushes_apply ..).trans hpushes
    · rw [pushes_apply, pops_apply]
      exact hbalance
    · exact (files_apply ..).trans hfiles
  | @enters _ _ name _ _ _ _ _ hlt =>
    refine ⟨hlt, ?_, ?_, ?_⟩
    · simp [inFile, hpushes]
    · simp only [inFile, hbalance, Point.depth, List.length_cons]
      omega
    · simp only [inFile, hfiles]
      exact noteFile_eraseDups names name
  | leaves _ hbelow =>
    simp only [Point.depth, hbelow, List.length_cons] at hdepth hbalance
    rw [Option.toList_none, List.append_nil]
    refine ⟨Nat.le_of_succ_le hdepth, hpushes, ?_, hfiles⟩
    simp only [resumed, Journal.leave, Point.depth]
    omega

/-- Every run keeps the balance. -/
theorem Run.balanced (h : Run includes n p others q) (hp : Balanced names p) :
    Balanced (names ++ others) q := by
  induction h generalizing names with
  | stay => simpa using hp
  | on hturn _ ih =>
    rw [← List.append_assoc]
    exact ih (hp.turn hturn)

/-! ## Reading is a run -/

/-- How the reading of a text goes that starts at a point, above the texts `below`: a run leads to
the end of that text, or to the point where it stops. -/
def Point.ReadsTo (includes : Includes) (below : List Frame) (p : Point) :
    Except Failure (Frame × Scan) → Prop
  | .ok (g, t) => g.rest = [] ∧ Leads includes p ⟨g, below, t⟩
  | .error failure => ∃ q, q.turn includes = .stopped failure ∧ Leads includes p q

theorem Leads.readsTo {below : List Frame} {result : Except Failure (Frame × Scan)}
    (h : Leads includes p q) (hq : q.ReadsTo includes below result) :
    p.ReadsTo includes below result := by
  cases result with
  | error failure =>
    obtain ⟨r, hr, hrun⟩ := hq
    exact ⟨r, hr, h.trans hrun⟩
  | ok r => exact ⟨hq.1, h.trans hq.2⟩

/-- A text that is at its end is left for the one below it. -/
theorem leads_of_rest_eq_nil {f g : Frame} {below : List Frame} {s : Scan} (h : f.rest = []) :
    Leads includes ⟨f, g :: below, s⟩ ⟨g, below, s.resumed⟩ := by
  have hturn : Point.turn includes ⟨f, g :: below, s⟩ = .on none ⟨g, below, s.resumed⟩ := by
    simp only [Point.turn, step_eq_finished_iff.2 h, resumed]
  exact (Leads.refl _).after hturn

theorem readsTo_finish (includes : Includes) (below : List Frame) (f : Frame) (s : Scan) :
    Point.ReadsTo includes below ⟨f, below, s⟩ (finish includes below f s) := by
  induction below, f, s using step_induction includes with
  | finished below f s hstep =>
    rw [finish_eq, hstep]
    exact ⟨step_eq_finished_iff.1 hstep, .refl _⟩
  | moved below f s f' s' hstep ih =>
    have hturn : Point.turn includes ⟨f, below, s⟩ = .on none ⟨f', below, s'⟩ := by
      simp only [Point.turn, Point.depth, hstep]
    rw [finish_eq, hstep]
    exact ((Leads.refl _).after hturn).readsTo ih
  | entered below f s child f' s' hstep ihchild ih =>
    have hturn : Point.turn includes ⟨f, below, s⟩ = .on child.file ⟨child, f' :: below, s'⟩ := by
      simp only [Point.turn, Point.depth, hstep]
    rw [finish_eq, hstep]
    dsimp only
    cases hchild : finish includes (f' :: below) child s' with
    | error failure =>
      rw [hchild] at ihchild
      exact ((Leads.refl _).after hturn).readsTo ihchild
    | ok r =>
      rw [hchild] at ihchild
      obtain ⟨hend, hinside⟩ := ihchild
      exact ((hinside.trans (leads_of_rest_eq_nil hend)).after hturn).readsTo (ih r.2.resumed)
  | failed below f s cause place f' s' hstep =>
    rw [finish_eq, hstep]
    refine ⟨⟨f, below, s⟩, ?_, .refl _⟩
    simp only [Point.turn, Point.depth, hstep]

/-- What the reading of a source gives at the last point of its run. -/
inductive Ends (includes : Includes) (last : Point) : Except Failure (List Frame × Scan) → Prop
  | stopped {failure : Failure} (h : last.turn includes = .stopped failure) :
      Ends includes last (.error failure)
  /-- All texts are read, but a conditional is open. -/
  | unclosed (h : last.turn includes = .ended) (hopen : last.scan.journal.hasConditional = true) :
      Ends includes last (.error ⟨⟨last.frame.file, last.frame.place.line, last.frame.place.col,
        .unterminatedConditional⟩, [last.frame], last.scan⟩)
  | read (h : last.turn includes = .ended) (hdepth : last.depth = 0)
      (hclosed : last.scan.journal.hasConditional = false) :
      Ends includes last (.ok ([last.frame], last.scan))

theorem Ends.not_on {last : Point} {result : Except Failure (List Frame × Scan)}
    (h : Ends includes last result) (entered? : Option String) (q : Point) :
    last.turn includes ≠ .on entered? q := by
  cases h with
  | stopped h | unclosed h | read h => simp [h]

/-- Reading a text and those below it leads to the end of the lowest one. -/
theorem readsTo_finishAll (includes : Includes) (below : List Frame) (f : Frame) (s : Scan) :
    Point.ReadsTo includes [] ⟨f, below, s⟩ (finishAll includes f below s) := by
  induction below generalizing f s with
  | nil =>
    have hreads := readsTo_finish includes [] f s
    rw [finishAll]
    cases hfinish : finish includes [] f s with
    | error failure | ok r =>
      rw [hfinish] at hreads
      exact hreads
  | cons g gs ih =>
    have hreads := readsTo_finish includes (g :: gs) f s
    rw [finishAll]
    cases hfinish : finish includes (g :: gs) f s with
    | error failure =>
      rw [hfinish] at hreads
      exact hreads
    | ok r =>
      rw [hfinish] at hreads
      obtain ⟨hend, hinside⟩ := hreads
      exact (hinside.trans (leads_of_rest_eq_nil hend)).readsTo (ih g r.2.resumed)

/-- A further source is read by a run, above the texts that faults have left. -/
theorem exists_leads_ends_above (includes : Includes) (frames : List Frame) (s : Scan)
    (source : String) :
    ∃ last, Ends includes last (s.process includes source frames) ∧
      Leads includes (Point.startAbove frames s source) last := by
  have hreads := readsTo_finishAll includes frames (Frame.ofText none source)
    { s with atLineStart := true }
  rw [process]
  cases hall : finishAll includes (Frame.ofText none source) frames { s with atLineStart := true }
    with
  | error failure =>
    rw [hall] at hreads
    obtain ⟨q, hq, hrun⟩ := hreads
    exact ⟨q, .stopped hq, hrun⟩
  | ok r =>
    rw [hall] at hreads
    obtain ⟨hend, hrun⟩ := hreads
    have hturn : Point.turn includes ⟨r.1, [], r.2⟩ = .ended := by
      simp only [Point.turn, step_eq_finished_iff.2 hend]
    refine ⟨⟨r.1, [], r.2⟩, ?_, hrun⟩
    dsimp only
    split
    · next hopen => exact .unclosed hturn hopen
    · next hclosed => exact .read hturn rfl (Bool.eq_false_iff.2 hclosed)

theorem exists_leads_ends (includes : Includes) (defines : Defines) (source : String) :
    ∃ last, Ends includes last ((fresh defines).process includes source []) ∧
      Leads includes (Point.start defines source) last :=
  exists_leads_ends_above includes [] (fresh defines) source

/-- All runs to a last point go on from any point on the way. -/
theorem Leads.to_last {last : Point} (h : Leads includes p q) (hlast : Leads includes p last)
    (hnot : ∀ entered? r, last.turn includes ≠ .on entered? r) : Leads includes q last := by
  obtain ⟨n, names, hrun⟩ := h
  induction hrun with
  | stay => exact hlast
  | on hturn _ ih =>
    refine ih ?_
    obtain ⟨k, others, hrun'⟩ := hlast
    cases hrun' with
    | stay => exact absurd hturn (hnot _ _)
    | on hturn' hrun' =>
      obtain ⟨-, rfl⟩ := Turn.on.inj (hturn.symm.trans hturn')
      exact ⟨_, _, hrun'⟩

/-- A reading that gets to a point where it stops fails there. -/
theorem process_eq_error_of_stopped {source : String} {frames : List Frame} {s : Scan}
    {failure : Failure}
    (h : Leads includes (Point.startAbove frames s source) p)
    (hstop : p.turn includes = .stopped failure) :
    s.process includes source frames = .error failure := by
  obtain ⟨last, hends, hlast⟩ := exists_leads_ends_above includes frames s source
  obtain ⟨n, names, hrun⟩ := h.to_last hlast hends.not_on
  generalize s.process includes source frames = result at hends
  cases hrun with
  | on hturn =>
    rw [hstop] at hturn
    cases hturn
  | stay =>
    cases hends with
    | stopped h => rw [hstop] at h; cases h; rfl
    | unclosed h | read h => rw [hstop] at h; cases h

/-- Reading ends: whatever files there are, a source is read in a bounded number of moves, to a last
point from which there is no other move and at which the reading gives a value or a fault. No point
on the way lies deeper than the limit. If a value is given, all files have been left, all
conditionals are closed, and the files that were entered are listed once each, in order of first
entry. -/
theorem reading_ends (includes : Includes) (defines : Defines) (source : String) :
    ∃ moves names last, Run includes moves (Point.start defines source) names last ∧
      Ends includes last ((fresh defines).process includes source []) ∧
      (∀ n entered p, Run includes n (Point.start defines source) entered p →
        n ≤ moves ∧ Balanced entered p) ∧
      ∀ frames t, (fresh defines).process includes source [] = .ok (frames, t) →
        last.depth = 0 ∧ frames = [last.frame] ∧ t = last.scan ∧
          t.journal.pushes = t.journal.pops ∧ t.journal.hasConditional = false ∧
          t.journal.files = names.eraseDups := by
  obtain ⟨last, hends, moves, names, hrun⟩ := exists_leads_ends includes defines source
  have hbalanced : ∀ {n entered p}, Run includes n (Point.start defines source) entered p →
      Balanced entered p := fun h => h.balanced (balanced_start defines source)
  refine ⟨moves, names, last, hrun, hends, fun n entered p h => ?_, fun frames t h => ?_⟩
  · exact ⟨hrun.le_of_not_on hends.not_on h, hbalanced h⟩
  · rw [h] at hends
    cases hends with
    | read _ hdepth hclosed =>
      have hlast := hbalanced hrun
      refine ⟨hdepth, rfl, rfl, ?_, hclosed, hlast.files⟩
      rw [hlast.balance, hdepth, Nat.add_zero]

end Scan
end ShaderLang
