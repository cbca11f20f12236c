import ShaderLang.Proofs.Source.History
import ShaderLang.Proofs.Source.Turn
/-!
# Edits of the defines

Whatever a reading does, it changes the defines in lines that define or remove a name, and in no
other way. So the changes that were made before a point of a reading are a history of the defines
there, together with those that were made from outside before the reading.

## Main definitions

* `Scan.Point.edit?` — the change that the next move makes
* `Scan.Edits` — a number of moves, with the changes that they make
* `Scan.Between` — what is kept between two readings, with all changes so far

## Main results

* `Scan.Point.defines_of_turn` — a move makes no other change
* `Scan.Edits.defines` — nor does a run
* `Scan.Between.defines` — the defines are what all changes have made of them
-/

namespace ShaderLang

/-! ## Sound changes -/

/-- The text is a piece of a line in front of its comment. -/
structure Text.Inline (cs : List Char) : Prop where
  line : '\n' ∉ cs
  comment : ¬ ['/', '/'] <:+: cs

/-- A definition is of a name, and its expression is a piece of a line. -/
def Operation.Sound : Operation → Prop
  | define name expr => Text.isName name.toList = true ∧ ∀ e, expr = some e → Text.Inline e.toList
  | _ => True

namespace Directive

variable {includes : Includes} {depth : Nat} {j j' : Journal} {text : List Char}

theorem edit?_of_isConditional (h : isConditional text = true) : edit? text = none := by
  unfold isConditional at h
  unfold edit?
  cases hd : ofText? text with
  | none => rfl
  | some d =>
    rw [hd] at h
    cases d with
    | define | undefine => cases h
    | _ => rfl

/-- Where text is read, a line that is obeyed makes the change that it asks for. -/
theorem defines_of_obey (henabled : j.isEnabled = true)
    (h : obey includes depth j text = .went j') :
    j'.defines = (edit? text).toList.foldl Defines.operate j.defines := by
  cases htext : isConditional text with
  | true =>
    rw [eq_of_obey_conditional htext h, edit?_of_isConditional htext]
    rfl
  | false =>
    have hreads := @reads_obey includes depth j text htext henabled
    rw [h] at hreads
    cases hreads with
    | edited hop =>
      rw [hop]
      rfl

/-- Where no text is read, a line that is obeyed changes no defines. -/
theorem defines_of_obey_disabled (henabled : j.isEnabled = false)
    (h : obey includes depth j text = .went j') : j'.defines = j.defines := by
  cases htext : isConditional text with
  | true => rw [eq_of_obey_conditional htext h]
  | false =>
    rw [obey_of_disabled htext henabled] at h
    cases h
    rfl

end Directive

namespace Scan

/-- The change of the defines that the next move makes. -/
def Point.edit? (p : Point) : Option Operation :=
  match p.frame.rest with
  | '#' :: cs =>
    if p.scan.atLineStart && p.scan.journal.isEnabled then
      Directive.edit? (Text.trim (Directive.uncommented (Text.line cs).1))
    else none
  | _ => none

variable {includes : Includes} {p q r : Point} {ops more : List Operation}

theorem Point.edit?_eq_none (h : ∀ cs, p.frame.rest = '#' :: cs → p.scan.atLineStart = false) :
    p.edit? = none := by
  unfold edit?
  split
  · next cs hrest => simp [h cs hrest]
  · rfl

theorem Point.edit?_of_line {line rest : List Char} (hrest : p.frame.rest = '#' :: line ++ rest)
    (hstart : p.scan.atLineStart = true) (hline : '\n' ∉ line) (hend : AtLineEnd rest) :
    p.edit? = if p.scan.journal.isEnabled then
      Directive.edit? (Text.trim (Directive.uncommented line)) else none := by
  rw [List.cons_append] at hrest
  unfold edit?
  simp only [hrest, hstart, Bool.true_and, line_append_of_atLineEnd hline hend]

/-- A number sign that is no directive does not start its line. -/
theorem Occurs.atLineStart_eq_false {depth : Nat} {s : Scan} {used rest cs : List Char} {m : Move}
    (h : Occurs includes depth s used rest m) (hm : ∀ ds cs, m ≠ .obeyed ds cs)
    (hcs : used ++ rest = '#' :: cs) : s.atLineStart = false := by
  have htext {c : Char} (hc : StartsText s c) (hsign : c = '#') : s.atLineStart = false :=
    Bool.eq_false_iff.2 fun hstart => hc.not_directive ⟨hsign, hstart⟩
  cases h with
  | lineBreak => cases hcs
  | blank hgap => exact absurd (List.cons.inj hcs).1 (ne_of_isGap hgap rfl)
  | obeyed => exact absurd rfl (hm _ _)
  | skipped hc => exact htext hc (List.cons.inj hcs).1
  | lexeme hc => exact htext hc (List.cons.inj hcs).1
  | block => exact absurd (List.cons.inj hcs).1 (by decide)

theorem defines_apply_of_ne {m : Move} (hm : ∀ ds cs, m ≠ .obeyed ds cs) (f : Frame) (s : Scan) :
    (m.apply f s).journal.defines = s.journal.defines := by
  cases m with
  | obeyed ds cs => exact absurd rfl (hm ds cs)
  | lexeme t? => cases t? <;> rfl
  | _ => rfl

/-- A move makes the change that its line asks for, and no other. -/
theorem Point.defines_of_turn {entered? : Option String} (h : p.turn includes = .on entered? q) :
    q.scan.journal.defines = p.edit?.toList.foldl Defines.operate p.scan.journal.defines := by
  -- Where no line asks for a change, the defines stay.
  have hsame (hnone : p.edit? = none) (hq : q.scan.journal.defines = p.scan.journal.defines) :
      q.scan.journal.defines = p.edit?.toList.foldl Defines.operate p.scan.journal.defines := by
    rw [hnone, hq]
    rfl
  cases proceeds_of_turn h with
  | @uses used rest m hrest hoccurs =>
    by_cases hm : ∀ ds cs, m ≠ .obeyed ds cs
    · -- No directive is obeyed, and no number sign starts a line here.
      refine hsame (edit?_eq_none fun cs hcs => ?_) (defines_apply_of_ne hm _ _)
      exact hoccurs.atLineStart_eq_false hm (hrest.symm.trans hcs)
    · obtain ⟨ds, cs, rfl⟩ : ∃ ds cs, m = .obeyed ds cs := by simpa using hm
      cases hoccurs with
      | obeyed hstart hline hend hobey =>
        rw [edit?_of_line hrest hstart hline hend]
        cases henabled : p.scan.journal.isEnabled with
        | true => exact Directive.defines_of_obey henabled hobey
        | false => exact Directive.defines_of_obey_disabled henabled hobey
  | enters hrest henters hname =>
    -- A line that names a file asks for no change.
    obtain ⟨henabled, -⟩ := Directive.obey_eq_entered_iff.1 henters.obey
    refine hsame ?_ rfl
    rw [edit?_of_line hrest henters.start henters.not_mem henters.atLineEnd, henabled, if_pos rfl]
    exact Directive.edit?_of_included? hname
  | leaves hend =>
    refine hsame (edit?_eq_none fun cs hcs => ?_) rfl
    rw [hend] at hcs
    cases hcs

/-- A fault leaves the defines as they were. -/
theorem Fails.defines {f f' : Frame} {s s' : Scan} {cause : Cause} (h : Fails f s cause f' s') :
    s'.journal.defines = s.journal.defines := by
  cases h with
  | directive _ hrefusal => rw [hrefusal.journal]
  | lexeme | block => rfl

theorem Point.defines_of_stopped {failure : Failure} (h : p.turn includes = .stopped failure) :
    failure.scan.journal.defines = p.scan.journal.defines := by
  obtain ⟨cause, f, s, hfails, rfl⟩ := fails_of_turn h
  exact hfails.defines

/-! ## Runs -/

/-- Some moves lead from one point to another and make these changes. -/
inductive Edits (includes : Includes) : Point → List Operation → Point → Prop
  | stay {p : Point} : Edits includes p [] p
  | on {p q r : Point} {entered? : Option String} {ops : List Operation}
      (h : p.turn includes = .on entered? q) (hr : Edits includes q ops r) :
      Edits includes p (p.edit?.toList ++ ops) r

/-- A run makes the changes that its lines ask for, and no other. -/
theorem Edits.defines (h : Edits includes p ops q) :
    q.scan.journal.defines = ops.foldl Defines.operate p.scan.journal.defines := by
  induction h with
  | stay => rfl
  | on hturn _ ih => rw [List.foldl_append, ← Point.defines_of_turn hturn, ih]

/-! ## One reading after another -/

/-- The texts and the journal that a reading leaves, also when it fails. -/
def left : Except Failure (List Frame × Scan) → List Frame × Journal
  | .ok (frames, s) => (frames, s.journal)
  | .error failure => (failure.frames, failure.scan.journal)

/-- What is kept between two readings, with all changes so far. Names are defined from outside
between two readings, and the tokens may be taken away. -/
inductive Between (includes : Includes) : List Operation → List Frame → Journal → Prop
  | fresh : Between includes [] [] .empty
  | given {ops : List Operation} {frames : List Frame} {j : Journal} {name : String}
      {expr : Option String} (h : Between includes ops frames j)
      (hsound : (Operation.define name expr).Sound) :
      Between includes (ops ++ [.define name expr]) frames
        { j with defines := j.defines.define name expr }
  | read {ops more : List Operation} {frames : List Frame} {s : Scan} {source : String}
      {last : Point} (h : Between includes ops frames s.journal)
      (hrun : Edits includes (Point.startAbove frames s source) more last)
      (hends : Ends includes last (s.process includes source frames)) :
      Between includes (ops ++ more) (left (s.process includes source frames)).1
        (left (s.process includes source frames)).2

theorem Ends.defines {last : Point} {result : Except Failure (List Frame × Scan)}
    (h : Ends includes last result) :
    (left result).2.defines = last.scan.journal.defines := by
  cases h with
  | stopped h => exact Point.defines_of_stopped h
  | unclosed | read => rfl

theorem Edits.defines_after (h : Edits includes p more q)
    (hp : p.scan.journal.defines = Defines.after ops) :
    q.scan.journal.defines = Defines.after (ops ++ more) := by
  rw [h.defines, hp, Defines.after, Defines.after, List.foldl_append]

/-- The defines are what all changes have made of them. -/
theorem Between.defines {frames : List Frame} {j : Journal} (h : Between includes ops frames j) :
    j.defines = Defines.after ops := by
  induction h with
  | fresh => rfl
  | given _ _ ih => rw [Defines.after, List.foldl_append, ih]; rfl
  | read _ hrun hends ih => rw [hends.defines, hrun.defines_after ih]

end Scan
end ShaderLang
