import Mathlib.Logic.Relation
import ShaderLang.Proofs.Outcome
import ShaderLang.Proofs.Source.Move
/-!
# Inclusion is textual

A run of a source is also a run of the source in which the text of a file stands for the directive
that includes it. The places and the files of the tokens are other ones, and so are the files that
are counted; all else is the same.

A directive may be reached several times, in files that are included several times, and it need not
be obeyed every time. So it is not a file that is changed but the source: where the directive stands
in an included file, the text of that file stands in the source as well.

## Main definitions

* `Scan.Reads` — a frame is read up to a point, and the text that was read with all files expanded
* `Scan.Executes` — a directive that includes a file is executed
* `Scan.Inlined`, `Scan.Inlines` — an executed directive is replaced by the text of its file
* `Scan.Alike` — the same has been read, up to places and files
* `Scan.Trails` — one run trails another one that has no more to read in the same frame

## Main results

* `Scan.Trails.reads` — a run can be repeated in front of the end of a line
* `Scan.Inlined.reads` — a frame is read alike with a directive replaced
* `Scan.inlined_reads_alike` — a source is read alike with directives replaced, and there is exactly
  one source in which none is left
-/

namespace ShaderLang
namespace Scan

/-- The scan in front of a file that is entered. -/
def entering (s : Scan) (j : Journal) : Scan := { s with journal := j, atLineStart := true }

/-- A frame that lies `depth` deep is read up to a point. With all files expanded, `text` is what
was read. -/
inductive Reads (includes : Includes) : Nat → Frame → Scan → List Char → Frame → Scan → Prop
  | stay {depth : Nat} {f : Frame} {s : Scan} : Reads includes depth f s [] f s
  | moved {depth : Nat} {f g : Frame} {s t : Scan} {used rest text : List Char} {m : Move}
      (hrest : f.rest = used ++ rest) (ho : Occurs includes depth s used rest m)
      (h : Reads includes depth (f.past used rest) (m.apply f s) text g t) :
      Reads includes depth f s (used ++ text) g t
  | entered {depth : Nat} {f child c g : Frame} {s t u : Scan} {line rest inner text : List Char}
      {j : Journal} (hrest : f.rest = '#' :: line ++ rest)
      (he : Enters includes depth s line rest j child)
      (hc : Reads includes (depth + 1) child (s.entering j) inner c u) (hend : c.rest = [])
      (h : Reads includes depth (f.past ('#' :: line) rest) u.resumed text g t) :
      Reads includes depth f s (inner ++ text) g t

variable {includes includes' : Includes} {depth depth' : Nat} {f g f' g' child F : Frame}
  {s t s' t' S : Scan} {used rest tail text text' line : List Char} {m : Move} {j : Journal}

/-! ## Readings -/

theorem Reads.trans (h : Reads includes depth f s text g t)
    (h' : Reads includes depth g t text' g' t') :
    Reads includes depth f s (text ++ text') g' t' := by
  induction h with
  | stay => exact h'
  | moved hrest ho _ ih =>
    rw [List.append_assoc]
    exact .moved hrest ho (ih h')
  | entered hrest he hc hend _ _ ih =>
    rw [List.append_assoc]
    exact .entered hrest he hc hend (ih h')

theorem Finishes.exists_reads (h : Finishes includes depth f s g t) :
    ∃ text, Reads includes depth f s text g t ∧ g.rest = [] := by
  induction h with
  | done hrest => exact ⟨[], .stay, hrest⟩
  | moved hstep _ ih =>
    obtain ⟨used, rest, m, hrest, ho, rfl, rfl⟩ := step_eq_moved_iff.1 hstep
    obtain ⟨text, hreads, hend⟩ := ih
    exact ⟨_, .moved hrest ho hreads, hend⟩
  | entered hstep _ _ ihc ih =>
    obtain ⟨line, rest, j, hrest, he, rfl, rfl⟩ := step_eq_entered_iff.1 hstep
    obtain ⟨inner, hc, hcend⟩ := ihc
    obtain ⟨text, hreads, hend⟩ := ih
    exact ⟨_, .entered hrest he hc hcend hreads, hend⟩

theorem Reads.finishes (h : Reads includes depth f s text g t) (hend : g.rest = []) :
    Finishes includes depth f s g t := by
  induction h with
  | stay => exact .done hend
  | moved hrest ho _ ih => exact .moved (step_of_occurs hrest ho) (ih hend)
  | entered hrest he _ hcend _ ihc ih =>
    exact .entered (step_of_enters hrest he) (ihc hcend) (ih hend)

/-- Nothing is read behind the end. -/
theorem Reads.eq_of_rest_eq_nil (h : Reads includes depth f s text g t) (hf : f.rest = []) :
    text = [] ∧ g = f ∧ t = s := by
  cases h with
  | stay => exact ⟨rfl, rfl, rfl⟩
  | moved hrest ho =>
    rw [hf] at hrest
    exact absurd (List.append_eq_nil_iff.1 hrest.symm).1 ho.used_ne_nil
  | entered hrest =>
    rw [hf] at hrest
    cases hrest

/-- A reading to the end goes through every point that is reached. -/
theorem Reads.resume (h : Reads includes depth f s text g t)
    (h' : Reads includes depth f s text' g' t') (hend : g'.rest = []) :
    ∃ back, text' = text ++ back ∧ Reads includes depth g t back g' t' := by
  induction h generalizing text' g' t' with
  | stay => exact ⟨text', rfl, h'⟩
  | moved hrest ho _ ih =>
    -- Steps are functions, so that both readings make the same one.
    have hstep := step_of_occurs hrest ho
    cases h' with
    | stay =>
      rw [hend] at hrest
      exact absurd (List.append_eq_nil_iff.1 hrest.symm).1 ho.used_ne_nil
    | moved hrest' ho' h' =>
      obtain ⟨hframe, hscan⟩ := Step.moved.inj (hstep.symm.trans (step_of_occurs hrest' ho'))
      obtain rfl := congrArg Frame.rest hframe
      obtain rfl := List.append_cancel_right (hrest.symm.trans hrest')
      rw [← hscan] at h'
      obtain ⟨back, rfl, hback⟩ := ih h' hend
      exact ⟨back, (List.append_assoc _ _ _).symm, hback⟩
    | entered hrest' he' => cases hstep.symm.trans (step_of_enters hrest' he')
  | entered hrest he hc hcend _ ihc ih =>
    have hstep := step_of_enters hrest he
    cases h' with
    | stay =>
      rw [hend] at hrest
      cases hrest
    | moved hrest' ho' => cases hstep.symm.trans (step_of_occurs hrest' ho')
    | entered hrest' he' hc' hcend' h' =>
      obtain ⟨rfl, hframe, hscan⟩ := Step.entered.inj (hstep.symm.trans (step_of_enters hrest' he'))
      obtain rfl := congrArg Frame.rest hframe
      obtain rfl := List.cons.inj (List.append_cancel_right (hrest.symm.trans hrest')) |>.2
      obtain rfl := congrArg Scan.journal hscan
      -- The file is read to its end in both, so that nothing is left of the second reading.
      obtain ⟨back, rfl, hback⟩ := ihc hc' hcend'
      obtain ⟨rfl, rfl, rfl⟩ := hback.eq_of_rest_eq_nil hcend
      obtain ⟨back, rfl, hback⟩ := ih h' hend
      exact ⟨back, by simp, hback⟩

/-! ## Scans that have read the same -/

/-- The same has been read, up to places and files. -/
structure Alike (s S : Scan) : Prop where
  recent : S.recent.map PlacedToken.token = s.recent.map PlacedToken.token
  defines : S.journal.defines = s.journal.defines
  conditionals : S.journal.conditionals = s.journal.conditionals
  blocks : S.journal.blocks = s.journal.blocks

theorem Alike.refl (s : Scan) : Alike s s := ⟨rfl, rfl, rfl, rfl⟩

theorem Alike.trans {s S T : Scan} (h : Alike s S) (h' : Alike S T) : Alike s T :=
  ⟨h'.recent.trans h.recent, h'.defines.trans h.defines, h'.conditionals.trans h.conditionals,
    h'.blocks.trans h.blocks⟩

theorem Alike.isEnabled (h : Alike s S) : S.journal.isEnabled = s.journal.isEnabled := by
  rw [Journal.isEnabled, Journal.isEnabled, h.conditionals]

theorem Alike.blockKind? (h : Alike s S) : S.blockKind? = s.blockKind? := by
  unfold Scan.blockKind?
  rw [List.map_take, List.map_take, h.recent]

theorem Alike.apply (h : Alike s S) (m : Move) : Alike (m.apply f s) (m.apply F S) := by
  obtain ⟨hrecent, hdefines, hconditionals, hblocks⟩ := h
  refine ⟨?_, defines_apply m hdefines, ?_, blocks_apply m hdefines hblocks⟩
  · cases m with
    | lexeme t? =>
      cases t? with
      | none => exact hrecent
      | some t => exact congrArg (t :: ·) hrecent
    | block kind body =>
      have hindex := nextIndex_congr hblocks kind
      simp only [Move.apply, push, List.map_cons, hrecent, hindex]
    | _ => exact hrecent
  · cases m with
    | obeyed => rfl
    | lexeme t? => cases t? <;> exact hconditionals
    | _ => exact hconditionals

/-- A move occurs again where the same has been read. -/
theorem Occurs.of_alike (h : Occurs includes depth s used rest m) (halike : Alike s S)
    (hstart : m ≠ .lineBreak → S.atLineStart = s.atLineStart) (htail : Follows rest tail) :
    Occurs includes' depth' S used tail m := by
  by_cases hbreak : m = .lineBreak
  · subst hbreak
    cases h
    exact .lineBreak
  · by_cases hm : ∃ ds cs, m = .obeyed ds cs
    · obtain ⟨ds, cs, rfl⟩ := hm
      cases h with
      | obeyed hflag hline hend hobey =>
        have hobey' := Directive.obey_eq_went_congr hobey includes' depth' halike.defines
          halike.conditionals
        exact .obeyed ((hstart hbreak).trans hflag) hline (htail.atLineEnd hend) hobey'
    · have hm : ∀ ds cs, m ≠ .obeyed ds cs := fun ds cs h => hm ⟨ds, cs, h⟩
      exact h.congr hm htail (hstart hbreak) halike.isEnabled halike.blockKind?

/-- An entered file is read with what has been read in front of its directive. -/
theorem Enters.alike (h : Enters includes depth s line rest j child) : Alike (s.entering j) s := by
  obtain ⟨-, name, -, henter⟩ := Directive.obey_eq_entered_iff.1 h.obey
  obtain ⟨-, text, -, rfl, -⟩ := Journal.enter_eq_ok.1 henter
  exact ⟨rfl, rfl, rfl, rfl⟩

/-- A file is entered again where the same has been read, if the text lies no deeper. -/
theorem Enters.of_alike (h : Enters includes depth s line rest j child) (halike : Alike s S)
    (hstart : S.atLineStart = s.atLineStart) (hdepth : depth' ≤ depth) (htail : AtLineEnd tail) :
    ∃ k, Enters includes depth' S line tail k child ∧ Alike (s.entering j) (S.entering k) := by
  obtain ⟨henabled, name, hname, henter⟩ := Directive.obey_eq_entered_iff.1 h.obey
  obtain ⟨hlt, text, htext, rfl, rfl⟩ := Journal.enter_eq_ok.1 henter
  -- Less deep, the greatest depth is not reached either.
  have henter' : S.journal.enter includes depth' name = .ok
      ({ S.journal with
          files := Journal.noteFile S.journal.files name, pushes := S.journal.pushes + 1 },
        Frame.ofText (some name) text) :=
    Journal.enter_eq_ok.2 ⟨Nat.lt_of_le_of_lt hdepth hlt, text, htext, rfl, rfl⟩
  have hobey := Directive.obey_eq_entered_iff.2
    ⟨halike.isEnabled.trans henabled, name, hname, henter'⟩
  refine ⟨_, ⟨hstart.trans h.start, h.not_mem, htail, hobey⟩, ?_⟩
  exact ⟨halike.recent, halike.defines, halike.conditionals, halike.blocks⟩

/-! ## Runs that trail -/

/-- The run in `F` trails the one in `f`: both have read the same, and in `F` the text `tail` stands
behind what is left of `f`. The run in `f` has entered `k` files more. -/
structure Trails (k : Nat) (tail : List Char) (f : Frame) (s : Scan) (F : Frame) (S : Scan) : Prop
    where
  rest : F.rest = f.rest ++ tail
  alike : Alike s S
  pushes : s.journal.pushes = S.journal.pushes + k
  /-- At the end of a line it does not matter whether the next text would start it. -/
  start : S.atLineStart = s.atLineStart ∨ AtLineEnd F.rest

theorem Trails.moved {k : Nat} (h : Trails k tail f s F S) (htail : AtLineEnd tail)
    (hrest : f.rest = used ++ rest) (ho : Occurs includes depth s used rest m) :
    F.rest = used ++ (rest ++ tail) ∧ Occurs includes depth' S used (rest ++ tail) m ∧
      Trails k tail (f.past used rest) (m.apply f s) (F.past used (rest ++ tail))
        (m.apply F S) := by
  have hrest' : F.rest = used ++ (rest ++ tail) := by
    rw [h.rest, hrest, List.append_assoc]
  have ho' : Occurs includes depth s used (rest ++ tail) m :=
    ho.of_alike (Alike.refl s) (fun _ => rfl) (Follows.append htail)
  -- Where the flags differ a line ends, and only its break can come next.
  have hstart : m ≠ .lineBreak → S.atLineStart = s.atLineStart := by
    intro hm
    refine h.start.resolve_right fun hend => hm (ho'.eq_lineBreak ?_)
    rwa [hrest'] at hend
  refine ⟨hrest', ho.of_alike h.alike hstart (Follows.append htail), rfl, h.alike.apply m, ?_, ?_⟩
  · rw [pushes_apply, pushes_apply]
    exact h.pushes
  · by_cases hm : m = .lineBreak
    · subst hm
      exact .inl rfl
    · exact .inl (atLineStart_apply m (hstart hm))

/-- A reading can be repeated in front of the end of a line, in a text that lies no deeper. -/
theorem Trails.reads {k : Nat} (h : Reads includes depth f s text g t) (hT : Trails k tail f s F S)
    (htail : AtLineEnd tail) (hdepth : depth' ≤ depth) :
    ∃ G T, Reads includes depth' F S text G T ∧ Trails k tail g t G T := by
  induction h generalizing F S tail depth' with
  | stay => exact ⟨F, S, .stay, hT⟩
  | @moved depth f g s t used rest text m hrest ho _ ih =>
    obtain ⟨hrest', ho', hmoved⟩ := hT.moved htail hrest ho
    obtain ⟨G, T, hreads, hend⟩ := ih hmoved htail hdepth
    exact ⟨G, T, .moved hrest' ho' hreads, hend⟩
  | @entered depth f child c g s t u line rest inner text j hrest he hc hcend _ ihc ih =>
    have hrest' : F.rest = '#' :: line ++ (rest ++ tail) := by
      rw [hT.rest, hrest, List.append_assoc]
    have hstart : S.atLineStart = s.atLineStart := by
      refine hT.start.resolve_right fun hend => ?_
      rw [hrest', List.cons_append] at hend
      exact absurd (atLineEnd_cons_iff.1 hend) (by decide)
    have hend : AtLineEnd (rest ++ tail) := (Follows.append htail).atLineEnd he.atLineEnd
    obtain ⟨k', he', halike⟩ := he.of_alike hT.alike hstart hdepth hend
    -- The file is the same one in both runs, and nothing stands behind it.
    have hchild : Trails k [] child (s.entering j) child (S.entering k') := by
      refine ⟨(List.append_nil _).symm, halike, ?_, .inl rfl⟩
      have hpushes := hT.pushes
      have hj := he.pushes
      have hk := he'.pushes
      change j.pushes = k'.pushes + k
      omega
    obtain ⟨C, U, hc', hC⟩ := ihc hchild atLineEnd_nil (Nat.succ_le_succ hdepth)
    have hCend : C.rest = [] := by rw [hC.rest, hcend, List.append_nil]
    have hresumed : Trails k tail (f.past ('#' :: line) rest) u.resumed
        (F.past ('#' :: line) (rest ++ tail)) U.resumed :=
      ⟨rfl, ⟨hC.alike.recent, hC.alike.defines, hC.alike.conditionals, hC.alike.blocks⟩, hC.pushes,
        .inl rfl⟩
    obtain ⟨G, T, hreads, hG⟩ := ih hresumed htail hdepth
    exact ⟨G, T, .entered hrest' he' hc' hCend hreads, hG⟩

/-! ## Directives that are executed -/

/-- The text `pre` of a frame is read, and then the directive `#line` enters the file `child`. -/
structure Executes (includes : Includes) (depth : Nat) (f : Frame) (s : Scan)
    (pre line rest : List Char) (f' : Frame) (s' : Scan) (j : Journal) (child : Frame) : Prop where
  text_eq : f.rest = pre ++ f'.rest
  reads : ∃ front, Reads includes depth f s front f' s'
  rest_eq : f'.rest = '#' :: line ++ rest
  enters : Enters includes depth s' line rest j child

/-- An executed directive of a frame is replaced by the text of its file, or by a text in which an
executed directive of that file is replaced. -/
inductive Inlined (includes : Includes) : Nat → Frame → Scan → List Char → Prop
  | here {depth : Nat} {f f' child : Frame} {s s' : Scan} {pre line rest : List Char} {j : Journal}
      (h : Executes includes depth f s pre line rest f' s' j child) :
      Inlined includes depth f s (pre ++ (child.rest ++ rest))
  | inside {depth : Nat} {f f' child : Frame} {s s' : Scan} {pre line rest text : List Char}
      {j : Journal} (h : Executes includes depth f s pre line rest f' s' j child)
      (hin : Inlined includes (depth + 1) child (s'.entering j) text) :
      Inlined includes depth f s (pre ++ (text ++ rest))

/-- A move occurs in front of every text if another text may start a line behind it. -/
theorem Occurs.of_atLineStart (h : Occurs includes depth s used rest m)
    (hstart : (m.apply f s).atLineStart = true) (hrest : ¬ AtLineEnd rest) (tail : List Char) :
    Occurs includes depth s used tail m := by
  cases h with
  | lineBreak => exact .lineBreak
  | blank hgap => exact .blank hgap
  | obeyed _ _ hend => exact absurd hend hrest
  | skipped => cases hstart
  | @lexeme _ _ _ t? => cases t? <;> cases hstart
  | block => cases hstart

/-- What is read up to a directive is read alike with another text from there on. -/
theorem Reads.replace (h : Reads includes depth f s text g t) (hg : g.rest = '#' :: line)
    (ht : t.atLineStart = true) :
    ∃ pre, f.rest = pre ++ g.rest ∧ (pre = [] → t = s) ∧
      ∀ tail, Reads includes depth { f with rest := pre ++ tail } s text
        { g with rest := tail } t := by
  induction h with
  | stay => exact ⟨[], rfl, fun _ => rfl, fun _ => .stay⟩
  | @moved depth f g s t used rest text m hrest ho _ ih =>
    obtain ⟨pre, hpre, hnil, hreads⟩ := ih hg ht
    have hpre : rest = pre ++ g.rest := hpre
    refine ⟨used ++ pre, by rw [hrest, hpre, List.append_assoc], ?_, fun tail => ?_⟩
    · exact fun h => absurd (List.append_eq_nil_iff.1 h).1 ho.used_ne_nil
    · have ho' : Occurs includes depth s used (pre ++ tail) m := by
        cases pre with
        | nil =>
          -- The directive stands right behind the move, which is a line break or a blank.
          refine ho.of_atLineStart (hnil rfl ▸ ht) (fun hend => ?_) _
          rw [hpre, List.nil_append, hg] at hend
          exact absurd (atLineEnd_cons_iff.1 hend) (by decide)
        | cons c pre =>
          refine ho.of_alike (Alike.refl s) (fun _ => rfl) (.inl ?_)
          rw [hpre]
          rfl
      exact .moved (List.append_assoc _ _ _) ho' (hreads tail)
  | @entered depth f child c g s t u line' rest inner text j hrest he hc hcend _ _ ih =>
    obtain ⟨pre, hpre, -, hreads⟩ := ih hg ht
    have hpre : rest = pre ++ g.rest := hpre
    refine ⟨'#' :: line' ++ pre, by rw [hrest, hpre, List.append_assoc], ?_, fun tail => ?_⟩
    · exact fun h => absurd (List.append_eq_nil_iff.1 h).1 (List.cons_ne_nil _ _)
    · have hend : AtLineEnd (pre ++ tail) := by
        have hend := he.atLineEnd
        rw [hpre] at hend
        cases pre with
        | nil =>
          rw [List.nil_append, hg] at hend
          exact absurd (atLineEnd_cons_iff.1 hend) (by decide)
        | cons c pre => exact atLineEnd_cons_iff.2 (atLineEnd_cons_iff.1 hend)
      exact .entered (List.append_assoc _ _ _) ⟨he.start, he.not_mem, hend, he.obey⟩ hc hcend
        (hreads tail)

/-- A reading to the end goes through the file that is entered and on behind its directive. -/
theorem Executes.split {pre rest flat : List Char}
    (h : Executes includes depth f s pre line rest f' s' j child)
    (hr : Reads includes depth f s flat g t) (hg : g.rest = []) :
    ∃ front inner back c u, flat = front ++ (inner ++ back) ∧
      (∀ tail, Reads includes depth { f with rest := pre ++ tail } s front
        { f' with rest := tail } s') ∧
      Reads includes (depth + 1) child (s'.entering j) inner c u ∧ c.rest = [] ∧
      Reads includes depth (f'.past ('#' :: line) rest) u.resumed back g t := by
  obtain ⟨htext, ⟨front, hfront⟩, hrest, he⟩ := h
  -- Behind the front both readings are at the directive, and the step enters one file.
  obtain ⟨pre', hpre', -, hreplace⟩ := hfront.replace hrest he.start
  obtain rfl := List.append_cancel_right (htext.symm.trans hpre')
  obtain ⟨later, rfl, hlater⟩ := hfront.resume hr hg
  have hstep := step_of_enters hrest he
  cases hlater with
  | stay =>
    rw [hg] at hrest
    cases hrest
  | moved hrest' ho' => cases hstep.symm.trans (step_of_occurs hrest' ho')
  | entered hrest' he' hc hcend hback =>
    obtain ⟨rfl, hframe, hscan⟩ := Step.entered.inj (hstep.symm.trans (step_of_enters hrest' he'))
    obtain rfl := congrArg Frame.rest hframe
    obtain rfl := (List.cons.inj (List.append_cancel_right (hrest.symm.trans hrest'))).2
    obtain rfl := congrArg Scan.journal hscan
    exact ⟨front, _, _, _, _, rfl, hreplace, hc, hcend, hback⟩

/-- The text of a file is read in place of its directive. -/
theorem Executes.replaced {pre rest front inner back : List Char} {k : Nat} {c child' C : Frame}
    {u U : Scan} (h : Executes includes depth f s pre line rest f' s' j child)
    (hfront : ∀ tail, Reads includes depth { f with rest := pre ++ tail } s front
      { f' with rest := tail } s')
    (hchild : Reads includes (depth + 1) child' (s'.entering j) inner C U)
    (hC : Trails k [] c u C U) (hc : c.rest = [])
    (hback : Reads includes depth (f'.past ('#' :: line) rest) u.resumed back g t) :
    ∃ G T, Reads includes depth { f with rest := pre ++ (child'.rest ++ rest) } s
        (front ++ (inner ++ back)) G T ∧ Trails (k + 1) [] g t G T := by
  -- The text of the file starts where the directive stood, and one file less is entered.
  have hin : Trails 1 rest child' (s'.entering j) { f' with rest := child'.rest ++ rest } s' :=
    ⟨rfl, h.enters.alike, h.enters.pushes, .inl h.enters.start⟩
  obtain ⟨F, S, hF, hS⟩ := hin.reads hchild h.enters.atLineEnd (Nat.le_succ _)
  have hCend : C.rest = [] := by rw [hC.rest, hc, List.nil_append]
  have hFrest : F.rest = rest := by rw [hS.rest, hCend, List.nil_append]
  -- Behind the file both runs are at the end of the directive's line.
  have hout : Trails (k + 1) [] (f'.past ('#' :: line) rest) u.resumed F S := by
    refine ⟨?_, ?_, ?_, .inr ?_⟩
    · rw [hFrest]
      exact (List.append_nil _).symm
    · have halike := hC.alike.trans hS.alike
      exact ⟨halike.recent, halike.defines, halike.conditionals, halike.blocks⟩
    · have hk := hC.pushes
      have hone := hS.pushes
      change u.journal.pushes = _
      omega
    · rw [hFrest]
      exact h.enters.atLineEnd
  obtain ⟨G, T, hG, hT⟩ := hout.reads hback atLineEnd_nil (Nat.le_refl _)
  exact ⟨G, T, (hfront _).trans (hF.trans hG), hT⟩

/-- A frame is read alike with a directive replaced, and fewer files are entered. With all files
expanded the text is the same. -/
theorem Inlined.reads {flat : List Char} (h : Inlined includes depth f s text)
    (hr : Reads includes depth f s flat g t) (hg : g.rest = []) :
    ∃ k G T, Reads includes depth { f with rest := text } s flat G T ∧
      Trails (k + 1) [] g t G T := by
  induction h generalizing flat g t with
  | here h =>
    obtain ⟨front, inner, back, c, u, rfl, hfront, hc, hcend, hback⟩ := h.split hr hg
    have hself : Trails 0 [] c u c u := ⟨(List.append_nil _).symm, Alike.refl u, rfl, .inl rfl⟩
    obtain ⟨G, T, hreads, hT⟩ := h.replaced hfront hc hself hcend hback
    exact ⟨0, G, T, hreads, hT⟩
  | @inside depth f f' child s s' pre line rest text j h _ ih =>
    obtain ⟨front, inner, back, c, u, rfl, hfront, hc, hcend, hback⟩ := h.split hr hg
    -- The file itself is read alike with its own directive replaced.
    obtain ⟨k, C, U, hc', hC⟩ := ih hc hcend
    obtain ⟨G, T, hreads, hT⟩ := h.replaced hfront hc' hC hcend hback
    exact ⟨k + 1, G, T, hreads, hT⟩

/-- Either no file is entered, so that nothing is expanded, or a directive is executed. -/
theorem Reads.plain_or_executes (h : Reads includes depth f s text g t) :
    (t.journal.pushes = s.journal.pushes ∧ f.rest = text ++ g.rest) ∨
      ∃ pre line rest f' s' j child, Executes includes depth f s pre line rest f' s' j child := by
  induction h with
  | stay => exact .inl ⟨rfl, rfl⟩
  | @moved depth f g s t used rest text m hrest ho _ ih =>
    rcases ih with ⟨hpushes, htext⟩ | ⟨pre, line, rest', f', s', j, child, h⟩
    · refine .inl ⟨hpushes.trans (pushes_apply m f s), ?_⟩
      have htext : rest = text ++ g.rest := htext
      rw [hrest, htext, List.append_assoc]
    · obtain ⟨htext, ⟨front, hfront⟩, hrest', he⟩ := h
      have htext : rest = pre ++ f'.rest := htext
      refine .inr ⟨used ++ pre, line, rest', f', s', j, child, ?_, ?_, hrest', he⟩
      · rw [hrest, htext, List.append_assoc]
      · exact ⟨_, .moved hrest ho hfront⟩
  | @entered depth f child c g s t u line rest inner text j hrest he =>
    exact .inr ⟨[], line, rest, f, s, j, child, rfl, ⟨[], .stay⟩, hrest, he⟩

/-- A run that enters no file has no use for the files that can be included. -/
theorem Finishes.of_pushes_eq (h : Finishes includes depth f s g t)
    (hpushes : t.journal.pushes = s.journal.pushes) (includes' : Includes) :
    Finishes includes' depth f s g t := by
  induction h with
  | done hrest => exact .done hrest
  | @moved depth f f' g s s' t hstep _ ih =>
    obtain ⟨used, rest, m, hrest, ho, rfl, rfl⟩ := step_eq_moved_iff.1 hstep
    have ho' : Occurs includes' depth s used rest m :=
      ho.of_alike (Alike.refl s) (fun _ => rfl) (Follows.refl rest)
    exact .moved (step_of_occurs hrest ho') (ih (hpushes.trans (pushes_apply m f s).symm))
  | entered hstep hc hnext =>
    obtain ⟨line, rest, j, -, henters, rfl, rfl⟩ := step_eq_entered_iff.1 hstep
    have hle := hc.pushes_le.trans hnext.pushes_le
    simp only [henters.pushes, hpushes] at hle
    omega

/-! ## Sources -/

/-- A source in which an executed directive of a source is replaced. -/
def Inlines (includes : Includes) (defines : Defines) (source source' : String) : Prop :=
  Inlined includes 0 (Frame.ofText none source) (fresh defines) source'.toList

/-- The same has been read, up to places and files: the values of the tokens, the blocks and the
defines. -/
structure ReadAlike (t t' : Scan) : Prop where
  tokens : t'.tokens.map PlacedToken.token = t.tokens.map PlacedToken.token
  blocks : t'.journal.blocks = t.journal.blocks
  defines : t'.journal.defines = t.journal.defines

theorem ReadAlike.refl (t : Scan) : ReadAlike t t := ⟨rfl, rfl, rfl⟩

theorem ReadAlike.trans {t t' u : Scan} (h : ReadAlike t t') (h' : ReadAlike t' u) :
    ReadAlike t u :=
  ⟨h'.tokens.trans h.tokens, h'.blocks.trans h.blocks, h'.defines.trans h.defines⟩

theorem Alike.readAlike (h : Alike s S) : ReadAlike s S := by
  refine ⟨?_, h.blocks, h.defines⟩
  rw [tokens, tokens, List.map_reverse, List.map_reverse, h.recent]

section

variable {source source' : String} {defines : Defines} {frames : List Frame}

/-- What a source is with all files expanded. -/
def Expands (includes : Includes) (defines : Defines) (source : String) (flat : List Char)
    (t : Scan) : Prop :=
  ∃ g, Reads includes 0 (Frame.ofText none source) (fresh defines) flat g t ∧ g.rest = [] ∧
    t.journal.conditionals = []

theorem exists_expands (h : (fresh defines).process includes source [] = .ok (frames, t)) :
    ∃ flat, Expands includes defines source flat t := by
  obtain ⟨g, hfinishes, hclosed, -⟩ := process_eq_ok_iff.1 h
  obtain ⟨flat, hreads, hend⟩ := hfinishes.exists_reads
  exact ⟨flat, g, hreads, hend, hclosed⟩

theorem Expands.process {flat : List Char} (h : Expands includes defines source flat t) :
    ∃ frames, (fresh defines).process includes source [] = .ok (frames, t) := by
  obtain ⟨g, hreads, hend, hclosed⟩ := h
  exact ⟨[g], process_eq_ok_iff.2 ⟨g, hreads.finishes hend, hclosed, rfl⟩⟩

/-- A source with a directive replaced expands to the same text. -/
theorem Inlines.expands {flat : List Char} (h : Inlines includes defines source source')
    (hs : Expands includes defines source flat t) :
    ∃ t', Expands includes defines source' flat t' ∧ ReadAlike t t' ∧
      t'.journal.pushes < t.journal.pushes := by
  obtain ⟨g, hreads, hend, hclosed⟩ := hs
  obtain ⟨k, G, T, hG, hT⟩ := Inlined.reads h hreads hend
  have hGend : G.rest = [] := by rw [hT.rest, hend, List.nil_append]
  have hpushes := hT.pushes
  exact ⟨T, ⟨G, hG, hGend, hT.alike.conditionals.trans hclosed⟩, hT.alike.readAlike, by omega⟩

/-- A source in which no directive is executed is what it expands to. -/
theorem Expands.plain_or_inlines {flat : List Char} (h : Expands includes defines source flat t) :
    (t.journal.pushes = 0 ∧ source.toList = flat) ∨
      ∃ next, Inlines includes defines source next := by
  obtain ⟨g, hreads, hend, -⟩ := h
  rcases hreads.plain_or_executes with ⟨hpushes, htext⟩ | ⟨pre, line, rest, f', s', j, child, h⟩
  · refine .inl ⟨hpushes, ?_⟩
    rw [hend, List.append_nil] at htext
    exact htext
  · refine .inr ⟨String.ofList (pre ++ (child.rest ++ rest)), ?_⟩
    rw [Inlines, String.toList_ofList]
    exact .here h

/-- All directives can be replaced, one after the other. -/
theorem Expands.reaches_flat {flat : List Char} (h : Expands includes defines source flat t) :
    ∃ t', Relation.ReflTransGen (Inlines includes defines) source (String.ofList flat) ∧
      Expands includes defines (String.ofList flat) flat t' ∧ ReadAlike t t' ∧
      t'.journal.pushes = 0 := by
  -- Every replacement lowers the number of files that are entered.
  induction hn : t.journal.pushes using Nat.strong_induction_on generalizing source t with
  | _ n ih =>
    subst hn
    rcases h.plain_or_inlines with ⟨hpushes, htext⟩ | ⟨next, hnext⟩
    · have hsource : String.ofList flat = source := by rw [← htext, String.ofList_toList]
      rw [hsource]
      exact ⟨t, .refl, h, ReadAlike.refl t, hpushes⟩
    · obtain ⟨u, hu, halike, hlt⟩ := hnext.expands h
      obtain ⟨t', hreaches, hflat, halike', hpushes⟩ := ih _ hlt hu rfl
      exact ⟨t', .head hnext hreaches, hflat, halike.trans halike', hpushes⟩

/-- Whatever is replaced, the source expands to the same text. -/
theorem Expands.of_reaches {flat : List Char} (h : Expands includes defines source flat t)
    (hreaches : Relation.ReflTransGen (Inlines includes defines) source source') :
    ∃ t', Expands includes defines source' flat t' := by
  induction hreaches with
  | refl => exact ⟨t, h⟩
  | tail _ hnext ih =>
    obtain ⟨u, hu⟩ := ih
    obtain ⟨t', ht', -⟩ := hnext.expands hu
    exact ⟨t', ht'⟩

/-- Inclusion is textual: when a source is read from nothing, it is read to the same values of
tokens, the same blocks and the same defines with an executed directive replaced by the text of its
file, and fewer files are entered. However this is repeated until no directive is left, it ends in
the same source, which is read alike without any file. -/
theorem inlined_reads_alike (includes : Includes) (source : String) (defines : Defines)
    (frames : List Frame) (t : Scan)
    (h : (fresh defines).process includes source [] = .ok (frames, t)) :
    (∀ source', Inlines includes defines source source' →
      ∃ frames' t', (fresh defines).process includes source' [] = .ok (frames', t') ∧
        ReadAlike t t' ∧ t'.journal.pushes < t.journal.pushes) ∧
    ∃ flat, Relation.ReflTransGen (Inlines includes defines) source flat ∧
      (∀ source', Relation.ReflTransGen (Inlines includes defines) source source' →
        (∀ next, ¬ Inlines includes defines source' next) → source' = flat) ∧
      ∀ includes', ∃ frames' t', (fresh defines).process includes' flat [] = .ok (frames', t') ∧
        ReadAlike t t' ∧ t'.journal.pushes = 0 := by
  obtain ⟨flat, hexpands⟩ := exists_expands h
  obtain ⟨t', hreaches, hflat, halike, hpushes⟩ := hexpands.reaches_flat
  refine ⟨fun source' hsource' => ?_, String.ofList flat, hreaches, ?_, fun includes' => ?_⟩
  · obtain ⟨u, hu, halike, hlt⟩ := hsource'.expands hexpands
    obtain ⟨frames', hprocess⟩ := hu.process
    exact ⟨frames', u, hprocess, halike, hlt⟩
  · intro source' hsource' hnone
    obtain ⟨u, hu⟩ := hexpands.of_reaches hsource'
    -- Where nothing can be replaced any more, the source is what it expands to.
    rcases hu.plain_or_inlines with ⟨-, htext⟩ | ⟨next, hnext⟩
    · rw [← htext, String.ofList_toList]
    · exact absurd hnext (hnone next)
  · obtain ⟨g, hreads, hend, hclosed⟩ := hflat
    have hfinishes := (hreads.finishes hend).of_pushes_eq hpushes includes'
    exact ⟨[g], t', process_eq_ok_iff.2 ⟨g, hfinishes, hclosed, rfl⟩, halike, hpushes⟩

/-- A single file that can be included. -/
def onlyFile (name text : String) : Includes :=
  fun other => if other = name then some text else none

theorem inlined_reads_alike_header :
    ∃ frames t, (fresh []).process (onlyFile "a" "code") "#include \"a\"\n\x7b;\x7d" [] =
        .ok (frames, t) ∧
      t.tokens.map PlacedToken.token = [.keyword .code, .rawBlock 0] ∧
      Inlines (onlyFile "a" "code") [] "#include \"a\"\n\x7b;\x7d" "code\n\x7b;\x7d" ∧
      ∃ frames' t', (fresh []).process (onlyFile "a" "code") "code\n\x7b;\x7d" [] =
          .ok (frames', t') ∧
        ReadAlike t t' ∧ t'.journal.pushes < t.journal.pushes := by
  have hread : ((fresh []).process (onlyFile "a" "code")
      "#include \"a\"\n\x7b;\x7d" []).toOption.any (fun r =>
        r.2.tokens.map PlacedToken.token == [.keyword .code, .rawBlock 0]) = true := by
    decide +kernel
  obtain ⟨⟨frames, t⟩, h, hexpected⟩ := Outcome.exists_eq_ok_of_any hread
  have hname : Directive.included? (Text.trim (Directive.uncommented "include \"a\"".toList)) =
      some "a" := by decide +kernel
  have henter : (fresh []).journal.enter (onlyFile "a" "code") 0 "a" =
      .ok (_, Frame.ofText (some "a") "code") := rfl
  have hobey := Directive.obey_eq_entered_iff.2 ⟨rfl, "a", hname, henter⟩
  have hexecutes : Executes (onlyFile "a" "code") 0 (Frame.ofText none "#include \"a\"\n\x7b;\x7d")
      (fresh []) [] "include \"a\"".toList "\n\x7b;\x7d".toList _ _ _ _ :=
    ⟨rfl, ⟨[], .stay⟩, rfl, rfl, by decide, atLineEnd_cons_iff.2 rfl, hobey⟩
  have hinlines : Inlines (onlyFile "a" "code") [] "#include \"a\"\n\x7b;\x7d" "code\n\x7b;\x7d" :=
    .here hexecutes
  exact ⟨frames, t, h, beq_iff_eq.1 hexpected, hinlines,
    (inlined_reads_alike _ _ _ _ _ h).1 _ hinlines⟩

end

end Scan
end ShaderLang
