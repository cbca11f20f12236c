import Mathlib.Algebra.GroupWithZero.Nat
import Mathlib.Data.List.Induction
import ShaderLang.Proofs.Outcome
import ShaderLang.Proofs.Source.Turn
/-!
# Entering and leaving

A session counts the files that it enters and the texts that it leaves, and tells both apart by the
height of its stack alone. So the counts agree with the files on the stack as long as one root text
lies at the bottom of it. A further root text is left and counted like a file, and every source that
is read above the frame of an earlier one counts as left once more.

## Main definitions

* `Session.Act`, `Session.after` — what is done to the texts of a session
* `Session.Accounted` — the counts tell of the files on the stack, and no root text is left
* `Scan.Tallied` — the counts tell of the height of the stack

## Main results

* `Session.acts_act` — an act comes to one of four changes of the stack
* `Session.Rooted.accounted` — all is well above one root text
* `Scan.tallied_afterCalls` — the counts of a lexer after any calls
* `Session.files_accounted` — what the counts tell of
-/

namespace ShaderLang
namespace Session

/-- What can be done to the texts of a session. -/
inductive Act
  | pushRoot (text : String)
  | pushInclude (includes : Includes) (name : String) (line col : Nat)
  | popInclude
  | advance (bytes : Nat)

/-- The act adds a root text. -/
def Act.isRoot : Act → Bool
  | pushRoot _ => true
  | _ => false

/-- What an act does. A file that cannot be entered is not, and the lowest text is not left. -/
def act (s : Session) : Act → Session
  | .pushRoot text => s.pushRoot text
  | .pushInclude includes name line col => (s.pushInclude includes name line col).toOption.getD s
  | .popInclude => s.popInclude?.getD s
  | .advance bytes => s.advance bytes

/-- The session after some acts. -/
def after (acts : List Act) : Session := acts.foldl act empty

/-- The files of the texts under reading, innermost first. -/
def stack (s : Session) : List (Option String) := s.frames.map Frame.file

/-- The number of root texts under reading. -/
def roots (s : Session) : Nat := s.stack.countP (·.isNone)

/-- The number of files under reading. -/
def included (s : Session) : Nat := s.stack.countP (·.isSome)

/-- The files that were entered and not left are those under reading, the depth is their number,
and no root text can be left. -/
structure Accounted (s : Session) : Prop where
  balance : s.pushes = s.pops + s.included
  depth : s.depth = s.included
  leaves : ∀ s', s.popInclude? = some s' → s'.roots = s.roots

variable {s s' : Session} {a : Act} {acts : List Act}

theorem after_append_singleton (acts : List Act) (a : Act) :
    after (acts ++ [a]) = (after acts).act a := List.foldl_append

theorem length_stack (s : Session) : s.stack.length = s.frames.length := List.length_map _

theorem roots_add_included (s : Session) : s.roots + s.included = s.frames.length := by
  have hcount := List.length_eq_countP_add_countP (·.isNone) (l := s.stack)
  rw [length_stack] at hcount
  rw [hcount, roots, included]
  congr 1
  exact List.countP_congr fun file _ => by cases file <;> simp

/-! ## Acts -/

/-- The changes of the stack and of the counts that an act can come to. -/
inductive Acts (s s' : Session) : Act → Prop
  | stays {a : Act} (ha : a.isRoot = false) (hstack : s'.stack = s.stack)
      (hpushes : s'.pushes = s.pushes) (hpops : s'.pops = s.pops) : Acts s s' a
  | root {text : String} (hstack : s'.stack = none :: s.stack) (hpushes : s'.pushes = s.pushes)
      (hpops : s'.pops = s.pops) : Acts s s' (.pushRoot text)
  | enters {includes : Includes} {name : String} {line col : Nat}
      (hstack : s'.stack = some name :: s.stack) (hpushes : s'.pushes = s.pushes + 1)
      (hpops : s'.pops = s.pops) : Acts s s' (.pushInclude includes name line col)
  | leaves {file below : Option String} {more : List (Option String)}
      (hstack : s.stack = file :: below :: more) (hstack' : s'.stack = below :: more)
      (hpushes : s'.pushes = s.pushes) (hpops : s'.pops = s.pops + 1) : Acts s s' .popInclude

theorem file_advance (f : Frame) : f.advance.file = f.file := by
  unfold Frame.advance
  split
  · rfl
  · split
    · rfl
    · simp only
      split <;> rfl

theorem toJournal_advance (s : Session) (bytes : Nat) :
    (s.advance bytes).toJournal = s.toJournal := by
  fun_induction advance s bytes with
  | case1 | case2 => rfl
  | case3 s n f fs hframes ih => exact ih

theorem stack_advance (s : Session) (bytes : Nat) : (s.advance bytes).stack = s.stack := by
  fun_induction advance s bytes with
  | case1 | case2 => rfl
  | case3 s n f fs hframes ih => rw [ih, stack, stack, hframes, List.map_cons, file_advance]; rfl

theorem popInclude?_eq_some_iff :
    s.popInclude? = some s' ↔ ∃ f g gs, s.frames = f :: g :: gs ∧
      s' = ⟨s.toJournal.leave, g :: gs⟩ := by
  unfold popInclude?
  split
  · next f g gs hframes =>
    simp only [hframes, Option.some.injEq, List.cons.injEq]
    constructor
    · rintro rfl
      exact ⟨f, g, gs, ⟨rfl, rfl, rfl⟩, rfl⟩
    · rintro ⟨_, _, _, ⟨rfl, rfl, rfl⟩, rfl⟩
      rfl
  · next hnot => simpa using fun f g gs hframes => absurd hframes (hnot f g gs)

/-- Every act comes to one of the changes. -/
theorem acts_act (s : Session) (a : Act) : Acts s (s.act a) a := by
  cases a with
  | pushRoot text => exact .root rfl rfl rfl
  | advance bytes =>
    have hjournal := toJournal_advance s bytes
    exact .stays rfl (stack_advance s bytes) (congrArg Journal.pushes hjournal)
      (congrArg Journal.pops hjournal)
  | popInclude =>
    cases hpop : s.popInclude? with
    | none =>
      have hact : s.act .popInclude = s := by rw [act, hpop, Option.getD_none]
      rw [hact]
      exact .stays rfl rfl rfl rfl
    | some s' =>
      have hact : s.act .popInclude = s' := by rw [act, hpop, Option.getD_some]
      obtain ⟨f, g, gs, hframes, rfl⟩ := popInclude?_eq_some_iff.1 hpop
      rw [hact]
      exact .leaves (by rw [stack, hframes]; rfl) rfl rfl rfl
  | pushInclude includes name line col =>
    rw [act, pushInclude]
    split
    · next henter =>
      obtain ⟨-, text, -, rfl, rfl⟩ := Journal.enter_eq_ok.1 henter
      exact .enters rfl rfl rfl
    · exact .stays rfl rfl rfl rfl

/-! ## The counts -/

/-- What was pushed was popped or is on the stack. -/
theorem tally_after (acts : List Act) :
    (after acts).pushes + acts.countP Act.isRoot =
      (after acts).pops + (after acts).stack.length := by
  -- Each change adds as much on one side as on the other.
  induction acts using List.reverseRecOn with
  | nil => rfl
  | append_singleton acts a ih =>
    rw [after_append_singleton, List.countP_append, List.countP_singleton]
    have hacts := acts_act (after acts) a
    generalize (after acts).act a = s' at hacts ⊢
    cases hacts with
    | stays ha hstack hpushes hpops =>
      rw [ha, hstack, hpushes, hpops]
      exact ih
    | root hstack hpushes hpops =>
      simp only [hstack, hpushes, hpops, Act.isRoot, List.length_cons, if_true]
      omega
    | enters hstack hpushes hpops =>
      simp only [hstack, hpushes, hpops, Act.isRoot, List.length_cons, Bool.false_eq_true, if_false]
      omega
    | leaves hstack hstack' hpushes hpops =>
      rw [hstack] at ih
      simp only [hstack', hpushes, hpops, Act.isRoot, List.length_cons, Bool.false_eq_true,
        if_false] at ih ⊢
      omega

/-- One root text lies at the bottom of the stack, and files above it. -/
def Rooted (s : Session) : Prop :=
  ∃ files : List (Option String), s.stack = files ++ [none] ∧ ∀ file ∈ files, file.isSome = true

/-- An act other than adding a root text keeps one at the bottom. -/
theorem Rooted.act (h : s.Rooted) (ha : a.isRoot = false) : (s.act a).Rooted := by
  obtain ⟨files, hfiles, hsome⟩ := h
  have hacts := acts_act s a
  generalize s.act a = s' at hacts ⊢
  cases hacts with
  | stays _ hstack => exact ⟨files, hstack.trans hfiles, hsome⟩
  | root => cases ha
  | @enters _ name _ _ hstack =>
    refine ⟨some name :: files, by rw [hstack, hfiles]; rfl, ?_⟩
    exact List.forall_mem_cons.2 ⟨rfl, hsome⟩
  | leaves hstack hstack' =>
    -- Of two texts at least the upper one is a file.
    cases files with
    | nil =>
      rw [hfiles] at hstack
      cases hstack
    | cons file files =>
      rw [hfiles, List.cons_append] at hstack
      refine ⟨files, hstack'.trans (List.cons.inj hstack).2.symm, ?_⟩
      exact (List.forall_mem_cons.1 hsome).2

theorem rooted_after (text : String) (h : ∀ a ∈ acts, a.isRoot = false) :
    (after (.pushRoot text :: acts)).Rooted := by
  induction acts using List.reverseRecOn with
  | nil => exact ⟨[], rfl, nofun⟩
  | append_singleton acts a ih =>
    have hacts : ∀ b ∈ acts, b.isRoot = false := fun b hb => h b (List.mem_append_left _ hb)
    rw [← List.cons_append, after_append_singleton]
    exact (ih hacts).act (h a (List.mem_append_right _ List.mem_cons_self))

theorem Rooted.roots (h : s.Rooted) : s.roots = 1 := by
  obtain ⟨files, hfiles, hsome⟩ := h
  have hnone : files.countP (·.isNone) = 0 :=
    List.countP_eq_zero.2 fun file hfile => by
      simp [Option.isNone_eq_false_iff.2 (hsome file hfile)]
  rw [Session.roots, hfiles, List.countP_append, hnone]
  rfl

theorem depth_eq_included_iff : s.depth = s.included ↔ s.roots = 1 ∨ s.frames = [] := by
  have hcount := roots_add_included s
  rw [← List.length_eq_zero_iff, depth]
  omega

/-- A root text is left where it is the innermost of several texts. -/
theorem roots_popInclude? (h : s.popInclude? = some s') :
    s'.roots = s.roots ↔ s.file.isSome = true := by
  obtain ⟨f, g, gs, hframes, rfl⟩ := popInclude?_eq_some_iff.1 h
  rw [roots, roots, stack, stack, file, hframes]
  cases hfile : f.file <;> simp [hfile]

/-- Above one root text the counts tell of the files, if none but that was added. -/
theorem Rooted.accounted (h : s.Rooted) (htally : s.pushes + 1 = s.pops + s.stack.length) :
    s.Accounted where
  balance := by
    have hcount := roots_add_included s
    rw [h.roots] at hcount
    rw [length_stack] at htally
    omega
  depth := depth_eq_included_iff.2 (.inl h.roots)
  leaves := by
    intro s' hpop
    refine (roots_popInclude? hpop).2 ?_
    -- The root text is the lowest one, so that the innermost of several is a file.
    obtain ⟨files, hfiles, hsome⟩ := h
    obtain ⟨f, g, gs, hframes, -⟩ := popInclude?_eq_some_iff.1 hpop
    have hstack : s.stack = f.file :: g.file :: gs.map Frame.file := by
      rw [stack, hframes]
      rfl
    rw [hfiles] at hstack
    cases files with
    | nil => cases (List.cons.inj hstack).2
    | cons file files =>
      have hfile : f.file = file := (List.cons.inj hstack).1.symm
      rw [Session.file, hframes, List.head?_cons, Option.bind_some, hfile]
      exact hsome file List.mem_cons_self

end Session

/-! ## Lexers -/

namespace Scan

/-- Every text that was added was left or is on the stack. -/
def Tallied (sources : Nat) (frames : List Frame) (s : Scan) : Prop :=
  s.journal.pushes + sources = s.journal.pops + frames.length

variable {includes : Includes} {p q : Point} {n : Nat} {frames : List Frame} {s : Scan}

/-- A move keeps the tally. -/
theorem Tallied.goes (h : Tallied n (p.frame :: p.below) p.scan) (hgoes : p.Goes includes q) :
    Tallied n (q.frame :: q.below) q.scan := by
  unfold Tallied at *
  cases hgoes with
  | uses hrest hoccurs =>
    rw [pushes_apply, pops_apply]
    exact h
  | enters =>
    simp only [List.length_cons] at h ⊢
    omega
  | leaves _ hbelow =>
    simp only [hbelow, List.length_cons, resumed, Journal.leave] at h ⊢
    omega

theorem Tallied.leads (h : Tallied n (p.frame :: p.below) p.scan) (hleads : Leads includes p q) :
    Tallied n (q.frame :: q.below) q.scan := by
  obtain ⟨k, names, hrun⟩ := hleads
  induction hrun with
  | stay => exact h
  | on hturn _ ih => exact ih (h.goes (Point.goes_of_turn hturn))

theorem Tallied.rests (h : Tallied n (p.frame :: p.below) p.scan)
    (hrests : p.Rests includes frames s) : Tallied n frames s := by
  unfold Tallied at *
  cases hrests with
  | ended hended =>
    rw [(Point.of_ended hended).2] at h
    exact h
  | stopped hstopped =>
    obtain ⟨cause, f, t, hfails, rfl⟩ := Point.fails_of_turn hstopped
    rw [hfails.unmoved.pushes, hfails.unmoved.pops]
    exact h

/-- Reading a further source adds one text. -/
theorem Tallied.process (h : Tallied n frames s) (includes : Includes) (source : String) :
    Tallied (n + 1) (kept (s.process includes source frames)).1
      (kept (s.process includes source frames)).2 := by
  obtain ⟨last, hleads, hrests⟩ := exists_leads_rests includes frames s source
  refine Tallied.rests (Tallied.leads ?_ hleads) hrests
  exact congrArg Nat.succ h

/-- After any calls on a lexer, the files entered and the sources read are the texts that were left
and those on the stack. -/
theorem tallied_afterCalls (includes : Includes) (calls : List Call) :
    Tallied (sources calls).length (afterCalls includes calls).1 (afterCalls includes calls).2 := by
  induction calls using List.reverseRecOn with
  | nil => rfl
  | append_singleton calls call ih =>
    rw [afterCalls_append_singleton, sources_append_singleton, List.length_append]
    cases call with
    | define name expr => exact ih
    | read source => exact ih.process includes source

theorem Tallied.of_ok {source : String} {frames' : List Frame} {t : Scan}
    (h : Tallied n frames s) (hok : s.process includes source frames = .ok (frames', t)) :
    t.journal.pops = t.journal.pushes + n := by
  have htally := h.process includes source
  obtain ⟨last, hends, -⟩ := exists_leads_ends_above includes frames s source
  rw [hok] at htally hends
  cases hends with
  | read =>
    -- The frame of the source stays on the stack.
    unfold Tallied at htally
    simp only [kept, List.length_cons, List.length_nil] at htally
    omega

end Scan

/-- What the counts of a session tell of. After any acts, all texts that were added were left or
are on the stack. The files entered and not left are those on the stack exactly if no root text was
left; the depth is their number exactly if there is one root text, or no text at all; and a root
text is left exactly if it is the innermost of several. So all is well in a session that starts
with a root text and gets no other one. A lexer gets one for each source: it counts the texts of
earlier sources as left when a further one is read to its end. -/
theorem Session.files_accounted (includes : Includes) :
    (∀ acts, (after acts).pushes + acts.countP Act.isRoot =
      (after acts).pops + (after acts).frames.length) ∧
    (∀ acts, (after acts).pushes = (after acts).pops + (after acts).included ↔
      (after acts).roots = acts.countP Act.isRoot) ∧
    (∀ s : Session, s.depth = s.included ↔ s.roots = 1 ∨ s.frames = []) ∧
    (∀ s s' : Session, s.popInclude? = some s' → (s'.roots = s.roots ↔ s.file.isSome = true)) ∧
    (∀ text acts, (∀ a ∈ acts, a.isRoot = false) → (after (.pushRoot text :: acts)).Accounted) ∧
    (∀ calls, (Scan.afterCalls includes calls).2.journal.pushes + (Scan.sources calls).length =
      (Scan.afterCalls includes calls).2.journal.pops + (Scan.afterCalls includes calls).1.length) ∧
    (∀ calls source frames t,
      (Scan.afterCalls includes calls).2.process includes source
        (Scan.afterCalls includes calls).1 = .ok (frames, t) →
      t.journal.pops = t.journal.pushes + (Scan.sources calls).length) := by
  have htally : ∀ acts, (after acts).pushes + acts.countP Act.isRoot =
      (after acts).pops + (after acts).frames.length := by
    intro acts
    rw [tally_after, length_stack]
  refine ⟨htally, fun acts => ?_, fun s => depth_eq_included_iff, fun s s' => roots_popInclude?,
    fun text acts hacts => ?_, fun calls => Scan.tallied_afterCalls includes calls,
    fun calls source frames t hok => (Scan.tallied_afterCalls includes calls).of_ok hok⟩
  · have hcount := roots_add_included (after acts)
    have hacts := htally acts
    omega
  · refine (rooted_after text hacts).accounted ?_
    have hroots : (Act.pushRoot text :: acts).countP Act.isRoot = 1 := by
      rw [List.countP_cons_of_pos rfl, List.countP_eq_zero.2 fun a ha => by simp [hacts a ha]]
    rw [← hroots]
    exact tally_after _

/-- A file above a root text is left, and a source is read behind another one. -/
theorem Session.files_accounted_behind :
    (∃ s, (after [.pushRoot "é", .pushInclude (fun _ => some "x") "a" 1 1]).popInclude? = some s ∧
      s.roots = 1) ∧
    (after [.pushRoot "é", .pushInclude (fun _ => some "x") "a" 1 1, .advance 1]).Accounted ∧
    ∃ frames t,
      (Scan.afterCalls (fun _ => none) [.read "y"]).2.process (fun _ => none) "x"
          (Scan.afterCalls (fun _ => none) [.read "y"]).1 = .ok (frames, t) ∧
        t.journal.pops = t.journal.pushes + 1 := by
  obtain ⟨-, -, -, hleaves, haccounted, -, hlexer⟩ := files_accounted fun _ => none
  have hpop : (after [.pushRoot "é", .pushInclude (fun _ => some "x") "a" 1 1]).popInclude? =
      some { after [.pushRoot "é"] with files := ["a"], pushes := 1, pops := 1 } := rfl
  refine ⟨⟨_, hpop, (hleaves _ _ hpop).2 (by decide)⟩, haccounted "é" _ (by decide), ?_⟩
  have hread : ((Scan.afterCalls (fun _ => none) [.read "y"]).2.process (fun _ => none) "x"
      (Scan.afterCalls (fun _ => none) [.read "y"]).1).toOption.any (fun _ => true) = true := by
    decide +kernel
  obtain ⟨⟨frames, t⟩, hok, -⟩ := Outcome.exists_eq_ok_of_any hread
  exact ⟨frames, t, hok, hlexer [.read "y"] _ _ _ hok⟩

/-- A root text above another one counts as a file and is left like one, and so is the frame of a
source when a further source has been read. -/
theorem Session.roots_left_as_files :
    (after [.pushRoot "a", .pushRoot "b"]).depth = 1 ∧
    (after [.pushRoot "a", .pushRoot "b"]).included = 0 ∧
    (∃ s, (after [.pushRoot "a", .pushRoot "b"]).popInclude? = some s ∧ s.roots = 1 ∧
      s.pushes = 0 ∧ s.pops = 1) ∧
    ∃ frames t frames' t', (Scan.fresh []).process (fun _ => none) "a" [] = .ok (frames, t) ∧
      t.process (fun _ => none) "b" frames = .ok (frames', t') ∧
      t'.journal.pushes = 0 ∧ t'.journal.pops = 1 := by
  refine ⟨by decide, by decide, ⟨_, rfl, by decide, rfl, rfl⟩, ?_⟩
  have hread : ((Scan.fresh []).process (fun _ => none) "a" []).toOption.any (fun r =>
      (r.2.process (fun _ => none) "b" r.1).toOption.any fun r' =>
        r'.2.journal.pushes == 0 && r'.2.journal.pops == 1) = true := by
    decide +kernel
  obtain ⟨⟨frames, t⟩, hfirst, hsecond⟩ := Outcome.exists_eq_ok_of_any hread
  obtain ⟨⟨frames', t'⟩, hok, hcounts⟩ := Outcome.exists_eq_ok_of_any hsecond
  simp only [Bool.and_eq_true, beq_iff_eq] at hcounts
  exact ⟨frames, t, frames', t', hfirst, hok, hcounts⟩

end ShaderLang
