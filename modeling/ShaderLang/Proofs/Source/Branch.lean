import Mathlib.Data.List.Basic
import ShaderLang.Source.Operation
/-!
# Branches of conditionals

Text is read where every open conditional is in a branch that is read. Only the innermost one is
asked, and it keeps of those around it what was so when it was opened; but as long as it is open,
nothing happens to those around it. Over its life, from when it is opened to when it is closed, a
conditional is asked again and again to go on to a branch. The first call that is for the last
branch or whose condition holds at that moment selects its branch, and no other call does.

## Main definitions

* `Journal.after` — a journal after operations
* `Journal.Call` — a call on a conditional to go on to a branch
* `Journal.callsSince` — the calls on a conditional over its life

## Main results

* `Journal.nested_after` — each conditional knows whether the text around it is read
* `Journal.answers_calls` — every call is answered by the calls before it
* `Journal.first_choice_selects` — one branch is selected, by the first call that chooses
-/

namespace ShaderLang

/-! ## Conditionals inside one another -/

namespace Conditionals

/-- Each conditional knows whether text is read around it. -/
def Nested : Conditionals → Prop
  | [] => True
  | c :: cs => c.parentEnabled = isEnabled cs ∧ Nested cs

theorem isEnabled_iff_of_nested {cs : Conditionals} (h : cs.Nested) :
    cs.isEnabled = true ↔ ∀ c ∈ cs, c.enabled = true := by
  induction cs with
  | nil => simp
  | cons c cs ih =>
    obtain ⟨hparent, hcs⟩ := h
    rw [isEnabled, hparent, Bool.and_eq_true, ih hcs, List.forall_mem_cons]

theorem Nested.update {cs : Conditionals} {f : Conditional → Conditional} (h : cs.Nested)
    (hf : ∀ c, (f c).parentEnabled = c.parentEnabled) : (cs.update f).Nested := by
  cases cs with
  | nil => trivial
  | cons c cs => exact ⟨(hf c).trans h.1, h.2⟩

theorem parentEnabled_operate (c : Conditional) (ds : Defines) (op : Operation) :
    (c.operate ds op).parentEnabled = c.parentEnabled := by cases op <;> rfl

/-- An operation opens a conditional, closes the innermost one, or changes it alone. -/
theorem operate_cases (cs : Conditionals) (ds : Defines) (op : Operation) :
    (∃ name? d, op = .push name? ∧ d.parentEnabled = cs.isEnabled ∧ cs.operate ds op = d :: cs) ∨
    (op = .pop ∧ cs.operate ds op = cs.tail) ∨
    ((∀ name?, op ≠ .push name?) ∧ cs.operate ds op = cs.update (·.operate ds op)) := by
  cases op with
  | push name? => cases name? <;> exact .inl ⟨_, _, rfl, rfl, rfl⟩
  | pop => exact .inr (.inl ⟨rfl, rfl⟩)
  | _ => exact .inr (.inr ⟨nofun, rfl⟩)

theorem Nested.operate {cs : Conditionals} (h : cs.Nested) (ds : Defines) (op : Operation) :
    (cs.operate ds op).Nested := by
  rcases cs.operate_cases ds op with ⟨name?, d, -, hparent, heq⟩ | ⟨-, heq⟩ | ⟨-, heq⟩ <;>
    rw [heq]
  · exact ⟨hparent, h⟩
  · cases cs with
    | nil => trivial
    | cons c cs => exact h.2
  · exact h.update fun c => parentEnabled_operate c ds op

end Conditionals

namespace Journal

/-- A journal after operations. -/
def after (j : Journal) (ops : List Operation) : Journal := ops.foldl operate j

theorem after_append (j : Journal) (ops more : List Operation) :
    j.after (ops ++ more) = (j.after ops).after more := List.foldl_append

/-- Operations keep conditionals in order inside one another. -/
theorem nested_after {j : Journal} (h : j.conditionals.Nested) (ops : List Operation) :
    (j.after ops).conditionals.Nested := by
  induction ops generalizing j with
  | nil => exact h
  | cons op ops ih => exact ih (h.operate j.defines op)

/-! ## Calls on a conditional -/

/-- A call on a conditional to go on to a branch. -/
structure Call where
  /-- Whether the condition of the branch holds at that moment. The last branch has none. -/
  test? : Option Bool
  /-- The branch that the conditional itself is in is read right behind the call. -/
  selects : Bool
  deriving DecidableEq

/-- The call is for the last branch, or its condition holds. -/
def Call.chooses (c : Call) : Bool := c.test?.getD true

/-- The innermost conditional is in a branch of its own that is read. -/
def selected (j : Journal) : Bool := j.conditionals.head?.any (·.enabled)

/-- The call that an operation makes on the conditional that is innermost behind it. One that opens
a conditional with a name calls for its first branch. -/
def call? (j : Journal) (op : Operation) : Option Call :=
  match op with
  | .evaluate =>
    j.conditionals.head?.map fun c => ⟨c.condition.holds j.defines, (j.operate op).selected⟩
  | .switch => j.conditionals.head?.map fun _ => ⟨none, (j.operate op).selected⟩
  | .push (some name) => some ⟨j.defines.has name, (j.operate op).selected⟩
  | _ => none

/-- The calls that operations make on the conditional that has `level` others around it, up to its
closing. -/
def calls (level : Nat) : Journal → List Operation → List Call
  | _, [] => []
  | j, op :: ops =>
    let j' := j.operate op
    if j'.conditionals.length ≤ level then []
    else if j'.conditionals.length = level + 1 then (j.call? op).toList ++ calls level j' ops
    else calls level j' ops

/-- The calls on a conditional that is opened here, in the operations behind its opening. -/
def callsSince (j : Journal) (name? : Option String) (ops : List Operation) : List Call :=
  calls j.conditionals.length j (.push name? :: ops)

/-- The conditional that has `level` others around it is open all the way through operations. -/
def StaysOpen (level : Nat) : Journal → List Operation → Prop
  | _, [] => True
  | j, op :: ops =>
    level < (j.operate op).conditionals.length ∧ StaysOpen level (j.operate op) ops

/-- Of the calls on a conditional, the first one that chooses selects its branch, and no other. -/
structure ChosenOnce (cs : List Call) : Prop where
  selects_iff : ∀ i (hi : i < cs.length), cs[i].selects = true ↔
    cs[i].chooses = true ∧ ∀ k (hk : k < i), cs[k].chooses = false
  at_most_once : cs.countP (·.selects) ≤ 1
  /-- A call for the last branch makes sure that one is selected. -/
  once : (∃ c ∈ cs, c.test? = none) → cs.countP (·.selects) = 1
  /-- Behind a call for the last branch none is selected. -/
  not_behind : ∀ i k (hik : i < k) (hk : k < cs.length), cs[i].test? = none →
    cs[k].selects = false

/-- Calls are answered in turn: one selects the branch if it chooses and none before it has. -/
def Answered : Bool → List Call → Prop
  | _, [] => True
  | taken, c :: cs => c.selects = (!taken && c.chooses) ∧ Answered (taken || c.chooses) cs

variable {taken : Bool} {cs : List Call}

theorem selects_iff_of_answered (h : Answered taken cs) {i : Nat} (hi : i < cs.length) :
    cs[i].selects = true ↔
      taken = false ∧ cs[i].chooses = true ∧ ∀ k (hk : k < i), cs[k].chooses = false := by
  induction cs generalizing taken i with
  | nil => exact absurd hi (Nat.not_lt_zero _)
  | cons c cs ih =>
    obtain ⟨hc, hcs⟩ := h
    cases i with
    | zero => simp [hc]
    | succ i =>
      have hi' : i < cs.length := Nat.lt_of_succ_lt_succ hi
      rw [List.getElem_cons_succ, ih hcs hi', Bool.or_eq_false_iff]
      -- For a later call the first one counts as taken if it chooses.
      constructor
      · rintro ⟨⟨htaken, hfirst⟩, hchooses, hbefore⟩
        refine ⟨htaken, hchooses, fun k hk => ?_⟩
        cases k with
        | zero => exact hfirst
        | succ k => exact hbefore k (Nat.lt_of_succ_lt_succ hk)
      · rintro ⟨htaken, hchooses, hbefore⟩
        refine ⟨⟨htaken, hbefore 0 (Nat.succ_pos i)⟩, hchooses, fun k hk => ?_⟩
        exact hbefore (k + 1) (Nat.succ_lt_succ hk)

/-- The branch is selected once if some call chooses, and not at all if none does. -/
theorem countP_selects_of_answered (h : Answered taken cs) :
    cs.countP (·.selects) = if taken = false ∧ ∃ c ∈ cs, c.chooses = true then 1 else 0 := by
  induction cs generalizing taken with
  | nil => simp
  | cons c cs ih =>
    obtain ⟨hc, hcs⟩ := h
    rw [List.countP_cons, ih hcs, hc]
    cases taken <;> cases hchooses : c.chooses <;> simp [hchooses]

theorem chosenOnce_of_answered (h : Answered false cs) : ChosenOnce cs where
  selects_iff i hi := by simpa using selects_iff_of_answered h hi
  at_most_once := by
    rw [countP_selects_of_answered h]
    split <;> decide
  once := by
    rintro ⟨c, hc, hlast⟩
    have hchooses : c.chooses = true := by rw [Call.chooses, hlast]; rfl
    rw [countP_selects_of_answered h, if_pos ⟨rfl, c, hc, hchooses⟩]
  not_behind i k hik hk hlast := by
    have hchooses : cs[i].chooses = true := by rw [Call.chooses, hlast]; rfl
    rw [← Bool.not_eq_true, selects_iff_of_answered h hk]
    rintro ⟨-, -, hbefore⟩
    exact Bool.false_ne_true ((hbefore i hik).symm.trans hchooses)

/-! ## The life of a conditional -/

/-- Some conditional is open around which `below` are; some branch of it has been chosen or not, and
its branch is read or not. -/
def Open (below : Conditionals) (taken enabled : Bool) (j : Journal) : Prop :=
  ∃ inner c, j.conditionals = inner ++ c :: below ∧ c.taken = taken ∧ c.enabled = enabled

variable {below : Conditionals} {enabled : Bool} {j : Journal}

theorem Open.of_cons {c : Conditional} (h : j.conditionals = c :: below) :
    Open below c.taken c.enabled j := ⟨[], c, h, rfl, rfl⟩

/-- What an operation does to a conditional that is open: it closes it, it is a call on it, which is
answered in turn, or it leaves it as it is. -/
inductive Lives (below : Conditionals) (taken enabled : Bool) (j : Journal) (op : Operation) : Prop
  | closed (h : (j.operate op).conditionals.length ≤ below.length)
  | called {c : Call} (h : (j.operate op).conditionals.length = below.length + 1)
      (hcall : j.call? op = some c) (hselects : c.selects = (!taken && c.chooses))
      (hopen : Open below (taken || c.chooses) c.selects (j.operate op))
  | left (h : (j.operate op).conditionals.length = below.length + 1 → j.call? op = none)
      (hopen : Open below taken enabled (j.operate op))

theorem conditionals_operate (j : Journal) (op : Operation) :
    (j.operate op).conditionals = j.conditionals.operate j.defines op := rfl

/-- Where the conditional is innermost. -/
theorem lives_of_cons {c : Conditional} (h : j.conditionals = c :: below) (op : Operation) :
    Lives below c.taken c.enabled j op := by
  have hcases := j.conditionals.operate_cases j.defines op
  rw [← conditionals_operate, h] at hcases
  rcases hcases with ⟨name?, d, -, -, hafter⟩ | ⟨-, hafter⟩ | ⟨hpush, hafter⟩
  · -- Another conditional is opened inside.
    refine .left (fun hlength => ?_) ⟨[d], c, hafter, rfl, rfl⟩
    simp [hafter] at hlength
  · exact .closed (Nat.le_of_eq (congrArg List.length hafter))
  · have hlength : (j.operate op).conditionals.length = below.length + 1 :=
      congrArg List.length hafter
    have hselected : (j.operate op).selected = (c.operate j.defines op).enabled := by
      simp [selected, hafter, Conditionals.update]
    have hopen := Open.of_cons hafter
    -- It stays innermost. Of the steps on it only two are calls.
    cases op with
    | evaluate =>
      rw [← hselected] at hopen
      have hcall : j.call? .evaluate =
          some ⟨c.condition.holds j.defines, (j.operate .evaluate).selected⟩ := by
        rw [call?, h]
        rfl
      exact .called hlength hcall hselected hopen
    | switch =>
      rw [← hselected] at hopen
      have hcall : j.call? .switch = some ⟨none, (j.operate .switch).selected⟩ := by
        rw [call?, h]
        rfl
      have htaken : (c.operate j.defines .switch).taken = (c.taken || true) :=
        (Bool.or_true _).symm
      exact .called hlength hcall (hselected.trans (Bool.and_true _).symm) (htaken ▸ hopen)
    | push name? => exact absurd rfl (hpush name?)
    | _ => exact .left (fun _ => rfl) hopen

/-- Where others are open inside the conditional. -/
theorem lives_of_inside {inner : Conditionals} {d c : Conditional}
    (h : j.conditionals = d :: inner ++ c :: below) (op : Operation) :
    Lives below c.taken c.enabled j op := by
  have hstays : ∀ {inner'}, (j.operate op).conditionals = inner' ++ c :: below →
      (inner' = [] → j.call? op = none) → Lives below c.taken c.enabled j op := by
    intro inner' hafter hcall
    refine .left (fun hlength => hcall ?_) ⟨inner', c, hafter, rfl, rfl⟩
    rw [hafter, List.length_append, List.length_cons] at hlength
    exact List.length_eq_zero_iff.1 (by omega)
  have hcases := j.conditionals.operate_cases j.defines op
  rw [← conditionals_operate, h] at hcases
  rcases hcases with ⟨name?, e, -, -, hafter⟩ | ⟨rfl, hafter⟩ | ⟨-, hafter⟩
  · exact @hstays (e :: d :: inner) hafter nofun
  · exact hstays hafter fun _ => rfl
  · exact @hstays (d.operate j.defines op :: inner) hafter nofun

theorem Open.lives (h : Open below taken enabled j) (op : Operation) :
    Lives below taken enabled j op := by
  obtain ⟨inner, c, hj, rfl, rfl⟩ := h
  cases inner with
  | nil => exact lives_of_cons hj op
  | cons d inner => exact lives_of_inside hj op

/-- A conditional that is opened starts its life, and no branch of it has been chosen. -/
theorem lives_of_push (j : Journal) (name? : Option String) :
    Lives j.conditionals false false j (.push name?) := by
  cases name? with
  | none => exact .left (fun _ => rfl) ⟨[], _, rfl, rfl, rfl⟩
  | some name => exact .called rfl rfl rfl ⟨[], _, rfl, rfl, rfl⟩

/-- A call is answered, and those behind it are. -/
theorem Lives.answered {op : Operation} {ops : List Operation}
    (h : Lives below taken enabled j op)
    (hlater : ∀ {taken enabled}, Open below taken enabled (j.operate op) →
      Answered taken (calls below.length (j.operate op) ops)) :
    Answered taken (calls below.length j (op :: ops)) := by
  rw [calls]
  cases h with
  | closed hclosed =>
    rw [if_pos hclosed]
    trivial
  | called hlength hcall hselects hopen =>
    rw [if_neg (by omega), if_pos hlength, hcall]
    exact ⟨hselects, hlater hopen⟩
  -- The operation is no call of this conditional, so that the calls behind it are all there are.
  | left hcall hopen =>
    split
    · trivial
    · split
      · next hlength =>
        rw [hcall hlength]
        exact hlater hopen
      · exact hlater hopen

/-- The calls on a conditional are answered in turn, up to its closing. -/
theorem Open.answered (h : Open below taken enabled j) (ops : List Operation) :
    Answered taken (calls below.length j ops) := by
  induction ops generalizing j taken enabled with
  | nil => trivial
  | cons op ops ih => exact (h.lives op).answered ih

theorem answered_callsSince (j : Journal) (name? : Option String) (ops : List Operation) :
    Answered false (j.callsSince name? ops) :=
  (j.lives_of_push name?).answered fun hopen => hopen.answered ops

/-- Whether a branch is read behind calls. -/
def selectedBehind (enabled : Bool) (cs : List Call) : Bool :=
  (cs.getLast?.map Call.selects).getD enabled

theorem selectedBehind_cons (enabled : Bool) (c : Call) (cs : List Call) :
    selectedBehind enabled (c :: cs) = selectedBehind c.selects cs := by
  cases hlast : cs.getLast? <;> simp [selectedBehind, List.getLast?_cons, hlast]

/-- As long as it is open, the branch that a conditional is in is read if the last call says so. -/
theorem Lives.after {op : Operation} {ops : List Operation} (h : Lives below taken enabled j op)
    (hstays : StaysOpen below.length j (op :: ops))
    (hlater : ∀ {taken enabled}, Open below taken enabled (j.operate op) →
      ∃ taken', Open below taken'
        (selectedBehind enabled (calls below.length (j.operate op) ops)) (j.after (op :: ops))) :
    ∃ taken', Open below taken' (selectedBehind enabled (calls below.length j (op :: ops)))
      (j.after (op :: ops)) := by
  rw [calls, if_neg (Nat.not_le.2 hstays.1)]
  cases h with
  | closed hclosed => exact absurd hstays.1 (Nat.not_lt.2 hclosed)
  | called hlength hcall hselects hopen =>
    rw [if_pos hlength, hcall, Option.toList_some, List.singleton_append, selectedBehind_cons]
    exact hlater hopen
  -- The last call of this conditional is the same as before.
  | left hcall hopen =>
    split
    · next hlength =>
      rw [hcall hlength]
      exact hlater hopen
    · exact hlater hopen

theorem Open.after (h : Open below taken enabled j) {ops : List Operation}
    (hstays : StaysOpen below.length j ops) :
    ∃ taken', Open below taken' (selectedBehind enabled (calls below.length j ops))
      (j.after ops) := by
  induction ops generalizing j taken enabled with
  | nil => exact ⟨taken, h⟩
  | cons op ops ih => exact (h.lives op).after hstays fun hopen => ih hopen hstays.2

/-- Text is read exactly if every open conditional is in a branch that is read. Over the life of a
conditional, whatever is opened inside it and defined meanwhile, the first call that is for the last
branch or whose condition holds at that moment selects its branch, and no other call does; and as
long as it is open, its branch is read if the last call on it has selected one. -/
theorem first_choice_selects (ops : List Operation) :
    ((empty.after ops).isEnabled = true ↔
      ∀ c ∈ (empty.after ops).conditionals, c.enabled = true) ∧
    ∀ name? life,
      ChosenOnce ((empty.after ops).callsSince name? life) ∧
      (StaysOpen (empty.after ops).conditionals.length (empty.after ops) (.push name? :: life) →
        ∃ inner c, (empty.after (ops ++ .push name? :: life)).conditionals =
            inner ++ c :: (empty.after ops).conditionals ∧
          c.enabled = selectedBehind false ((empty.after ops).callsSince name? life)) := by
  have hnested : (empty.after ops).conditionals.Nested := @nested_after empty True.intro ops
  refine ⟨Conditionals.isEnabled_iff_of_nested hnested, fun name? life => ⟨?_, fun hstays => ?_⟩⟩
  · exact chosenOnce_of_answered (answered_callsSince _ name? life)
  · obtain ⟨-, inner, c, hconditionals, -, henabled⟩ :=
      ((empty.after ops).lives_of_push name?).after hstays fun hopen => hopen.after hstays.2
    refine ⟨inner, c, ?_, henabled⟩
    rw [after_append]
    exact hconditionals

/-- The name is defined inside the first branch, whose condition has not held; the second branch is
selected, a conditional inside it is left alone, and nothing behind it is selected. -/
example :
    (empty.after [.define "A" none]).callsSince (some "B")
        [.define "B" (some "1"), .setName "B", .evaluate, .push (some "A"), .switch, .pop, .switch,
          .evaluate, .pop, .push none, .evaluate] =
      [⟨false, false⟩, ⟨true, true⟩, ⟨none, false⟩, ⟨true, false⟩] := by decide

end Journal
end ShaderLang
